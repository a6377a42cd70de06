import Mathlib.Data.List.Induction
import Mathlib.Tactic.Common

/-!
# Programs over external calls

A program that uses a library is a tree: it ends with a value, or it makes a
call and goes on with the answer.  Running it against an environment that
answers each call records the exchanges, and what is left of it after some
exchanges is again a program, so the same tree serves a big-step and a
small-step semantics.

A script is the program that makes the calls of a list until one of them fails.
-/

namespace Cberl.Support

/-- A program that ends with a value of type `α` and makes calls of type `κ`,
answered by values of type `ρ`. -/
inductive CallProgram (κ ρ α : Type) where
  | done (value : α)
  | call (c : κ) (next : ρ → CallProgram κ ρ α)

namespace CallProgram

variable {κ ρ α β ε : Type}

protected def bind : CallProgram κ ρ α → (α → CallProgram κ ρ β) →
    CallProgram κ ρ β
  | done a, f => f a
  | call c next, f => call c fun answer => (next answer).bind f

instance : Monad (CallProgram κ ρ) where
  pure := done
  bind := CallProgram.bind

/-- Make one call and return its answer. -/
def perform (c : κ) : CallProgram κ ρ ρ :=
  call c done

protected theorem bind_done (x : CallProgram κ ρ α) : x.bind done = x := by
  induction x with
  | done a => rfl
  | call c next ih => exact congrArg (call c) (funext ih)

protected theorem bind_assoc {γ : Type} (x : CallProgram κ ρ α)
    (f : α → CallProgram κ ρ β) (g : β → CallProgram κ ρ γ) :
    (x.bind f).bind g = x.bind fun a => (f a).bind g := by
  induction x with
  | done a => rfl
  | call c next ih => exact congrArg (call c) (funext ih)

instance : LawfulMonad (CallProgram κ ρ) :=
  .mk' _ CallProgram.bind_done (fun _ _ => rfl) CallProgram.bind_assoc

/-- What the environment answers to a call, given the exchanges so far. -/
abbrev Environment (κ ρ : Type) := List (κ × ρ) → κ → ρ

/-- Run a program: its value, and all exchanges including the earlier ones. -/
def run (environment : Environment κ ρ) :
    List (κ × ρ) → CallProgram κ ρ α → α × List (κ × ρ)
  | log, done a => (a, log)
  | log, call c next =>
      let answer := environment log c
      run environment (log ++ [(c, answer)]) (next answer)

/-! ## Scripts -/

/-- Make one call, and throw the error if it answers with one. -/
def attempt (c : κ) : ExceptT ε (CallProgram κ (Option ε)) Unit := do
  match ← ExceptT.lift (perform c) with
  | none => pure ()
  | some err => throw err

/-- Make the calls in order until one of them fails. -/
def script : List κ → ExceptT ε (CallProgram κ (Option ε)) Unit
  | [] => pure ()
  | c :: calls => do
      attempt c
      script calls

/-- A script makes its first call and, unless that fails, goes on with the
others. -/
theorem script_cons_run (c : κ) (calls : List κ) :
    (script (c :: calls) : ExceptT ε (CallProgram κ (Option ε)) Unit).run =
      call c fun answer =>
        match answer with
        | none => (script calls).run
        | some err => done (.error err) := by
  rw [script]
  refine congrArg (call c) (funext fun answer => ?_)
  cases answer <;> rfl

theorem script_append (calls calls' : List κ) :
    (script (calls ++ calls') : ExceptT ε (CallProgram κ (Option ε)) Unit) =
      script calls >>= fun _ => script calls' := by
  induction calls with
  | nil => simp [script]
  | cons c calls ih => simp [script, ih]

/-- The exchanges of calls that all succeed. -/
def accepted (calls : List κ) : List (κ × Option ε) :=
  calls.map fun c => (c, none)

/-- After the exchanges `log`, the environment lets the calls succeed one
after the other. -/
def Accepts (environment : Environment κ (Option ε))
    (log : List (κ × Option ε)) (calls : List κ) : Prop :=
  ∀ before c after, calls = before ++ c :: after →
    environment (log ++ accepted before) c = none

variable {environment : Environment κ (Option ε)} {log : List (κ × Option ε)}
  {c : κ} {calls : List κ}

theorem accepts_nil : Accepts environment log [] := by
  intro before c after h
  simp at h

theorem accepts_cons_iff :
    Accepts environment log (c :: calls) ↔
      environment log c = none ∧ Accepts environment (log ++ [(c, none)]) calls := by
  constructor
  · intro h
    refine ⟨by simpa [accepted] using h [] c calls rfl, ?_⟩
    intro before d after hcalls
    have hd := h (c :: before) d after (by rw [hcalls, List.cons_append])
    simpa [accepted] using hd
  · rintro ⟨hc, hcalls⟩ before d after h
    cases before with
    | nil =>
        obtain ⟨rfl, -⟩ := List.cons.inj h
        simpa [accepted] using hc
    | cons b before =>
        obtain ⟨rfl, hrest⟩ := List.cons.inj h
        simpa [accepted] using hcalls before d after hrest

theorem run_script_cons_of_none (h : environment log c = none) :
    run environment log (script (c :: calls)).run =
      run environment (log ++ [(c, none)]) (script calls).run := by
  rw [script_cons_run, run, h]

theorem run_script_cons_of_some {err : ε} (h : environment log c = some err) :
    run environment log (script (c :: calls)).run =
      (.error err, log ++ [(c, some err)]) := by
  rw [script_cons_run, run, h]
  rfl

/-- A script whose calls all succeed makes them all. -/
theorem run_script_of_accepts (h : Accepts environment log calls) :
    run environment log (script calls).run =
      (.ok (), log ++ accepted calls) := by
  induction calls generalizing log with
  | nil =>
      rw [accepted, List.map_nil, List.append_nil]
      rfl
  | cons c calls ih =>
      obtain ⟨hc, hcalls⟩ := accepts_cons_iff.mp h
      rw [run_script_cons_of_none hc, ih hcalls]
      simp [accepted]

/-- A script stops at the first call that fails. -/
theorem run_script_of_fails {before after : List κ} {err : ε}
    (hbefore : Accepts environment log before)
    (hfails : environment (log ++ accepted before) c = some err) :
    run environment log (script (before ++ c :: after)).run =
      (.error err, log ++ accepted before ++ [(c, some err)]) := by
  induction before generalizing log with
  | nil =>
      rw [accepted, List.map_nil, List.append_nil] at hfails ⊢
      exact run_script_cons_of_some hfails
  | cons b before ih =>
      obtain ⟨hb, hrest⟩ := accepts_cons_iff.mp hbefore
      have hlog : log ++ accepted (b :: before) =
          log ++ [(b, none)] ++ accepted before := by
        simp [accepted]
      rw [hlog] at hfails ⊢
      rw [List.cons_append, run_script_cons_of_none hb]
      exact ih hrest hfails

/-- Calls that do not all succeed have a first one that fails. -/
theorem exists_first_failure (h : ¬ Accepts environment log calls) :
    ∃ before c after err, calls = before ++ c :: after ∧
      Accepts environment log before ∧
      environment (log ++ accepted before) c = some err := by
  induction calls generalizing log with
  | nil => exact absurd accepts_nil h
  | cons c calls ih =>
      cases hc : environment log c with
      | some err =>
          exact ⟨[], c, calls, err, rfl, accepts_nil,
            by simpa [accepted] using hc⟩
      | none =>
          have hcalls : ¬ Accepts environment (log ++ [(c, none)]) calls :=
            fun hcalls => h (accepts_cons_iff.mpr ⟨hc, hcalls⟩)
          obtain ⟨before, d, after, err, rfl, hbefore, hd⟩ := ih hcalls
          refine ⟨c :: before, d, after, err, rfl,
            accepts_cons_iff.mpr ⟨hc, hbefore⟩, ?_⟩
          simpa [accepted] using hd

end CallProgram

end Cberl.Support
