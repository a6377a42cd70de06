import Cberl.Nif.Functions
import Cberl.Connection.Responses
import Cberl.Support.LabelledRun
import Cberl.Support.Observation

/-!
# Response objects as cookies

Every operation of a connection hands libcouchbase the address of a response
object on its own stack, and every completion callback writes to the address
its command was scheduled with.  Both `return {err};` statements of an
operation leave while commands may be outstanding; these complete during the
`lcb_wait` of a later operation, when their response object is gone.

libcouchbase is assumed to run callbacks only inside `lcb_wait`, and to have no
command outstanding when `lcb_wait` succeeds.
-/

namespace Cberl.Cookies

open Cberl Cberl.Support

section Runs

variable [LcbTypes]

/-- The operations; each has its own callback and response type. -/
inductive Kind where
  | get
  | store
  | remove
  | arithmetic
  | http
  | durability

def kind : Operation → Kind
  | .get _ => .get
  | .store _ => .store
  | .remove _ => .remove
  | .arithmetic _ => .arithmetic
  | .http _ => .http
  | .durability _ _ => .durability

/-- How many commands an operation schedules. -/
def commandCount : Operation → ℕ
  | .get requests => requests.length
  | .store requests => requests.length
  | .remove requests => requests.length
  | .arithmetic requests => requests.length
  | .http _ => 1
  | .durability requests _ => requests.length

/-- A response object: its identity and its type. -/
structure Cookie where
  object : ℕ
  kind : Kind

/-- A scheduled command, with the cookie its callback will get. -/
structure Command where
  cookie : Cookie
  index : ℕ

def commands (cookie : Cookie) (operation : Operation) : List Command :=
  (List.range (commandCount operation)).map fun index => { cookie, index }

/-- Where the worker is in the code of an operation: outside, before the
scheduling call, or inside `lcb_wait`. -/
inductive Activity where
  | idle
  | scheduling (cookie : Cookie) (operation : Operation)
  | waiting (cookie : Cookie) (operation : Operation)

structure State where
  /-- The identity of the next response object. -/
  next : ℕ
  activity : Activity
  outstanding : List Command

inductive Event where
  | entered (cookie : Cookie)
  | scheduled (cookie : Cookie)
  | callback (current : Cookie) (command : Command)
  | finished (cookie : Cookie)
  /-- A `return {err};` with the commands it leaves behind. -/
  | failed (cookie : Cookie) (err : LcbError) (left : List Command)

/-- One step of an operation on the connection. -/
inductive Step : State → Event → State → Prop
  | entered {s : State} (operation : Operation) (hidle : s.activity = .idle) :
      Step s (.entered ⟨s.next, kind operation⟩)
        { s with
          next := s.next + 1
          activity := .scheduling ⟨s.next, kind operation⟩ operation }
  | scheduled {s : State} {cookie : Cookie} {operation : Operation}
      (hactivity : s.activity = .scheduling cookie operation) :
      Step s (.scheduled cookie)
        { s with
          activity := .waiting cookie operation
          outstanding := s.outstanding ++ commands cookie operation }
  /-- The scheduling call fails after it has queued some commands. -/
  | refused {s : State} {cookie : Cookie} {operation : Operation}
      {err : LcbError} {queued : List Command}
      (hactivity : s.activity = .scheduling cookie operation)
      (hqueued : queued <+: commands cookie operation) :
      Step s (.failed cookie err (s.outstanding ++ queued))
        { s with
          activity := .idle
          outstanding := s.outstanding ++ queued }
  | callback {s : State} {cookie : Cookie} {operation : Operation}
      {command : Command} {before after : List Command}
      (hactivity : s.activity = .waiting cookie operation)
      (houtstanding : s.outstanding = before ++ command :: after) :
      Step s (.callback cookie command)
        { s with outstanding := before ++ after }
  | finished {s : State} {cookie : Cookie} {operation : Operation}
      (hactivity : s.activity = .waiting cookie operation)
      (houtstanding : s.outstanding = []) :
      Step s (.finished cookie) { s with activity := .idle }
  /-- `lcb_wait` fails. -/
  | broken {s : State} {cookie : Cookie} {operation : Operation}
      {err : LcbError} (hactivity : s.activity = .waiting cookie operation) :
      Step s (.failed cookie err s.outstanding) { s with activity := .idle }

/-- The operations on one connection, from its creation on. -/
def machine : TransitionSystem State Event where
  Initial s := s.activity = .idle ∧ s.outstanding = []
  Step := Step

/-- The operation that returns. -/
def returnedCookie : Event → Option Cookie
  | .finished cookie => some cookie
  | .failed cookie _ _ => some cookie
  | _ => none

/-- Every callback gets the response object of the operation that is executing,
with its type, and that operation has not returned. -/
def Addressed (trace : List Event) : Prop :=
  ∀ before current command after,
    trace = before ++ .callback current command :: after →
    command.cookie = current ∧
      command.cookie ∉ before.filterMap returnedCookie

/-- No operation that fails leaves a command behind. -/
def Clean (trace : List Event) : Prop :=
  ∀ cookie err left, .failed cookie err left ∈ trace → left = []

/-! ## Outstanding commands belong to the current operation -/

/-- Commands are outstanding only while their own operation waits. -/
def Owned (s : State) : Prop :=
  ∀ command ∈ s.outstanding,
    ∃ operation, s.activity = .waiting command.cookie operation

/-- The response object of the executing operation is newer than those of the
operations that returned. -/
def Newer (trace : List Event) (s : State) : Prop :=
  match s.activity with
  | .idle => ∀ cookie ∈ trace.filterMap returnedCookie, cookie.object < s.next
  | .scheduling current _ | .waiting current _ =>
      current.object < s.next ∧
        ∀ cookie ∈ trace.filterMap returnedCookie,
          cookie.object < current.object

variable {trace : List Event} {s : State}

theorem Owned.outstanding_eq_nil (howned : Owned s)
    (hno : ∀ cookie operation, s.activity ≠ .waiting cookie operation) :
    s.outstanding = [] := by
  rw [List.eq_nil_iff_forall_not_mem]
  intro command hcommand
  obtain ⟨operation, hactivity⟩ := howned command hcommand
  exact hno _ _ hactivity

theorem cookie_of_mem_commands {cookie : Cookie} {operation : Operation}
    {command : Command} (h : command ∈ commands cookie operation) :
    command.cookie = cookie := by
  obtain ⟨index, -, rfl⟩ := List.mem_map.mp h
  rfl

theorem owned_of_clean (hrun : Run machine trace s) (hclean : Clean trace) :
    Owned s := by
  revert hclean
  refine @Run.invariant _ _ machine (fun trace s => Clean trace → Owned s)
    ?_ ?_ _ _ hrun
  · intro s hs _ command hcommand
    rw [hs.2] at hcommand
    cases hcommand
  · intro trace s label s' _ ih hstep hclean
    have howned : Owned s := by
      refine ih fun cookie err left hfailed => ?_
      exact hclean cookie err left (List.mem_append_left _ hfailed)
    cases hstep with
    | entered operation hidle =>
        have hnone := howned.outstanding_eq_nil (by simp [hidle])
        simp [Owned, hnone]
    | @scheduled cookie operation hactivity =>
        have hnone := howned.outstanding_eq_nil (by simp [hactivity])
        intro command hcommand
        rw [hnone, List.nil_append] at hcommand
        rw [cookie_of_mem_commands hcommand]
        exact ⟨operation, rfl⟩
    | @refused cookie operation err queued hactivity hqueued =>
        have hleft := hclean _ _ _
          (List.mem_append_right _ (List.mem_singleton.mpr rfl))
        simp [Owned, hleft]
    | @callback cookie operation command before after hactivity houtstanding =>
        intro command' hcommand'
        apply howned command'
        rw [houtstanding]
        rcases List.mem_append.mp hcommand' with hbefore | hafter
        · exact List.mem_append_left _ hbefore
        · exact List.mem_append_right _ (List.mem_cons_of_mem _ hafter)
    | finished hactivity houtstanding => simp [Owned, houtstanding]
    | broken hactivity =>
        have hleft := hclean _ _ _
          (List.mem_append_right _ (List.mem_singleton.mpr rfl))
        simp [Owned, hleft]

omit [LcbTypes] in
theorem newer_of_return {next : ℕ} {current : Cookie} {event : Event}
    (hcurrent : current.object < next ∧
      ∀ cookie ∈ trace.filterMap returnedCookie,
        cookie.object < current.object)
    (hevent : returnedCookie event = some current) :
    ∀ cookie ∈ (trace ++ [event]).filterMap returnedCookie,
      cookie.object < next := by
  intro cookie hcookie
  rw [List.filterMap_append, filterMap_singleton, hevent,
    List.mem_append] at hcookie
  rcases hcookie with hold | hnew
  · exact (hcurrent.2 cookie hold).trans hcurrent.1
  · rw [List.mem_singleton.mp hnew]
    exact hcurrent.1

theorem newer_of_run (hrun : Run machine trace s) : Newer trace s := by
  refine hrun.invariant ?_ ?_
  · intro s hs
    rw [Newer, hs.1]
    intro cookie hcookie
    cases hcookie
  · intro trace s label s' _ ih hstep
    unfold Newer at ih
    cases hstep with
    | entered operation hidle =>
        rw [hidle] at ih
        refine ⟨Nat.lt_succ_self _, ?_⟩
        simpa [returnedCookie] using ih
    | scheduled hactivity =>
        rw [hactivity] at ih
        simpa [Newer, returnedCookie] using ih
    | refused hactivity hqueued =>
        rw [hactivity] at ih
        exact newer_of_return ih rfl
    | callback hactivity houtstanding =>
        rw [hactivity] at ih
        simpa [Newer, returnedCookie, hactivity] using ih
    | finished hactivity houtstanding =>
        rw [hactivity] at ih
        exact newer_of_return ih rfl
    | broken hactivity =>
        rw [hactivity] at ih
        exact newer_of_return ih rfl

/-- While every failing operation leaves nothing outstanding, every callback
reaches the operation that is executing. -/
theorem addressed_of_clean (hrun : Run machine trace s)
    (hclean : Clean trace) : Addressed trace := by
  rintro before current command after rfl
  obtain ⟨s₁, s₂, hrun₁, hstep⟩ := hrun.exists_step
  have hclean₁ : Clean before := fun cookie err left hfailed =>
    hclean cookie err left (List.mem_append_left _ hfailed)
  cases hstep with
  | @callback _ operation _ left right hactivity houtstanding =>
      have hmem : command ∈ s₁.outstanding := by simp [houtstanding]
      obtain ⟨operation', hown⟩ := owned_of_clean hrun₁ hclean₁ command hmem
      obtain ⟨hcookie, -⟩ : command.cookie = current ∧ operation' = operation := by
        simpa using hown.symm.trans hactivity
      have hnewer := newer_of_run hrun₁
      rw [Newer, hactivity] at hnewer
      refine ⟨hcookie, fun hreturned => ?_⟩
      rw [hcookie] at hreturned
      exact lt_irrefl _ (hnewer.2 current hreturned)

/-! ## A stray callback -/

def getOne : Operation :=
  .get [{ key := [107], expiry := ⟨0, IntType.contains_zero _⟩, lock := false }]

def removeOne : Operation :=
  .remove [{ key := [108], cas := ⟨0, IntType.contains_zero _⟩ }]

def start : State :=
  { next := 0, activity := .idle, outstanding := [] }

/-- A command left behind can be completed by the next operation, of another
type. -/
theorem exists_not_addressed_of_left (hrun : Run machine trace s)
    (hidle : s.activity = .idle) (hleft : s.outstanding ≠ []) :
    ∃ events s', Run machine (trace ++ events) s' ∧
      ¬ Addressed (trace ++ events) := by
  obtain ⟨command, rest, houtstanding⟩ := List.exists_cons_of_ne_nil hleft
  obtain ⟨operation, hkind⟩ : ∃ operation,
      kind operation ≠ command.cookie.kind := by
    by_cases h : command.cookie.kind = .remove
    · refine ⟨getOne, fun hget => ?_⟩
      rw [h] at hget
      cases hget
    · exact ⟨removeOne, Ne.symm h⟩
  let current : Cookie := { object := s.next, kind := kind operation }
  have houtstanding' : s.outstanding ++ commands current operation =
      [] ++ command :: (rest ++ commands current operation) := by
    rw [houtstanding]
    rfl
  have h₁ := hrun.step (Step.entered operation hidle)
  have h₂ := h₁.step (Step.scheduled rfl)
  have h₃ := h₂.step (Step.callback rfl houtstanding')
  refine ⟨[.entered current, .scheduled current, .callback current command], _,
    by simpa using h₃, fun haddressed => ?_⟩
  obtain ⟨hcookie, -⟩ := haddressed
    (trace ++ [.entered current, .scheduled current]) current command []
    (by simp)
  exact hkind (congrArg Cookie.kind hcookie).symm

/-- The `lcb_wait` of a get fails when the get's callback has run, and the
remove that comes next gets its own callback. -/
def drainedTrace : List Event :=
  [.entered ⟨0, .get⟩,
    .scheduled ⟨0, .get⟩,
    .callback ⟨0, .get⟩ ⟨⟨0, .get⟩, 0⟩,
    .failed ⟨0, .get⟩ .networkError [],
    .entered ⟨1, .remove⟩,
    .scheduled ⟨1, .remove⟩,
    .callback ⟨1, .remove⟩ ⟨⟨1, .remove⟩, 0⟩,
    .finished ⟨1, .remove⟩]

theorem drainedRun : ∃ s, Run machine drainedTrace s := by
  have h₀ : Run machine [] start := .start ⟨rfl, rfl⟩
  have h₁ : Run machine (drainedTrace.take 1) _ :=
    h₀.step (Step.entered getOne rfl)
  have h₂ : Run machine (drainedTrace.take 2) _ := h₁.step (Step.scheduled rfl)
  have h₃ : Run machine (drainedTrace.take 3) _ :=
    h₂.step (@Step.callback _ _ _ _ _ [] [] rfl rfl)
  have h₄ : Run machine (drainedTrace.take 4) _ := h₃.step (Step.broken rfl)
  have h₅ : Run machine (drainedTrace.take 5) _ :=
    h₄.step (Step.entered removeOne rfl)
  have h₆ : Run machine (drainedTrace.take 6) _ := h₅.step (Step.scheduled rfl)
  have h₇ : Run machine (drainedTrace.take 7) _ :=
    h₆.step (@Step.callback _ _ _ _ _ [] [] rfl rfl)
  exact ⟨_, h₇.step (Step.finished rfl rfl)⟩

/-- The `lcb_wait` of a get fails, and the get's callback runs in the
`lcb_wait` of the remove that comes next. -/
def strayTrace : List Event :=
  [.entered ⟨0, .get⟩,
    .scheduled ⟨0, .get⟩,
    .failed ⟨0, .get⟩ .networkError [⟨⟨0, .get⟩, 0⟩],
    .entered ⟨1, .remove⟩,
    .scheduled ⟨1, .remove⟩,
    .callback ⟨1, .remove⟩ ⟨⟨0, .get⟩, 0⟩]

theorem strayRun : ∃ s, Run machine strayTrace s := by
  have h₀ : Run machine [] start := .start ⟨rfl, rfl⟩
  have h₁ : Run machine (strayTrace.take 1) _ := h₀.step (Step.entered getOne rfl)
  have h₂ : Run machine (strayTrace.take 2) _ := h₁.step (Step.scheduled rfl)
  have h₃ : Run machine (strayTrace.take 3) _ := h₂.step (Step.broken rfl)
  have h₄ : Run machine (strayTrace.take 4) _ :=
    h₃.step (Step.entered removeOne rfl)
  have h₅ : Run machine (strayTrace.take 5) _ := h₄.step (Step.scheduled rfl)
  exact ⟨_, h₅.step (@Step.callback _ _ _ _ _ [] [_] rfl rfl)⟩

end Runs

theorem drainedTrace_addressed :
    let _ : LcbTypes := ⟨.uint32⟩
    (∃ s, Run machine drainedTrace s) ∧ Addressed drainedTrace := by
  intro _
  obtain ⟨s, hrun⟩ := drainedRun
  have hclean : Clean drainedTrace := by
    intro cookie err left hfailed
    simp only [drainedTrace, List.mem_cons, Event.failed.injEq, reduceCtorEq,
      false_or, List.not_mem_nil, or_false] at hfailed
    exact hfailed.2.2
  exact ⟨⟨s, hrun⟩, addressed_of_clean hrun hclean⟩

theorem strayTrace_not_addressed :
    let _ : LcbTypes := ⟨.uint32⟩
    (∃ s, Run machine strayTrace s) ∧ ¬ Addressed strayTrace := by
  intro _
  refine ⟨strayRun, fun haddressed => ?_⟩
  obtain ⟨hcookie, -⟩ := haddressed (strayTrace.take 5) _ _ [] rfl
  cases hcookie

end Cberl.Cookies
