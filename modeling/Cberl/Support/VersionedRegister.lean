import Cberl.Support.LabelledRun
import Cberl.Support.Observation

/-!
# A register with versions

A register holds a value and its version.  A reader gets both; a writer names
the version on which the new value is based, and is refused when the register
has another one.  When no version is given twice, writers that derive their
values from what they have read lose no update, however the accesses
interleave.
-/

namespace Cberl.Support

variable {ν β γ : Type*}

inductive Access (ν β γ : Type*) where
  | read (value : β) (version : γ)
  /-- The writer `n` replaces what has the version `basis`. -/
  | swap (n : ν) (basis : γ) (value : β) (version : γ)
  | refused

namespace Access

/-- What the register holds after a swap. -/
def written : Access ν β γ → Option (β × γ)
  | swap _ _ value version => some (value, version)
  | _ => none

def basis : Access ν β γ → Option γ
  | swap _ basis _ _ => some basis
  | _ => none

/-- The writer and the version it is given. -/
def swapped : Access ν β γ → Option (ν × γ)
  | swap n _ _ version => some (n, version)
  | _ => none

end Access

inductive RegisterStep : β × γ → Access ν β γ → β × γ → Prop
  | read {x : β} {c : γ} : RegisterStep (x, c) (.read x c) (x, c)
  | swap {x x' : β} {c c' : γ} {n : ν} :
      RegisterStep (x, c) (.swap n c x' c') (x', c')
  | refused {s : β × γ} : RegisterStep s .refused s

def register (ν : Type*) (start : β × γ) :
    TransitionSystem (β × γ) (Access ν β γ) where
  Initial s := s = start
  Step := RegisterStep

/-- What the register has held. -/
def contents (start : β × γ) (trace : List (Access ν β γ)) : List (β × γ) :=
  start :: trace.filterMap Access.written

section Register

variable {start s : β × γ} {trace : List (Access ν β γ)} {x x' : β} {c : γ}

theorem contents_append (front back : List (Access ν β γ)) :
    contents start (front ++ back) =
      contents start front ++ back.filterMap Access.written := by
  simp [contents]

theorem versions_eq (trace : List (Access ν β γ)) :
    (contents start trace).map Prod.snd =
      start.2 :: (trace.filterMap Access.swapped).map Prod.snd := by
  rw [contents, List.map_cons, List.map_filterMap, List.map_filterMap]
  congr 1
  apply List.filterMap_congr
  intro access _
  cases access <;> rfl

/-- The register holds, and readers get, what was written at some time. -/
theorem mem_contents (hrun : Run (register ν start) trace s) :
    s ∈ contents start trace ∧
      ∀ {x c}, .read x c ∈ trace → (x, c) ∈ contents start trace := by
  refine @Run.invariant _ _ (register ν start) (fun trace s =>
    s ∈ contents start trace ∧
      ∀ {x c}, .read x c ∈ trace → (x, c) ∈ contents start trace) ?_ ?_ _ _ hrun
  · rintro s rfl
    simp [contents]
  · rintro trace s label s' - ⟨hmem, hread⟩ hstep
    rw [contents_append, filterMap_singleton]
    cases hstep with
    | read =>
        refine ⟨List.mem_append_left _ hmem, ?_⟩
        intro x c h
        rcases List.mem_append.mp h with h | h
        · exact List.mem_append_left _ (hread h)
        · simp only [List.mem_singleton, Access.read.injEq] at h
          obtain ⟨rfl, rfl⟩ := h
          exact List.mem_append_left _ hmem
    | swap =>
        refine ⟨by simp [Access.written], ?_⟩
        intro x c h
        exact List.mem_append_left _ (hread (by simpa using h))
    | refused =>
        refine ⟨List.mem_append_left _ hmem, ?_⟩
        intro x c h
        exact List.mem_append_left _ (hread (by simpa using h))

/-- With versions that are not given twice, a version names a value. -/
theorem eq_of_version_eq
    (hfresh : ((contents start trace).map Prod.snd).Nodup)
    (h : (x, c) ∈ contents start trace) (h' : (x', c) ∈ contents start trace) :
    x = x' :=
  congrArg Prod.fst (List.inj_on_of_nodup_map hfresh h h' rfl)

/-- Of several writers that name one version, at most one writes. -/
theorem basis_nodup (hrun : Run (register ν start) trace s)
    (hfresh : ((contents start trace).map Prod.snd).Nodup) :
    (trace.filterMap Access.basis).Nodup := by
  suffices h : (trace.filterMap Access.basis).Nodup ∧
      s.2 ∉ trace.filterMap Access.basis ∧
      ∀ c ∈ trace.filterMap Access.basis,
        c ∈ (contents start trace).map Prod.snd from h.1
  revert hfresh
  refine @Run.invariant _ _ (register ν start) (fun trace s =>
    ((contents start trace).map Prod.snd).Nodup →
      (trace.filterMap Access.basis).Nodup ∧
        s.2 ∉ trace.filterMap Access.basis ∧
        ∀ c ∈ trace.filterMap Access.basis,
          c ∈ (contents start trace).map Prod.snd) ?_ ?_ _ _ hrun
  · intro s hs _
    simp
  · intro trace s label s' hrun ih hstep hfresh
    have hheld := (mem_contents hrun).1
    simp only [contents_append, filterMap_singleton, List.map_append,
      List.filterMap_append] at hfresh ⊢
    obtain ⟨hnodup, hcurrent, hold⟩ := ih hfresh.of_append_left
    cases hstep with
    | swap =>
        rename_i x x' c c' n
        have hnew : c' ∉ (contents start trace).map Prod.snd := fun h =>
          List.disjoint_of_nodup_append hfresh h (by simp [Access.written])
        have hc : c ∈ (contents start trace).map Prod.snd :=
          List.mem_map.mpr ⟨_, hheld, rfl⟩
        refine ⟨?_, ?_, ?_⟩
        · rw [List.nodup_append]
          refine ⟨hnodup, List.nodup_singleton c, ?_⟩
          rintro d hd _ hc' rfl
          obtain rfl := List.mem_singleton.mp hc'
          exact hcurrent hd
        · simp only [Access.basis, Option.toList_some, List.mem_append,
            List.mem_singleton, not_or]
          exact ⟨fun h => hnew (hold _ h), fun h => hnew (h ▸ hc)⟩
        · intro d hd
          rcases List.mem_append.mp hd with hd | hd
          · exact List.mem_append_left _ (hold d hd)
          · obtain rfl := List.mem_singleton.mp hd
            exact List.mem_append_left _ hc
    | _ =>
        simp only [Access.basis, Access.written, Option.toList_none, List.map_nil,
          List.append_nil]
        exact ⟨hnodup, hcurrent, hold⟩

/-- When every writer derives its value from the value of the version that it
names, the register holds the result of all writes. -/
theorem value_eq_foldl {update : β → ν → β}
    (hrun : Run (register ν start) trace s)
    (hderived : ∀ {n c x c'}, .swap n c x c' ∈ trace →
      ∀ x₀, (x₀, c) ∈ contents start trace → x = update x₀ n) :
    s.1 = ((trace.filterMap Access.swapped).map Prod.fst).foldl update
      start.1 := by
  revert hderived
  refine @Run.invariant _ _ (register ν start) (fun trace s =>
    (∀ {n c x c'}, .swap n c x c' ∈ trace →
      ∀ x₀, (x₀, c) ∈ contents start trace → x = update x₀ n) →
    s.1 = ((trace.filterMap Access.swapped).map Prod.fst).foldl update
      start.1) ?_ ?_ _ _ hrun
  · rintro s rfl -
    rfl
  · intro trace s label s' hrun ih hstep hderived
    have hvalue := ih fun hswap x₀ hmem =>
      hderived (List.mem_append_left _ hswap) x₀ (by
        rw [contents_append]
        exact List.mem_append_left _ hmem)
    cases hstep with
    | swap =>
        rename_i x x' c c' n
        have hx' : x' = update x n := by
          apply hderived (List.mem_append_right _ (List.mem_singleton.mpr rfl))
          rw [contents_append]
          exact List.mem_append_left _ (mem_contents hrun).1
        have hx : x = _ := hvalue
        simp [Access.swapped, hx', hx]
    | _ => simpa [Access.swapped] using hvalue

end Register

end Cberl.Support
