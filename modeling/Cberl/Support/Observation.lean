import Mathlib.Data.List.Infix
import Mathlib.Data.List.Nodup
import Mathlib.Data.List.Perm.Subperm

/-!
# Observations of a trace

An observation reads some labels of a trace and skips the others, so what it
sees of a trace is a `filterMap`.
-/

namespace Cberl.Support

variable {ℓ α β : Type*}

@[simp] theorem filterMap_singleton (observe : ℓ → Option α) (label : ℓ) :
    [label].filterMap observe = (observe label).toList := by
  rw [List.filterMap_cons]
  cases observe label <;> rfl

/-- An observation that sees less than another sees a sublist. -/
theorem filterMap_sublist_of_imp
    {observe observe' : ℓ → Option α} {trace : List ℓ}
    (h : ∀ label ∈ trace, ∀ x, observe label = some x →
      observe' label = some x) :
    (trace.filterMap observe).Sublist (trace.filterMap observe') := by
  induction trace with
  | nil => exact List.Sublist.refl _
  | cons label trace ih =>
      have ih' := ih fun other hother => h other (List.mem_cons_of_mem _ hother)
      cases hx : observe label with
      | some x =>
          rw [List.filterMap_cons_some hx,
            List.filterMap_cons_some (h label List.mem_cons_self x hx)]
          exact ih'.cons_cons x
      | none =>
          rw [List.filterMap_cons_none hx]
          exact ih'.trans
            ((List.sublist_cons_self label trace).filterMap observe')

/-- One more label keeps what is seen distinct unless it shows something seen
before. -/
theorem nodup_filterMap_concat
    {observe : ℓ → Option α} {trace : List ℓ} {label : ℓ}
    (hnodup : (trace.filterMap observe).Nodup)
    (hnew : ∀ x, observe label = some x → x ∉ trace.filterMap observe) :
    ((trace ++ [label]).filterMap observe).Nodup := by
  rw [List.filterMap_append, filterMap_singleton]
  cases hx : observe label with
  | none => simpa using hnodup
  | some x =>
      have hx' := hnew x hx
      rw [Option.toList_some, List.nodup_append]
      refine ⟨hnodup, List.nodup_singleton x, ?_⟩
      rintro y hy z hz rfl
      rw [List.mem_singleton] at hz
      exact hx' (hz ▸ hy)

/-- When an observation never sees the same value twice, a value it sees names
its label. -/
theorem eq_of_observe_eq
    {observe : ℓ → Option α} {trace : List ℓ} {a b : ℓ} {x : α}
    (hnodup : (trace.filterMap observe).Nodup)
    (ha : a ∈ trace) (hb : b ∈ trace)
    (hax : observe a = some x) (hbx : observe b = some x) : a = b := by
  induction trace with
  | nil => cases ha
  | cons label trace ih =>
      have hmem : ∀ c ∈ trace, observe c = some x →
          x ∈ trace.filterMap observe :=
        fun c hc hcx => List.mem_filterMap.mpr ⟨c, hc, hcx⟩
      rcases List.mem_cons.mp ha with rfl | ha'
      · rcases List.mem_cons.mp hb with rfl | hb'
        · rfl
        · rw [List.filterMap_cons_some hax, List.nodup_cons] at hnodup
          exact absurd (hmem b hb' hbx) hnodup.1
      · rcases List.mem_cons.mp hb with rfl | hb'
        · rw [List.filterMap_cons_some hbx, List.nodup_cons] at hnodup
          exact absurd (hmem a ha' hax) hnodup.1
        · apply ih _ ha' hb'
          apply List.Nodup.sublist _ hnodup
          exact (List.sublist_cons_self label trace).filterMap observe

/-- An initial segment that contains the later of two entries contains the
earlier one before it. -/
theorem pair_sublist_of_prefix
    {xs before after : List α} {a b : α}
    (hnodup : (before ++ after).Nodup) (hxs : xs <+: before ++ after)
    (ha : a ∈ before) (hb : b ∈ after) (hbxs : b ∈ xs) :
    [a, b].Sublist xs := by
  obtain ⟨rest, hrest⟩ := hxs
  have hdisjoint := List.disjoint_of_nodup_append hnodup
  rcases List.append_eq_append_iff.mp hrest with
    ⟨middle, hbefore, -⟩ | ⟨middle, hxs, -⟩
  · have hb' : b ∈ before := by
      rw [hbefore]
      exact List.mem_append_left _ hbxs
    exact absurd hb (hdisjoint hb')
  · have hb' : b ∈ middle := by
      rw [hxs, List.mem_append] at hbxs
      exact hbxs.resolve_left fun hbefore => hdisjoint hbefore hb
    rw [hxs]
    exact (List.singleton_sublist.mpr ha).append
      (List.singleton_sublist.mpr hb')

/-! ## Fibres -/

theorem subperm_map {xs ys : List α} (h : xs.Subperm ys) (f : α → β) :
    (xs.map f).Subperm (ys.map f) := by
  obtain ⟨zs, hperm, hsublist⟩ := h
  exact ⟨zs.map f, hperm.map f, hsublist.map f⟩

variable {κ : Type*} [DecidableEq κ] [DecidableEq α] {xs ys : List (κ × α)}

/-- What each fibre of a list contains no more often, the whole list contains
no more often. -/
theorem subperm_of_fibres
    (h : ∀ k, (xs.filter fun entry => entry.1 = k).Subperm
      (ys.filter fun entry => entry.1 = k)) : xs.Subperm ys := by
  rw [List.subperm_ext_iff]
  rintro ⟨k, x⟩ -
  have hcount := (h k).count_le (k, x)
  rwa [List.count_filter (by simp), List.count_filter (by simp)] at hcount

theorem perm_of_fibres
    (h : ∀ k, (xs.filter fun entry => entry.1 = k).Perm
      (ys.filter fun entry => entry.1 = k)) : xs.Perm ys := by
  rw [List.perm_iff_count]
  rintro ⟨k, x⟩
  have hcount := (h k).count_eq (k, x)
  rwa [List.count_filter (by simp), List.count_filter (by simp)] at hcount

/-- A list whose every value occurs at most `n` times as often as in another is
at most `n` times as long. -/
theorem length_le_of_count_le {γ : Type*} [BEq γ] [LawfulBEq γ]
    {xs ys : List γ} {n : ℕ} (h : ∀ x, xs.count x ≤ n * ys.count x) :
    xs.length ≤ n * ys.length := by
  have hsubperm : xs.Subperm (List.replicate n ys).flatten := by
    rw [List.subperm_ext_iff]
    intro x _
    simpa [List.count_flatten] using h x
  simpa using hsubperm.length_le

end Cberl.Support
