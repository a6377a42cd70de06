import Mathlib.Data.List.Perm.Basic
import Mathlib.Data.List.Forall2
import Mathlib.Logic.Function.Basic

/-!
# Orders that agree key by key

Two lists agree key by key when, for every key, they have the same entries with
that key in the same order.  This is the freedom a batch of commands has when
different keys live on different nodes.  A position is pinned down by its key:
key-equivalent lists with the same sequence of keys are equal.

Serving a list of commands on a map, one key per command, is insensitive to
that freedom: the final map is the same and every key sees the same answers in
the same order.
-/

namespace Cberl.Support

variable {α β κ V : Type*} [DecidableEq κ]

/-- The same entries for every key, in the same order. -/
def KeyEquiv (key : α → κ) (xs ys : List α) : Prop :=
  ∀ k, xs.filter (fun x => key x = k) = ys.filter (fun x => key x = k)

namespace KeyEquiv

variable {key : α → κ} {xs ys zs : List α}

theorem refl (key : α → κ) (xs : List α) : KeyEquiv key xs xs :=
  fun _ => rfl

theorem trans (h : KeyEquiv key xs ys) (h' : KeyEquiv key ys zs) :
    KeyEquiv key xs zs :=
  fun k => (h k).trans (h' k)

theorem map {key' : β → κ} (f : α → β) (hkey : ∀ x, key' (f x) = key x)
    (h : KeyEquiv key xs ys) : KeyEquiv key' (xs.map f) (ys.map f) := by
  intro k
  simp only [List.filter_map, Function.comp_def, hkey]
  rw [h k]

/-- An injective renaming of keys changes nothing. -/
theorem comp_injective {κ' : Type*} [DecidableEq κ'] {g : κ → κ'}
    (hg : Function.Injective g) (h : KeyEquiv key xs ys) :
    KeyEquiv (fun x => g (key x)) xs ys := by
  intro k'
  by_cases hk' : ∃ k, g k = k'
  · obtain ⟨k, rfl⟩ := hk'
    simpa only [hg.eq_iff] using h k
  · have hnone : ∀ zs : List α, zs.filter (fun x => g (key x) = k') = [] := by
      intro zs
      rw [List.filter_eq_nil_iff]
      intro x _ hx
      exact hk' ⟨key x, by simpa using hx⟩
    rw [hnone, hnone]

theorem mem_iff (h : KeyEquiv key xs ys) {x : α} : x ∈ xs ↔ x ∈ ys := by
  have hx := congrArg (x ∈ ·) (h (key x))
  simpa using hx

theorem perm (h : KeyEquiv key xs ys) : xs.Perm ys := by
  classical
  rw [List.perm_iff_count]
  intro x
  have hcount : ∀ zs : List α,
      (zs.filter fun z => key z = key x).count x = zs.count x :=
    fun zs => List.count_filter (by simp)
  rw [← hcount xs, h (key x), hcount ys]

theorem length_eq (h : KeyEquiv key xs ys) : xs.length = ys.length :=
  h.perm.length_eq

/-- Only the order of keys is free. -/
theorem eq_of_map_key_eq (h : KeyEquiv key xs ys)
    (hkeys : xs.map key = ys.map key) : xs = ys := by
  induction xs generalizing ys with
  | nil =>
      have hlength := h.length_eq
      exact (List.length_eq_zero_iff.mp hlength.symm).symm
  | cons x xs ih =>
      cases ys with
      | nil => cases hkeys
      | cons y ys =>
          rw [List.map_cons, List.map_cons, List.cons.injEq] at hkeys
          obtain ⟨hkey, hkeys⟩ := hkeys
          have hhead := h (key x)
          rw [List.filter_cons_of_pos (by simp),
            List.filter_cons_of_pos (by simp [hkey]), List.cons.injEq] at hhead
          obtain ⟨rfl, -⟩ := hhead
          rw [ih ?_ hkeys]
          intro k
          have hk := h k
          by_cases hxk : key x = k
          · simpa [List.filter_cons, hxk] using hk
          · simpa [List.filter_cons, hxk] using hk

/-- Rearranging a list keeps it as it is key by key when both arrangements put
the entries of one key into the same strict order. -/
theorem of_perm {r : α → α → Prop} (hasymm : ∀ x y, r x y → ¬ r y x)
    (hperm : xs.Perm ys)
    (hxs : xs.Pairwise fun x y => key x = key y → r x y)
    (hys : ys.Pairwise fun x y => key x = key y → r x y) :
    KeyEquiv key xs ys := by
  intro k
  have hsorted : ∀ {zs : List α},
      zs.Pairwise (fun x y => key x = key y → r x y) →
      (zs.filter fun z => key z = k).Pairwise r := by
    intro zs hzs
    refine (hzs.filter _).imp_of_mem ?_
    intro x y hx hy h
    have hxk : key x = k := by simpa using (List.mem_filter.mp hx).2
    have hyk : key y = k := by simpa using (List.mem_filter.mp hy).2
    exact h (hxk.trans hyk.symm)
  apply (hperm.filter _).eq_of_pairwise _ (hsorted hxs) (hsorted hys)
  intro x y _ _ hxy hyx
  exact absurd hyx (hasymm x y hxy)

end KeyEquiv

/-! ## Serving commands on a map -/

section Serving

variable (step : V → α → V × β)

/-- Serve commands one after the other on a single value. -/
def serveValue : V → List α → V × List (α × β)
  | v, [] => (v, [])
  | v, x :: xs =>
      let (v', answer) := step v x
      let (v'', log) := serveValue v' xs
      (v'', (x, answer) :: log)

/-- Serve commands one after the other on a map, each on the value at its own
key. -/
def serve (key : α → κ) : (κ → V) → List α → (κ → V) × List (α × β)
  | m, [] => (m, [])
  | m, x :: xs =>
      let (v, answer) := step (m (key x)) x
      let (m', log) := serve key (Function.update m (key x) v) xs
      (m', (x, answer) :: log)

theorem serve_map_fst (key : α → κ) (m : κ → V) (xs : List α) :
    (serve step key m xs).2.map Prod.fst = xs := by
  induction xs generalizing m with
  | nil => rfl
  | cons x xs ih => simp [serve, ih]

theorem length_serve (key : α → κ) (m : κ → V) (xs : List α) :
    (serve step key m xs).2.length = xs.length := by
  have hlength := congrArg List.length (serve_map_fst step key m xs)
  rwa [List.length_map] at hlength

/-- What one key sees of a served list is what serving its own commands on its
own value gives. -/
theorem serve_at (key : α → κ) (m : κ → V) (xs : List α) (k : κ) :
    ((serve step key m xs).1 k,
        (serve step key m xs).2.filter fun entry => key entry.1 = k) =
      serveValue step (m k) (xs.filter fun x => key x = k) := by
  induction xs generalizing m with
  | nil => rfl
  | cons x xs ih =>
      have hrest := ih (Function.update m (key x) (step (m (key x)) x).1)
      rw [Prod.ext_iff] at hrest ⊢
      by_cases hx : key x = k
      · subst hx
        rw [Function.update_self] at hrest
        simpa [serve, serveValue] using hrest
      · rw [Function.update_of_ne (Ne.symm hx)] at hrest
        simpa [serve, hx] using hrest

/-- Key-equivalent command lists leave the same map and give key-equivalent
answers. -/
theorem serve_congr {key : α → κ} (m : κ → V) {xs ys : List α}
    (h : KeyEquiv key xs ys) :
    (serve step key m xs).1 = (serve step key m ys).1 ∧
      KeyEquiv (fun entry => key entry.1)
        (serve step key m xs).2 (serve step key m ys).2 := by
  have hat : ∀ k,
      serveValue step (m k) (xs.filter fun x => key x = k) =
        serveValue step (m k) (ys.filter fun x => key x = k) :=
    fun k => by rw [h k]
  constructor
  · funext k
    have hk := hat k
    rw [← serve_at, ← serve_at] at hk
    exact congrArg Prod.fst hk
  · intro k
    have hk := hat k
    rw [← serve_at, ← serve_at] at hk
    exact congrArg Prod.snd hk

end Serving

/-- Two services whose steps correspond leave corresponding maps and give
corresponding answers. -/
theorem serve_rel
    {α' β' V' : Type*} {step : V → α → V × β} {step' : V' → α' → V' × β'}
    {key : α → κ} {key' : α' → κ}
    {R : V → V' → Prop} {C : α → α' → Prop} {A : α × β → α' × β' → Prop}
    (hkey : ∀ {x x'}, C x x' → key x = key' x')
    (hstep : ∀ {v v' x x'}, R v v' → C x x' →
      R (step v x).1 (step' v' x').1 ∧ A (x, (step v x).2) (x', (step' v' x').2))
    {m : κ → V} {m' : κ → V'} (hm : ∀ k, R (m k) (m' k))
    {xs : List α} {xs' : List α'} (hxs : List.Forall₂ C xs xs') :
    (∀ k, R ((serve step key m xs).1 k) ((serve step' key' m' xs').1 k)) ∧
      List.Forall₂ A (serve step key m xs).2 (serve step' key' m' xs').2 := by
  induction hxs generalizing m m' with
  | nil => exact ⟨hm, .nil⟩
  | @cons x x' xs xs' hx _ ih =>
      obtain ⟨hvalue, hanswer⟩ := hstep (hm (key x)) hx
      have hm' : ∀ k,
          R (Function.update m (key x) (step (m (key x)) x).1 k)
            (Function.update m' (key' x') (step' (m' (key x)) x').1 k) := by
        intro k
        rw [← hkey hx]
        by_cases hk : k = key x
        · subst hk
          simpa using hvalue
        · simpa [hk] using hm k
      obtain ⟨hmaps, hlogs⟩ := ih hm'
      rw [hkey hx] at hanswer hmaps hlogs
      exact ⟨by simpa [serve, hkey hx] using hmaps,
        by simpa [serve, hkey hx] using ⟨hanswer, hlogs⟩⟩

end Cberl.Support
