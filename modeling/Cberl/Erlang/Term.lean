import Mathlib.Data.List.Basic
import Mathlib.Data.Int.Notation

/-!
# Erlang terms

The terms that cross the boundary between `cberl.erl` and the NIF library,
and the ways in which an Erlang function can fail to return.
-/

namespace Cberl

abbrev Bytes := List UInt8

/-- An Erlang term.  `other` stands for the terms that no conversion of a
request looks into: floats, funs, maps, ports, pids, references, resources and
bitstrings that are not a whole number of bytes. -/
inductive Term where
  | int (value : ℤ)
  | atom (name : String)
  | binary (bytes : Bytes)
  | nil
  | cons (head tail : Term)
  | tuple (elements : List Term)
  | other (tag : ℕ)

/-- The ways an Erlang call can end without a value. -/
inductive Raise where
  | badarg
  | undef
  | functionClause
  | caseClause
  | badmatch
  | error (reason : Term)

namespace Term

/-- The proper list with the given elements. -/
def list : List Term → Term
  | [] => nil
  | head :: tail => cons head (list tail)

/-- The elements of a proper list, as `enif_get_list_length` followed by a
walk over the list cells sees them.  Improper lists have none. -/
def asList : Term → Option (List Term)
  | nil => some []
  | cons head tail => (asList tail).map (head :: ·)
  | _ => none

@[simp] theorem asList_list (elements : List Term) :
    asList (list elements) = some elements := by
  induction elements with
  | nil => rfl
  | cons head tail ih => simp [list, asList, ih]

theorem asList_eq_some_iff {t : Term} {elements : List Term} :
    asList t = some elements ↔ t = list elements := by
  constructor
  · intro h
    fun_induction asList t generalizing elements with
    | case1 =>
        cases h
        rfl
    | case2 head tail ih =>
        rw [Option.map_eq_some_iff] at h
        obtain ⟨rest, hrest, rfl⟩ := h
        rw [list, ih hrest]
    | case3 => cases h
  · rintro rfl
    exact asList_list elements

theorem list_injective : Function.Injective list := by
  intro xs ys h
  have hxs := asList_list xs
  rw [h, asList_list] at hxs
  exact (Option.some.inj hxs).symm

@[simp] theorem list_inj {xs ys : List Term} : list xs = list ys ↔ xs = ys :=
  list_injective.eq_iff

end Term

end Cberl
