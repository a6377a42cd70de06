import Cberl.Erlang.Term
import Cberl.Support.Traverse
import Mathlib.Algebra.Group.Int.Defs
import Mathlib.Tactic.Common

/-!
# Conversion of terms to C++ values

The `get` overloads of `nifpp.h` that the request tuples use.  A tuple type of
the source is a list of field types here, so that the recursive template
`array_to_tupler` is one definition by recursion on that list.
-/

namespace Cberl

open Cberl.Support

/-! ## Integers -/

/-- The C integer types of the request tuples. -/
inductive IntType where
  | int32
  | uint32
  | int64
  | uint64

namespace IntType

def least : IntType → ℤ
  | int32 => -2 ^ 31
  | uint32 => 0
  | int64 => -2 ^ 63
  | uint64 => 0

def greatest : IntType → ℤ
  | int32 => 2 ^ 31 - 1
  | uint32 => 2 ^ 32 - 1
  | int64 => 2 ^ 63 - 1
  | uint64 => 2 ^ 64 - 1

/-- The range test of `enif_get_int`, `enif_get_uint`, `enif_get_long` and
`enif_get_ulong`. -/
abbrev Contains (w : IntType) (z : ℤ) : Prop :=
  w.least ≤ z ∧ z ≤ w.greatest

/-- A value of the C type. -/
abbrev Val (w : IntType) := {z : ℤ // w.Contains z}

theorem contains_zero (w : IntType) : w.Contains 0 := by
  cases w <;> decide

theorem contains_least (w : IntType) : w.Contains w.least := by
  cases w <;> decide

theorem contains_greatest (w : IntType) : w.Contains w.greatest := by
  cases w <;> decide

end IntType

def getInteger (w : IntType) : Term → Option w.Val
  | .int z => if h : w.Contains z then some ⟨z, h⟩ else none
  | _ => none

theorem getInteger_eq_some_iff {w : IntType} {t : Term} {v : w.Val} :
    getInteger w t = some v ↔ t = .int v.val := by
  constructor
  · intro h
    cases t with
    | int z =>
        simp only [getInteger, Option.dite_none_right_eq_some] at h
        obtain ⟨_, hv⟩ := h
        rw [← Option.some.inj hv]
    | _ => cases h
  · rintro rfl
    simp [getInteger, v.property]

/-! ## Strings -/

/-- The byte of one element of a Latin-1 string. -/
def latin1Code : Term → Option UInt8
  | .int z => if 0 ≤ z ∧ z ≤ 255 then some (UInt8.ofNat z.toNat) else none
  | _ => none

def codeTerm (byte : UInt8) : Term :=
  .int byte.toNat

theorem latin1Code_eq_some_iff {t : Term} {byte : UInt8} :
    latin1Code t = some byte ↔ t = codeTerm byte := by
  constructor
  · intro h
    cases t with
    | int z =>
        simp only [latin1Code, Option.ite_none_right_eq_some] at h
        obtain ⟨⟨hlow, hhigh⟩, hbyte⟩ := h
        obtain rfl := Option.some.inj hbyte
        have hnat : z.toNat % 2 ^ 8 = z.toNat := by omega
        simp only [codeTerm, UInt8.toNat_ofNat', hnat]
        congr 1
        omega
    | _ => cases h
  · rintro rfl
    have hbound := byte.toNat_lt
    have hrange : (0 : ℤ) ≤ byte.toNat ∧ (byte.toNat : ℤ) ≤ 255 := by omega
    simp [latin1Code, codeTerm, hrange]

/-- `nifpp::get(std::string)`: any proper list is read by `enif_get_string`,
and only a term that is no list is tried as a binary. -/
def getString (t : Term) : Option Bytes :=
  match t.asList with
  | some elements => elements.mapM latin1Code
  | none =>
      match t with
      | .binary bytes => some bytes
      | _ => none

theorem getString_eq_some_iff {t : Term} {bytes : Bytes} :
    getString t = some bytes ↔
      t = .binary bytes ∨ t = .list (bytes.map codeTerm) := by
  have hcodes : ∀ elements : List Term,
      elements.mapM latin1Code = some bytes ↔
        elements = bytes.map codeTerm := by
    intro elements
    rw [mapM_option_eq_some_iff fun _ _ => latin1Code_eq_some_iff,
      forall₂_map_eq_iff]
  unfold getString
  cases hlist : t.asList with
  | some elements =>
      rw [Term.asList_eq_some_iff] at hlist
      subst hlist
      have hbinary : Term.list elements ≠ .binary bytes := by
        cases elements <;> simp [Term.list]
      simp [hcodes, hbinary]
  | none =>
      have hno : t ≠ .list (bytes.map codeTerm) := by
        rintro rfl
        simp at hlist
      rw [or_iff_left hno]
      cases t <;> simp

/-! ## Booleans -/

/-- `enif_get_atom` with Latin-1 encoding: the characters of the atom and a
terminating null, provided they fit into a buffer of the given size. -/
def enifGetAtom (size : ℕ) : Term → Option (List Char)
  | .atom name =>
      if name.toList.all (·.toNat ≤ 255) ∧ name.toList.length < size
      then some (name.toList ++ ['\x00'])
      else none
  | _ => none

/-- What `strcmp` reads of a buffer. -/
def cString (buf : List Char) : List Char :=
  buf.takeWhile (· ≠ '\x00')

def getBool (t : Term) : Option Bool :=
  match enifGetAtom 6 t with
  | none => none
  | some buf =>
      if cString buf = "true".toList then some true
      else if cString buf = "false".toList then some false
      else none

/-- A name one character longer than the word `strcmp` finds in it hides a
null behind that word. -/
theorem eq_or_eq_null_of_cString {name word : List Char}
    (hlength : name.length ≤ word.length + 1)
    (h : cString (name ++ ['\x00']) = word) :
    name = word ∨ name = word ++ ['\x00'] := by
  have htake : name.takeWhile (· ≠ '\x00') = word := by
    rw [← h, cString, List.takeWhile_append]
    split
    next hfull =>
      have hprefix := List.takeWhile_prefix (l := name) (· ≠ '\x00')
      simpa using hprefix.eq_of_length hfull
    next => rfl
  have hsplit := List.takeWhile_append_dropWhile (p := (· ≠ '\x00')) (l := name)
  rw [htake] at hsplit
  cases hdrop : name.dropWhile (· ≠ '\x00') with
  | nil =>
      left
      rw [← hsplit, hdrop, List.append_nil]
  | cons c rest =>
      right
      have hc : c = '\x00' := by
        have hhead := List.head?_dropWhile_not (· ≠ '\x00') name
        rw [hdrop] at hhead
        simpa using hhead
      have hrest : rest = [] := by
        rw [← hsplit, hdrop] at hlength
        simpa using hlength
      rw [← hsplit, hdrop, hc, hrest]

def boolAtom (b : Bool) : Term :=
  .atom (if b then "true" else "false")

/-- `nifpp::get(bool)` reads the two booleans, and one atom besides. -/
theorem getBool_eq_some_iff {t : Term} {b : Bool} :
    getBool t = some b ↔
      t = boolAtom b ∨ (t = .atom "true\x00" ∧ b = true) := by
  constructor
  · intro h
    cases t with
    | atom name =>
        simp only [getBool, enifGetAtom] at h
        split at h
        next => cases h
        next buf hbuf =>
          rw [Option.ite_none_right_eq_some] at hbuf
          obtain ⟨⟨-, hshort⟩, hname⟩ := hbuf
          obtain rfl := Option.some.inj hname
          split at h
          next htrue =>
            obtain rfl := Option.some.inj h
            have hlength :
                name.toList.length ≤ "true".toList.length + 1 := by
              change _ ≤ 5
              omega
            rcases eq_or_eq_null_of_cString hlength htrue with hword | hword
            · exact Or.inl (by rw [boolAtom, String.toList_inj.mp hword]; rfl)
            · have hname : name = "true\x00" := by
                rw [← String.toList_inj, hword]
                decide
              exact Or.inr ⟨by rw [hname], rfl⟩
          next =>
            simp only [Option.ite_none_right_eq_some] at h
            obtain ⟨hfalse, hb⟩ := h
            obtain rfl := Option.some.inj hb
            have hlength :
                name.toList.length ≤ "false".toList.length := by
              change _ ≤ 5
              omega
            rcases eq_or_eq_null_of_cString (by omega) hfalse with
              hword | hword
            · exact Or.inl (by rw [boolAtom, String.toList_inj.mp hword]; rfl)
            · rw [hword, List.length_append, List.length_singleton] at hlength
              omega
    | _ => cases h
  · rintro (rfl | ⟨rfl, rfl⟩)
    · cases b <;> decide
    · decide

/-! ## Tuples and vectors -/

/-- The field types that occur in a `Raw` tuple. -/
inductive FieldType where
  | integer (w : IntType)
  | string
  | bool

@[reducible] def FieldType.Val : FieldType → Type
  | integer w => w.Val
  | string => Bytes
  | bool => Bool

def FieldType.get : (field : FieldType) → Term → Option field.Val
  | integer w, t => getInteger w t
  | string, t => getString t
  | bool, t => getBool t

/-- `std::tuple<Ts...>` for the given field types. -/
@[reducible] def RawTuple : List FieldType → Type
  | [] => Unit
  | field :: fields => field.Val × RawTuple fields

/-- `array_to_tupler`: convert the elements from the first to the last and
stop at the first one that does not convert. -/
def arrayToTupler : (fields : List FieldType) → List Term →
    Option (RawTuple fields)
  | [], _ => some ()
  | _ :: _, [] => none
  | field :: fields, t :: ts =>
      match field.get t with
      | none => none
      | some v =>
          match arrayToTupler fields ts with
          | none => none
          | some row => some (v, row)

def getTuple (fields : List FieldType) : Term → Option (RawTuple fields)
  | .tuple elements =>
      if elements.length = fields.length then arrayToTupler fields elements
      else none
  | _ => none

/-- `nifpp::get(std::vector)` with the loop of `list_for_each`. -/
def getVector (fields : List FieldType) (t : Term) :
    Option (List (RawTuple fields)) :=
  match t.asList with
  | some elements => elements.mapM (getTuple fields)
  | none => none

end Cberl
