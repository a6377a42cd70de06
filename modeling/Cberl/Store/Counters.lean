import Cberl.Api.Conversion
import Cberl.Store.Bucket
import Cberl.Support.Decimal

/-!
# Counters

One arithmetic command on the bucket against one request on a reference map of
counters.  How the server writes a counter and how it updates one by a delta
are not part of the repository.
-/

namespace Cberl.Store

open Cberl Cberl.Support

/-! ## The counters of the server -/

/-- The text of a counter, and the 64-bit update by a signed delta. -/
structure CounterRules where
  write : IntType.uint64.Val → Bytes
  read : Bytes → Option IntType.uint64.Val
  read_write : ∀ n, read (write n) = some n
  update : IntType.uint64.Val → IntType.int64.Val → IntType.uint64.Val

/-- An increment wraps around at `2 ^ 64`, and a decrement stops
at zero. -/
def memcachedUpdate (n : IntType.uint64.Val) (delta : IntType.int64.Val) :
    IntType.uint64.Val :=
  if h : 0 ≤ delta.val then
    ⟨(n.val + delta.val) % 2 ^ 64, by
      constructor
      · exact Int.emod_nonneg _ (by decide)
      · exact Int.le_sub_one_of_lt (Int.emod_lt_of_pos _ (by decide))⟩
  else
    ⟨max 0 (n.val + delta.val), by
      have hn := n.property
      simp only [IntType.Contains, IntType.least, IntType.greatest] at hn ⊢
      omega⟩

/-- The number that decimal text stands for, if it fits. -/
def readDecimal (bytes : Bytes) : Option IntType.uint64.Val :=
  if IsDecimal bytes then
    if h : IntType.uint64.Contains (ofDecimal bytes) then
      some ⟨ofDecimal bytes, h⟩
    else none
  else none

theorem readDecimal_decimal (n : IntType.uint64.Val) :
    readDecimal (decimal n.val.toNat) = some n := by
  have hn : ((n.val.toNat : ℕ) : ℤ) = n.val :=
    Int.toNat_of_nonneg n.property.1
  rw [readDecimal, if_pos (isDecimal_decimal _), ofDecimal_decimal,
    dif_pos (by rw [hn]; exact n.property)]
  exact congrArg some (Subtype.ext hn)

/-- Counters as decimal text. -/
def CounterRules.memcached : CounterRules where
  write n := decimal n.val.toNat
  read := readDecimal
  read_write := readDecimal_decimal
  update := memcachedUpdate

/-! ## Counters in a bucket -/

/-- The item holds the counter. -/
def CountsAt (rules : CounterRules) (item : Option Item)
    (counter : Option IntType.uint64.Val) : Prop :=
  match item, counter with
  | none, none => True
  | some item, some n => rules.read item.bytes = some n
  | _, _ => False

abbrev RefCounters := Bytes → Option IntType.uint64.Val

variable [LcbTypes]

/-- An arithmetic command together with the CAS that the server will give. -/
def arithmeticStep (rules : CounterRules) (item : Option Item)
    (entry : ArithmeticCmd × LcbCas) :
    Option Item × Except LcbError ArithmeticPayload :=
  match item with
  | none =>
      if entry.1.create then
        (some { bytes := rules.write entry.1.initial
                flags := ⟨0, IntType.contains_zero _⟩
                cas := entry.2 },
          .ok { cas := entry.2, value := entry.1.initial })
      else (none, .error .keyEnoent)
  | some item =>
      match rules.read item.bytes with
      | some n =>
          let n' := rules.update n entry.1.delta
          (some { item with bytes := rules.write n', cas := entry.2 },
            .ok { cas := entry.2, value := n' })
      | none => (some item, .error .deltaBadval)

/-! ## The reference counters -/

/-- An arithmetic request with its integers in the ranges of the NIF. -/
structure CounterRequest extends Api.ArithmeticRequest where
  delta_contains : IntType.int64.Contains delta
  default_contains : ∀ n ∈ default, IntType.uint64.Contains n
  expiry_contains : LcbTypes.time.Contains expiry

namespace CounterRequest

variable (request : CounterRequest)

def delta64 : IntType.int64.Val :=
  ⟨request.delta, request.delta_contains⟩

def default64 : Option IntType.uint64.Val :=
  request.default.pmap (fun (n : ℕ) h => ⟨(n : ℤ), h⟩) request.default_contains

/-- The request object of the NIF. -/
def carried : ArithmeticRequest :=
  { key := request.key
    delta := request.delta64
    create := request.default64.isSome
    initial := request.default64.getD ⟨0, IntType.contains_zero _⟩
    expiry := ⟨request.expiry, request.expiry_contains⟩ }

end CounterRequest

/-- `{ok, Cas, N}` -/
def counterTerm (cas : LcbCas) (n : IntType.uint64.Val) : Term :=
  .tuple [.atom "ok", .int cas.val, .int n.val]

/-- The counter after a request and its answer. -/
def refArithmetic (rules : CounterRules) (counter : Option IntType.uint64.Val)
    (entry : CounterRequest × LcbCas) : Option IntType.uint64.Val × Term :=
  match counter, entry.1.default64 with
  | none, none => (none, LcbError.keyEnoent.toTerm)
  | none, some initial => (some initial, counterTerm entry.2 initial)
  | some n, _ =>
      let n' := rules.update n entry.1.delta64
      (some n', counterTerm entry.2 n')

/-! ## One request -/

theorem getTuple_counterRequest (request : CounterRequest) :
    ∃ row, getTuple ArithmeticRequest.Raw
        request.toArithmeticRequest.toTerm = some row ∧
      ArithmeticRequest.ofRaw row = request.carried := by
  obtain ⟨⟨key, delta, default, expiry⟩, hdelta, hdefault, hexpiry⟩ := request
  have hinitial : IntType.uint64.Contains (default.getD 0 : ℕ) := by
    cases default with
    | none => exact IntType.contains_zero _
    | some n => exact hdefault n rfl
  rw [Api.getTuple_arithmeticRequest, dif_pos ⟨hdelta, hinitial, hexpiry⟩]
  refine ⟨_, rfl, ?_⟩
  cases default <;> rfl

theorem arithmeticStep_simulates {rules : CounterRules} {item : Option Item}
    {counter : Option IntType.uint64.Val} (hitem : CountsAt rules item counter)
    (request : CounterRequest) (fresh : LcbCas) :
    CountsAt rules
        (arithmeticStep rules item
          (ArithmeticCmd.ofRequest request.carried, fresh)).1
        (refArithmetic rules counter (request, fresh)).1 ∧
      Callback.toTerm
        { key := request.key
          result := (arithmeticStep rules item
            (ArithmeticCmd.ofRequest request.carried, fresh)).2.map
              ArithmeticPayload.toTerm } =
        .tuple [.binary request.key,
          (refArithmetic rules counter (request, fresh)).2] := by
  cases item with
  | none =>
      cases counter with
      | some n => exact hitem.elim
      | none =>
          cases hdefault : request.default64 with
          | none =>
              simp only [arithmeticStep, refArithmetic, ArithmeticCmd.ofRequest,
                CounterRequest.carried, hdefault, Option.isSome_none]
              exact ⟨trivial, rfl⟩
          | some initial =>
              simp only [arithmeticStep, refArithmetic, ArithmeticCmd.ofRequest,
                CounterRequest.carried, hdefault, Option.isSome_some]
              exact ⟨rules.read_write initial, rfl⟩
  | some item =>
      cases counter with
      | none => exact hitem.elim
      | some n =>
          have hread : rules.read item.bytes = some n := hitem
          simp only [arithmeticStep, refArithmetic, hread]
          exact ⟨rules.read_write _, rfl⟩

end Cberl.Store
