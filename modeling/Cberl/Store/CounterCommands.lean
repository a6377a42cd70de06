import Cberl.Store.CounterSessions
import Cberl.Store.Service
import Cberl.Support.Observation

/-!
# Counter commands one by one

Each command of an arithmetic operation acts on the counter at its own key as
its request acts on the reference counter.
-/

namespace Cberl.Store

open Cberl Cberl.Support

variable [LcbTypes]

/-! ## The reference counters -/

/-- One request on the reference counters, and its entry in the reply. -/
def CountApply (rules : CounterRules) (counters : RefCounters)
    (request : CounterRequest) (entry : Term) (counters' : RefCounters) : Prop :=
  ∃ fresh,
    counters' = Function.update counters request.key
      (refArithmetic rules (counters request.key) (request, fresh)).1 ∧
    entry = .tuple [.binary request.key,
      (refArithmetic rules (counters request.key) (request, fresh)).2]

/-! ## Commands -/

/-- The commands of an arithmetic operation. -/
def arithmeticCommandsOf : Operation → List ArithmeticCmd
  | .arithmetic requests => requests.map ArithmeticCmd.ofRequest
  | _ => []

/-- The command on the item at its key: the item it leaves and the result its
callback reports. -/
def actArithmetic (rules : CounterRules) (fresh : LcbCas) (item : Option Item)
    (command : ArithmeticCmd) : Option Item × Except LcbError Term :=
  ((arithmeticStep rules item (command, fresh)).1,
    (arithmeticStep rules item (command, fresh)).2.map ArithmeticPayload.toTerm)

/-- A command on the bucket is its request on the reference counters. -/
theorem countApply_of_counts {rules : CounterRules} {bucket : Bucket}
    {counters : RefCounters}
    (hcounts : ∀ key, CountsAt rules (bucket key) (counters key))
    (request : CounterRequest) (fresh : LcbCas) :
    ∃ counters' entry,
      Callback.toTerm
          { key := request.key
            result := (actArithmetic rules fresh (bucket request.key)
              (ArithmeticCmd.ofRequest request.carried)).2 } = entry ∧
        CountApply rules counters request entry counters' ∧
        ∀ key, CountsAt rules
          (Function.update bucket request.key
            (actArithmetic rules fresh (bucket request.key)
              (ArithmeticCmd.ofRequest request.carried)).1 key)
          (counters' key) := by
  obtain ⟨hitem, hentry⟩ :=
    arithmeticStep_simulates (hcounts request.key) request fresh
  refine ⟨_, _, hentry, ⟨fresh, rfl, rfl⟩, ?_⟩
  intro key
  by_cases hkey : key = request.key
  · subst hkey
    rw [Function.update_self, Function.update_self]
    exact hitem
  · simpa [hkey] using hcounts key

/-- The commands of a call's operation are its requests, one by one. -/
theorem arithmeticCommandsOf_carried (requests : List CounterRequest) :
    List.Forall₂
      (fun command request => command = ArithmeticCmd.ofRequest request.carried)
      (arithmeticCommandsOf (.arithmetic (requests.map CounterRequest.carried)))
      requests := by
  simp only [arithmeticCommandsOf, List.map_map, List.forall₂_map_left_iff,
    List.forall₂_same, Function.comp_apply, implies_true]

/-! ## The service -/

/-- Calls of `arithmetic/6` and `bulk_arithmetic/3`, explained by the reference
counters. -/
@[reducible]
def counting (rules : CounterRules) (codec : Codec) : Service where
  codec := codec
  Call := CounterCall
  Single := CounterRequest
  Command := ArithmeticCmd
  bulk := CounterCall.bulkCall
  Plain := fun _ => True
  singles := CounterCall.requests
  commandsOf := arithmeticCommandsOf
  key := ArithmeticCmd.key
  act := actArithmetic rules
  response := fun _ callback => .ok callback.toTerm
  Carries := fun command request =>
    command = ArithmeticCmd.ofRequest request.carried
  RefState := RefCounters
  Represents := fun bucket counters =>
    ∀ key, CountsAt rules (bucket key) (counters key)
  Apply := CountApply rules
  carried := by
    intro call _
    refine ⟨call.request, _, call.bulkCall_request codec,
      call.request_operation, ?_⟩
    exact {
      commands := arithmeticCommandsOf_carried call.requests
      entry := fun _ _ _ => rfl
      outcome := fun _ => ⟨_, rfl⟩ }
  refApply := by
    intro command request hcarried bucket counters hcounts fresh
    subst hcarried
    obtain ⟨counters', entry, hentry, happly, hcounts'⟩ :=
      countApply_of_counts hcounts request fresh
    exact ⟨counters', entry, congrArg Except.ok hentry, happly, hcounts'⟩

/-! ## What a call returns -/

namespace CounterCall

/-- What the function makes of the result of `call/3`. -/
def returned (call : CounterCall) (body : Term) : Except Raise Term :=
  match call with
  | single request => Api.single .okCasValue request.key body
  | bulk _ => .ok body

theorem run_returned (call : CounterCall) (answer : Request → Term) :
    ((call.run answer).run.run []).1 = call.returned (answer call.request) := by
  have hbulk := @Api.BulkCall.run_eq call.bulkCall Codec.digits answer []
  rw [call.bulkCall_request] at hbulk
  cases call with
  | single request =>
      rw [run_single request Codec.digits, hbulk]
      rfl
  | bulk requests => exact congrArg Prod.fst hbulk

end CounterCall

/-- The number in an entry `{Key, {ok, Cas, N}}` for the key. -/
def numberAt (key : Bytes) : Term → Option ℤ
  | .tuple [.binary key', .tuple [.atom "ok", .int _, .int n]] =>
      if key' = key then some n else none
  | _ => none

/-- The numbers in the result of a call, for one key. -/
def CounterCall.numbers (key : Bytes) (call : CounterCall) (result : Term) :
    List ℤ :=
  match call, result with
  | single request, result =>
      (numberAt key (.tuple [.binary request.key, result])).toList
  | bulk _, .tuple [.atom "ok", responses] =>
      (responses.asList.getD []).filterMap (numberAt key)
  | bulk _, _ => []

omit [LcbTypes] in
theorem numberAt_eq_none {key : Bytes} {entry : Term}
    (h : Api.responseKey entry ≠ some key) : numberAt key entry = none := by
  unfold numberAt
  split
  next key' cas n =>
    have hkey : key' ≠ key := fun heq => h (heq ▸ rfl)
    rw [if_neg hkey]
  next => rfl

omit [LcbTypes] in
/-- The numbers for one key do not depend on the order of the keys. -/
theorem numberAt_congr {responses entries : List Term}
    (h : KeyEquiv Api.responseKey responses entries) (key : Bytes) :
    responses.filterMap (numberAt key) = entries.filterMap (numberAt key) := by
  have hfilter : ∀ entries : List Term,
      entries.filterMap (numberAt key) =
        (entries.filter fun entry => Api.responseKey entry = some key).filterMap
          (numberAt key) := by
    intro entries
    rw [List.filterMap_filter]
    apply List.filterMap_congr
    intro entry _
    by_cases hkey : Api.responseKey entry = some key
    · simp [hkey]
    · simp [hkey, numberAt_eq_none hkey]
  rw [hfilter, h, ← hfilter]

/-- The caller gets the numbers of the entries of its requests. -/
theorem CounterCall.numbers_eq {call : CounterCall} {codec : Codec}
    {key : Bytes} {body result : Term} {entries : List Term}
    (hreturned : call.returned body = .ok result)
    (hanswers : Answers (call.bulkCall.reply codec body) entries)
    (hentries : List.Forall₂ (fun entry request => ∃ answer,
      entry = .tuple [.binary request.key, answer] ∧
        Api.ResultShape.okCasValue.accepts answer = true)
      entries call.requests) :
    call.numbers key result = entries.filterMap (numberAt key) := by
  cases call with
  | single request =>
      obtain ⟨entry, rest, ⟨answer, rfl, haccepts⟩, hrest, rfl⟩ :=
        List.forall₂_cons_right_iff.mp hentries
      obtain rfl := List.forall₂_nil_right_iff.mp hrest
      have hsingle := single_of_answers hanswers haccepts
      have hresult : answer = result :=
        Except.ok.inj (hsingle.symm.trans hreturned)
      subst hresult
      rw [filterMap_singleton, numbers]
  | bulk requests =>
      obtain rfl := Except.ok.inj hreturned
      obtain ⟨responses, hbody, hkeys⟩ := hanswers
      obtain rfl : body = Api.okTerm (.list responses) := Except.ok.inj hbody
      rw [← numberAt_congr hkeys key]
      simp [numbers, Api.okTerm]

end Cberl.Store
