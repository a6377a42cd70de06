import Cberl.Store.Numbers
import Cberl.System.Counting

/-!
# Numbers on a shared bucket

Numbers that some callers store, read and remove while others count them.  An
integer stays an integer for those who read it.
-/

namespace Cberl.Store

open Cberl Cberl.Support

variable [LcbTypes]

/-! ## Integers under one key -/

/-- A get of the key returns an integer. -/
def HoldsInteger (store : RefStore) (key : Bytes) : Prop :=
  ∃ (n : ℤ) (cas : LcbCas), store key = some (.int n, cas)

/-- The entry `{Key, {ok, Cas, N}}`. -/
def IsIntegerEntry (key : Bytes) (entry : Term) : Prop :=
  ∃ cas n : ℤ,
    entry = .tuple [.binary key, .tuple [.atom "ok", .int cas, .int n]]

/-- A request that leaves an integer where there is one. -/
def Single.Integral : Single → Prop
  | store request => ∃ n, request.value = .int n
  | get _ => True
  | remove _ => False

/-- A request whose answer has a number. -/
def Asks : Single ⊕ CounterRequest → Prop
  | .inl (.get _) => True
  | .inl _ => False
  | .inr _ => True

def numberKey : Single ⊕ CounterRequest → Bytes
  | .inl single => single.key
  | .inr request => request.key

variable {key : Bytes} {numbers numbers' : RefNumbers}
  {request : Single ⊕ CounterRequest} {entry : Term}

omit [LcbTypes] in
theorem RefApply.integer {store store' : RefStore} {single : Single}
    (happly : RefApply store single entry store') (hintegral : single.Integral)
    (hholds : HoldsInteger store single.key) :
    HoldsInteger store' single.key ∧
      ((∃ key, single = .get key) → IsIntegerEntry single.key entry) := by
  obtain ⟨fresh, rfl, rfl⟩ := happly
  obtain ⟨n, cas, hvalue⟩ := hholds
  simp only [HoldsInteger, Function.update_self, hvalue]
  cases single with
  | store request =>
      obtain ⟨n', hrequest⟩ := hintegral
      refine ⟨?_, fun ⟨_, hget⟩ => by cases hget⟩
      simp only [Single.answer, refStore]
      split
      · exact ⟨n, cas, rfl⟩
      · exact ⟨n', fresh, by rw [hrequest]⟩
  | get key => exact ⟨⟨n, cas, rfl⟩, fun _ => ⟨_, _, rfl⟩⟩
  | remove request => exact hintegral.elim

omit [LcbTypes] in
theorem json_of_holdsInteger (h : HoldsInteger numbers.values key) :
    ∃ n cas, numbers key = some (⟨n, true⟩, cas) := by
  obtain ⟨z, cas, hvalue⟩ := h
  obtain ⟨⟨⟨n, json⟩, cas⟩, hnumber, hterm⟩ := Option.map_eq_some_iff.mp hvalue
  cases json with
  | true => exact ⟨n, cas, hnumber⟩
  | false => cases hterm

theorem NumberApply.integer (happly : NumberApply numbers request entry numbers')
    (hintegral : ∀ single, request = .inl single → single.Integral)
    (hholds : HoldsInteger numbers.values (numberKey request)) :
    HoldsInteger numbers'.values (numberKey request) ∧
      (Asks request → IsIntegerEntry (numberKey request) entry) := by
  cases request with
  | inl single =>
      obtain ⟨hholds', hget⟩ :=
        RefApply.integer happly (hintegral single rfl) hholds
      refine ⟨hholds', fun hasks => hget ?_⟩
      cases single with
      | get key => exact ⟨key, rfl⟩
      | _ => exact hasks.elim
  | inr request =>
      obtain ⟨fresh, rfl, rfl⟩ := happly
      obtain ⟨n, cas, hnumber⟩ := @json_of_holdsInteger request.key numbers hholds
      refine ⟨⟨(memcachedUpdate n request.delta64).val, fresh, ?_⟩,
        fun _ => ⟨fresh.val, (memcachedUpdate n request.delta64).val, ?_⟩⟩
      · rw [RefNumbers.values, numberKey, Function.update_self, hnumber]
        rfl
      · rw [numberKey, hnumber]
        rfl

theorem NumberApply.other (happly : NumberApply numbers request entry numbers')
    (hkey : numberKey request ≠ key) :
    numbers'.values key = numbers.values key := by
  cases request with
  | inl single =>
      obtain ⟨fresh, hvalues, -⟩ := happly
      have hne : key ≠ single.key := Ne.symm hkey
      rw [hvalues, Function.update_of_ne hne]
  | inr request =>
      obtain ⟨fresh, rfl, -⟩ := happly
      have hne : key ≠ request.key := Ne.symm hkey
      rw [RefNumbers.values, RefNumbers.values, Function.update_of_ne hne]

variable {ν : Type*} {input : ν → Single ⊕ CounterRequest → Prop}
  {order : List (ν × Term)}

theorem responseKey_of_numberApply
    (happly : NumberApply numbers request entry numbers') :
    Api.responseKey entry = some (numberKey request) := by
  cases request with
  | inl single =>
      obtain ⟨fresh, -, rfl⟩ := happly
      rfl
  | inr request =>
      obtain ⟨fresh, -, rfl⟩ := happly
      rfl

/-- When only integers are stored under the key and nothing is removed there,
whoever reads it gets integers. -/
theorem integers_of_legal
    (hlegal : Legal NumberApply input numbers order numbers')
    (honly : ∀ {n single}, input n (.inl single) → single.key = key →
      single.Integral)
    (hholds : HoldsInteger numbers.values key) :
    HoldsInteger numbers'.values key ∧
      ∀ {n entry}, (n, entry) ∈ order → Api.responseKey entry = some key →
        ∃ request, input n request ∧
          (Asks request → IsIntegerEntry key entry) := by
  induction hlegal with
  | nil => exact ⟨hholds, fun hentry => by cases hentry⟩
  | @concat order numbers₁ numbers₂ name request entry _ hinput happly ih =>
      obtain ⟨hholds₁, hentries⟩ := ih
      by_cases hkey : numberKey request = key
      · subst hkey
        have hintegral : ∀ single, request = .inl single → single.Integral := by
          rintro single rfl
          exact honly hinput rfl
        obtain ⟨hholds₂, hasks⟩ := happly.integer hintegral hholds₁
        refine ⟨hholds₂, ?_⟩
        intro n entry' hmem hkey'
        rcases List.mem_append.mp hmem with hold | hnew
        · exact hentries hold hkey'
        · obtain ⟨rfl, rfl⟩ := Prod.mk.inj (List.mem_singleton.mp hnew)
          exact ⟨request, hinput, hasks⟩
      · refine ⟨?_, ?_⟩
        · rw [HoldsInteger, happly.other hkey]
          exact hholds₁
        · intro n entry' hmem hkey'
          rcases List.mem_append.mp hmem with hold | hnew
          · exact hentries hold hkey'
          · obtain ⟨rfl, rfl⟩ := Prod.mk.inj (List.mem_singleton.mp hnew)
            rw [responseKey_of_numberApply happly] at hkey'
            exact absurd (Option.some.inj hkey') hkey

end Cberl.Store

namespace Cberl.System

open Cberl Cberl.Store Cberl.Support

section Runs

variable [LcbTypes] {codec : Codec} {hjson : JsonIntegers codec}
  {numbers : RefNumbers} {trace : List (SharedEvent (numeric hjson))}
  {s : SharedState (numeric hjson)} {key : Bytes}

/-- The key holds an integer, and whoever asks for a number under it gets one. -/
structure IntegersKept (key : Bytes) (trace : List (SharedEvent (numeric hjson)))
    (s : SharedState (numeric hjson)) : Prop where
  item : ∃ n cas, s.bucket key = some (numeralItem (⟨n, true⟩, cas))
  replies : ∀ {ref call body},
    .invoke ref call ∈ trace.filterMap SharedEvent.action →
    .respond ref body ∈ trace.filterMap SharedEvent.action →
    (∀ request ∈ (numeric hjson).singles call, Asks request) →
    ∃ responses, ((numeric hjson).bulk call).reply codec body =
        .ok (Api.okTerm (.list responses)) ∧
      ∀ response ∈ responses, Api.responseKey response = some key →
        IsIntegerEntry key response

end Runs

/-! ## A number that is stored, counted and read -/

/-- The codec that agrees with jiffy on integers that are not negative. -/
def decimals : Codec :=
  { Codec.digits with
    jiffyEncode
      | .int z =>
          if 0 ≤ z ∧ z < 2 ^ 63 then .ok (.binary (decimal z.toNat))
          else if 0 ≤ z then .ok (.list [.binary (decimal z.toNat)])
          else .error .badarg
      | _ => .error .badarg
    jiffyDecode := fun bytes =>
      match readDecimal bytes with
      | some n => .ok (.int n.val)
      | none => .error .badarg }

theorem jsonIntegers_decimals : JsonIntegers decimals where
  encode n hn := if_pos ⟨n.property.1, hn⟩
  decode n := by
    simp only [decimals, readDecimal_decimal]

section Example

variable [LcbTypes]

def storeNumber : Api.StoreRequest :=
  { storeSeven with value := .int 41, encoder := .json }

def carriedNumber : StoreRequest :=
  { carriedSeven with
    value := decimal 41
    flags := Api.encoderFlags .json }

/-- The numbers with `n` as JSON under the key `[1]`. -/
def oneNumber (n : IntType.uint64.Val) : RefNumbers :=
  Function.update (fun _ => none) [1] (some (⟨n, true⟩, sevenCas))

def numberCast (ref : Ref) (sender : Pid) (request : Request) : Cast where
  ref := ref
  sender := sender
  request := request

def numberJob (ref : Ref) (sender : Pid) (operation : Operation) : Job where
  ctx := { reqPid := sender, reqId := (ref, 0, 0) }
  connection := 0
  operation := operation

def storeNumberRequest : Request :=
  .store (.list [.tuple
    [.int (getStoreOperationId .set), .binary [1], .binary (decimal 41),
      .int (Api.encoderFlags .json).val, .int 0, .int 0]])

def getNumberRequest : Request :=
  .get (.list [.tuple [.binary [1], .int 0, .atom "false"]])

def getNumber : Operation :=
  .get [⟨[1], ⟨(0 : ℕ), time_contains_zero⟩, false⟩]

def getNumberLcb : Lcb :=
  { Lcb.silent with
    get := fun _ =>
      { schedule := none
        callbacks := [⟨[1], .ok ⟨sevenCas, Api.encoderFlags .json, decimal 42⟩⟩]
        wait := none } }

def numberBody : Term :=
  getNumber.execute getNumberLcb

/-- Process 0 stores 41 as JSON, process 1 adds 1 and process 2 gets the
integer 42. -/
def numberTrace : List (SharedEvent (numeric jsonIntegers_decimals)) :=
  let countCall := CounterCall.single countUp
  let storeCast := numberCast 1 0 storeNumberRequest
  let countCast := numberCast 2 1 countCall.request
  let getCast := numberCast 3 2 getNumberRequest
  let storeJob := numberJob 1 0 (.store [carriedNumber])
  let countJob := numberJob 2 1 (.arithmetic [countUp.carried])
  let getJob := numberJob 3 2 getNumber
  [.called 0 0 1 (.inl (.store [storeNumber])) storeCast.request,
    .called 1 1 2 (.inr countCall) countCast.request,
    .called 2 2 3 (.inl (.get [[1]])) getCast.request,
    .quiet (.arrived 0 0 storeCast),
    .quiet (.arrived 1 1 countCast),
    .quiet (.arrived 2 2 getCast),
    .quiet (.accepted 0 storeCast storeJob),
    .quiet (.accepted 1 countCast countJob),
    .quiet (.accepted 2 getCast getJob),
    .started 0 1 storeJob,
    .started 1 2 countJob,
    .started 2 3 getJob,
    .served 1 0 (.tuple [.binary [1], casTerm sevenCas]),
    .served 2 0 (countEntry 42),
    .served 3 0 (countEntry 42),
    .executed 2 3 getJob numberBody,
    .quiet (.responded 2 3 getJob numberBody),
    .quiet (.delivered 2 (.accepted 3 (3, 0, 0))),
    .quiet (.delivered 2 (.response (3, 0, 0) numberBody 3)),
    .quiet (.resumed 2 3 (3, 0, 0)),
    .quiet (.returned 2 3 (3, 0, 0) 3 numberBody)]

end Example

theorem execute_store [LcbTypes] :
    (numeric jsonIntegers_decimals).execute sevenCas
        (oneNumber ⟨40, by decide⟩).items
        (.inl (.store (StoreCmd.ofRequest carriedNumber))) =
      (oneNumber ⟨41, by decide⟩).items := by
  rw [oneNumber, oneNumber, items_update, items_update]
  exact Function.update_idem _ _ _

theorem execute_count [LcbTypes] :
    (numeric jsonIntegers_decimals).execute sevenCas
        (oneNumber ⟨41, by decide⟩).items
        (.inr (ArithmeticCmd.ofRequest countUp.carried)) =
      (oneNumber ⟨42, by decide⟩).items := by
  have hact := act_counter (oneNumber ⟨41, by decide⟩ [1]) countUp sevenCas
  have hupdate := congrArg
    (Function.update (oneNumber ⟨41, by decide⟩).items [1]) hact
  refine Eq.trans hupdate ?_
  rw [← items_update, oneNumber, oneNumber, Function.update_idem]
  rfl

theorem callback_count [LcbTypes] {n n' : IntType.uint64.Val}
    (hn : memcachedUpdate n countUp.delta64 = n') :
    (numeric jsonIntegers_decimals).callback sevenCas ((oneNumber n).items [1])
        (.inr (ArithmeticCmd.ofRequest countUp.carried)) =
      ⟨[1], .ok (counterTerm sevenCas n')⟩ := by
  have hread : CounterRules.memcached.read
      (numeralItem (⟨n, true⟩, sevenCas)).bytes = some n :=
    CounterRules.memcached.read_write n
  have hact : (actArithmetic .memcached sevenCas
      (some (numeralItem (⟨n, true⟩, sevenCas)))
      (ArithmeticCmd.ofRequest countUp.carried)).2 =
        .ok (counterTerm sevenCas n') := by
    simp only [actArithmetic, arithmeticStep, hread]
    subst hn
    rfl
  exact congrArg (Callback.mk [1]) hact

theorem execute_get [LcbTypes] (numbers : RefNumbers) (command : GetCmd) :
    (numeric jsonIntegers_decimals).execute sevenCas numbers.items
      (.inl (.get command)) = numbers.items := by
  have hget : ∀ item : Option Item, (getStep item command).1 = item := by
    intro item
    cases item <;> rfl
  have hupdate := congrArg (Function.update numbers.items command.key)
    (hget (numbers.items command.key))
  exact Eq.trans hupdate (Function.update_eq_self _ _)

theorem entry_get [LcbTypes] (command : GetCmd) (n : IntType.uint64.Val) :
    (numeric jsonIntegers_decimals).entry (.inl (.get command))
        ⟨[1], .ok (GetPayload.toTerm
          ⟨sevenCas, Api.encoderFlags .json, decimal n.val.toNat⟩)⟩ =
      countEntry n.val := by
  have hdecode : decimals.decode (.int 1) (.binary (decimal n.val.toNat)) =
      .ok (.int n.val) := jsonIntegers_decimals.decode n
  have hresponse : Api.decodeResponse decimals
      (.tuple [.binary [1], .tuple [.atom "ok", .int 7, .int 1,
        .binary (decimal n.val.toNat)]]) = .ok (countEntry n.val) := by
    rw [Api.decodeResponse, hdecode]
    rfl
  rw [CallKind.entry]
  split
  next heq => exact Except.ok.inj (heq.symm.trans hresponse)
  next heq => cases heq.symm.trans hresponse

theorem numberRun :
    let _ : LcbTypes := ⟨.uint32⟩
    ∃ s, Run (sharedMachine (numeric jsonIntegers_decimals)
      (oneNumber ⟨40, by decide⟩).items) numberTrace s := by
  intro _
  have hplain : (numeric jsonIntegers_decimals).Plain
      (.inl (.store [storeNumber])) := by
    have hstorable : Storable decimals .json (.int 41) :=
      ⟨decimal 41, rfl, jsonIntegers_decimals.decode ⟨41, by decide⟩⟩
    constructor
    · exact List.forall_mem_singleton.mpr
        ⟨by decide, hstorable, by decide, by decide⟩
    · exact List.forall_mem_singleton.mpr
        ⟨⟨⟨41, by decide⟩, true⟩, fun _ => by decide, rfl, rfl⟩
  have h₀ : Run (sharedMachine (numeric jsonIntegers_decimals)
      (oneNumber ⟨40, by decide⟩).items) []
      { base := quietState, bucket := (oneNumber ⟨40, by decide⟩).items
        pending := [], answered := [] } :=
    .start ⟨initial_quietState, rfl, rfl, rfl⟩
  have h₁ : Run _ (numberTrace.take 1) _ :=
    h₀.step (.called hplain rfl (.called rfl))
  have h₂ : Run _ (numberTrace.take 2) _ :=
    h₁.step (.called trivial rfl (.called rfl))
  have h₃ : Run _ (numberTrace.take 3) _ :=
    h₂.step (.called ⟨trivial, by simp [Call.singles, Single.Numeric]⟩ rfl
      (.called rfl))
  have h₄ : Run _ (numberTrace.take 4) _ :=
    h₃.step (.quiet trivial (.arrived rfl rfl))
  have h₅ : Run _ (numberTrace.take 5) _ :=
    h₄.step (.quiet trivial (.arrived rfl rfl))
  have h₆ : Run _ (numberTrace.take 6) _ :=
    h₅.step (.quiet trivial (.arrived rfl rfl))
  have h₇ : Run _ (numberTrace.take 7) _ :=
    h₆.step (.quiet trivial (.accepted rfl rfl rfl))
  have h₈ : Run _ (numberTrace.take 8) _ :=
    h₇.step (.quiet trivial (.accepted rfl rfl rfl))
  have h₉ : Run _ (numberTrace.take 9) _ :=
    h₈.step (.quiet trivial (.accepted rfl rfl rfl))
  have h₁₀ : Run _ (numberTrace.take 10) _ :=
    h₉.step (.started (.started rfl rfl))
  have h₁₁ : Run _ (numberTrace.take 11) _ :=
    h₁₀.step (.started (.started rfl rfl))
  have h₁₂ : Run _ (numberTrace.take 12) _ :=
    h₁₁.step (.started (.started rfl rfl))
  have h₁₃ : Run _ (numberTrace.take 13) _ :=
    h₁₂.step (@served_to _ _ _ _ _ _ [] _ _ _ _ sevenCas rfl (by simp)
      execute_store rfl rfl)
  have h₁₄ : Run _ (numberTrace.take 14) _ :=
    h₁₃.step (@served_to _ _ _ _ _ _ [] _ _ _ _ sevenCas rfl (by simp)
      execute_count (callback_count rfl) rfl)
  have h₁₅ : Run _ (numberTrace.take 15) _ :=
    h₁₄.step (@served_to _ _ _ _ _ _ [] _ _ _ _ sevenCas rfl (by simp)
      (execute_get _ _) rfl (entry_get _ ⟨42, by decide⟩))
  have h₁₆ : Run _ (numberTrace.take 16) _ :=
    h₁₅.step (.executed getNumberLcb (.executed getNumberLcb rfl)
      (reports_of_callbacks rfl rfl rfl))
  have h₁₇ : Run _ (numberTrace.take 17) _ :=
    h₁₆.step (.quiet trivial (.responded rfl))
  have h₁₈ : Run _ (numberTrace.take 18) _ :=
    h₁₇.step (.quiet trivial (@Step.delivered _ _ _ _ [_, _] [_] rfl))
  have h₁₉ : Run _ (numberTrace.take 19) _ :=
    h₁₈.step (.quiet trivial (@Step.delivered _ _ _ _ [_, _] [] rfl))
  have h₂₀ : Run _ (numberTrace.take 20) _ :=
    h₁₉.step (.quiet trivial (.resumed rfl rfl))
  exact ⟨_, h₂₀.step (.quiet trivial (.returned rfl rfl))⟩

theorem numberTrace_refsUnique :
    let _ : LcbTypes := ⟨.uint32⟩
    RefsUnique (events numberTrace) := by
  intro _
  have hcalled : (events numberTrace).filterMap calledRef = [1, 2, 3] := rfl
  rw [RefsUnique, hcalled]
  decide

theorem numberTrace_idsDistinct :
    let _ : LcbTypes := ⟨.uint32⟩
    IdsDistinct (events numberTrace) := by
  intro _
  have hissued : (events numberTrace).filterMap issuedId =
      [(1, 0, 0), (2, 0, 0), (3, 0, 0)] := rfl
  apply idsDistinct_of_nodup
  rw [hissued]
  decide

end Cberl.System
