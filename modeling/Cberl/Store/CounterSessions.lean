import Cberl.Api.SingleKey
import Cberl.Store.Counters
import Cberl.Store.Refinement
import Cberl.Support.LabelledRun

/-!
# Sessions of counters

A session of arithmetic calls on one connection, whatever keys a batch repeats,
reports what folding the requests over the reference counters gives.
-/

namespace Cberl.Store

open Cberl Cberl.Support

variable [LcbTypes]

/-! ## One call -/

/-- A call of `arithmetic/6` or of `bulk_arithmetic/3`. -/
inductive CounterCall where
  | single (request : CounterRequest)
  | bulk (requests : List CounterRequest)

/-- Requests with the CAS each was given, and their results. -/
abbrev CounterLog := List ((CounterRequest × LcbCas) × Term)

namespace CounterCall

def requests : CounterCall → List CounterRequest
  | single request => [request]
  | bulk requests => requests

/-- The function itself. -/
def run (answer : Request → Term) : CounterCall → Api.ApiM Term
  | single request => Api.arithmetic answer request.toArithmeticRequest
  | bulk requests =>
      Api.bulkArithmetic answer
        (requests.map CounterRequest.toArithmeticRequest)

/-- The requests of the call, folded over the reference counters. -/
def serveOn (rules : CounterRules) (counters : RefCounters)
    (fresh : List LcbCas) (call : CounterCall) : RefCounters × CounterLog :=
  serve (refArithmetic rules) (fun entry => entry.1.key) counters
    (call.requests.zip fresh)

/-- The call reports the results of `log`: one result for each request in its
turn, and those of one key in request order. -/
def Reports (call : CounterCall) (reply : Except Raise Term)
    (log : CounterLog) : Prop :=
  match call with
  | single request =>
      ∃ cas result, log = [((request, cas), result)] ∧ reply = .ok result
  | bulk requests =>
      log.map (fun entry => entry.1.1) = requests ∧
        Answers reply (log.map (refEntry fun entry => entry.1.key))

end CounterCall

/-- One call of a session, with what libcouchbase does for its operation. -/
structure CounterExchange where
  call : CounterCall
  lcb : Lcb
  fresh : List LcbCas
  delivery : Delivery

namespace CounterExchange

def answer (exchange : CounterExchange) : Request → Term :=
  match exchange.delivery with
  | .answered => Api.worker exchange.lcb
  | .late => fun _ => Api.errorTerm (.atom "timeout")
  | .lost => fun _ => Api.errorTerm (.atom "timeout")

/-- What the API function returns. -/
def reply (exchange : CounterExchange) : Except Raise Term :=
  ((exchange.call.run exchange.answer).run.run []).1

/-- What the API function casts. -/
def casts (exchange : CounterExchange) : List Request :=
  ((exchange.call.run exchange.answer).run.run []).2

/-- What the exchange does to the bucket. -/
inductive Effect (rules : CounterRules) (exchange : CounterExchange) :
    Bucket → Bucket → Prop
  | lost {bucket : Bucket} (hlost : exchange.delivery = .lost) :
      Effect rules exchange bucket bucket
  | executed {bucket bucket' : Bucket} {request : Request}
      {carried : List ArithmeticRequest}
      (hdelivery : exchange.delivery ≠ .lost)
      (hcasts : exchange.casts = [request])
      (hoperation : request.operation = some (.arithmetic carried))
      (hfresh : exchange.fresh.length = carried.length)
      (hserves : Serves (arithmeticStep rules) (fun entry => entry.1.key)
        bucket bucket'
        ((carried.map ArithmeticCmd.ofRequest).zip exchange.fresh)
        (exchange.lcb.arithmetic (carried.map ArithmeticCmd.ofRequest))) :
      Effect rules exchange bucket bucket'

/-- What the exchange does to the reference counters, and its results. -/
def refer (rules : CounterRules) (counters : RefCounters)
    (exchange : CounterExchange) : RefCounters × CounterLog :=
  match exchange.delivery with
  | .lost => (counters, [])
  | _ => exchange.call.serveOn rules counters exchange.fresh

/-- An answered exchange reports the given results. -/
def Counts (exchange : CounterExchange) (log : CounterLog) : Prop :=
  exchange.delivery = .answered → exchange.call.Reports exchange.reply log

end CounterExchange

/-! ## What a call casts and reports -/

namespace CounterCall

/-- The bulk call that both functions make. -/
def bulkCall (call : CounterCall) : Api.BulkCall :=
  .arithmetic (call.requests.map CounterRequest.toArithmeticRequest)

/-- The request that both functions cast. -/
def request (call : CounterCall) : Request :=
  .arithmetic (.list (call.requests.map fun request =>
    request.toArithmeticRequest.toTerm))

theorem bulkCall_request (call : CounterCall) (codec : Codec) :
    call.bulkCall.request codec = .ok call.request := by
  rw [bulkCall, Api.BulkCall.request, List.map_map]
  rfl

theorem run_single (request : CounterRequest) (codec : Codec)
    (answer : Request → Term) (casts : List Request) :
    ((single request).run answer).run.run casts =
      let (result, casts') :=
        ((single request).bulkCall.run codec answer).run.run casts
      (result.bind (Api.single .okCasValue request.key), casts') :=
  Api.bind_evaluate_run _ _ casts

theorem run_casts (call : CounterCall) (answer : Request → Term) :
    ((call.run answer).run.run []).2 = [call.request] := by
  have hbulk := @Api.BulkCall.run_eq call.bulkCall Codec.digits answer []
  rw [call.bulkCall_request] at hbulk
  cases call with
  | single request =>
      rw [run_single request Codec.digits, hbulk]
      rfl
  | bulk requests => exact congrArg Prod.snd hbulk

theorem request_operation (call : CounterCall) :
    call.request.operation =
      some (.arithmetic (call.requests.map CounterRequest.carried)) := by
  obtain ⟨rows, hrows, hcarried⟩ := @getVector_carried _ _ _ _
    ArithmeticRequest.ofRaw (fun carried request => carried = request.carried)
    call.requests fun request _ => getTuple_counterRequest request
  rw [request, Request.operation, hrows, Option.map_some,
    forall₂_map_eq_iff.mp hcarried.flip]

end CounterCall

/-! ## An exchange -/

/-- Both functions accept every answer to a request. -/
theorem accepts_refArithmetic (rules : CounterRules)
    (counter : Option IntType.uint64.Val) (entry : CounterRequest × LcbCas) :
    Api.ResultShape.okCasValue.accepts (refArithmetic rules counter entry).2 =
      true := by
  unfold refArithmetic
  split
  all_goals rfl

omit [LcbTypes] in
/-- The one response for the one request of `arithmetic/6`. -/
theorem single_of_answers {reply : Except Raise Term} {key : Bytes}
    {result : Term}
    (hanswers : Answers reply [.tuple [.binary key, result]])
    (haccepts : Api.ResultShape.okCasValue.accepts result) :
    reply.bind (Api.single .okCasValue key) = .ok result := by
  obtain ⟨responses, rfl, hkeys⟩ := hanswers
  obtain rfl := List.perm_singleton.mp hkeys.perm
  exact Api.single_singleton haccepts

namespace CounterExchange

variable {rules : CounterRules} {exchange : CounterExchange}
  {bucket bucket' : Bucket} {counters : RefCounters}

/-- A served batch of arithmetic commands moves the bucket as the reference
counters move, and its reply has the reference's entries. -/
theorem bulk_counts {call : CounterCall} {lcb : Lcb} {fresh : List LcbCas}
    (hserves : Serves (arithmeticStep rules) (fun entry => entry.1.key)
      bucket bucket'
      (((call.requests.map CounterRequest.carried).map
        ArithmeticCmd.ofRequest).zip fresh)
      (lcb.arithmetic ((call.requests.map CounterRequest.carried).map
        ArithmeticCmd.ofRequest)))
    (hcounts : ∀ key, CountsAt rules (bucket key) (counters key)) :
    (∀ key, CountsAt rules (bucket' key)
        ((call.serveOn rules counters fresh).1 key)) ∧
      Answers
        ((call.bulkCall.run Codec.digits (Api.worker lcb)).run.run []).1
        ((call.serveOn rules counters fresh).2.map
          (refEntry fun entry => entry.1.key)) := by
  refine run_of_serves (call.bulkCall_request Codec.digits)
    call.request_operation rfl hserves
    (C := fun command entry =>
      command = (ArithmeticCmd.ofRequest entry.1.carried, entry.2))
    ?_ ?_ hcounts ?_
  · rintro _ entry rfl
    rfl
  · rintro item counter _ ⟨request, fresh⟩ hitem rfl
    obtain ⟨hitem', hanswer⟩ := arithmeticStep_simulates hitem request fresh
    exact ⟨hitem', congrArg Except.ok hanswer⟩
  · rw [List.map_map, List.zip_map_left, List.forall₂_map_left_iff,
      List.forall₂_same]
    rintro ⟨request, fresh⟩ _
    rfl

/-- Both functions report the reference's results, one for each request. -/
theorem reports_of_answers {call : CounterCall} {lcb : Lcb}
    {fresh : List LcbCas} (hfresh : fresh.length = call.requests.length)
    (hanswers : Answers
      ((call.bulkCall.run Codec.digits (Api.worker lcb)).run.run []).1
      ((call.serveOn rules counters fresh).2.map
        (refEntry fun entry => entry.1.key))) :
    call.Reports ((call.run (Api.worker lcb)).run.run []).1
      (call.serveOn rules counters fresh).2 := by
  cases call with
  | single request =>
      obtain ⟨cas, rfl⟩ := List.length_eq_one_iff.mp hfresh
      refine ⟨cas, _, rfl, ?_⟩
      rw [CounterCall.run_single request Codec.digits]
      exact single_of_answers hanswers (accepts_refArithmetic _ _ _)
  | bulk requests =>
      refine ⟨?_, hanswers⟩
      have hlength : fresh.length = requests.length := hfresh
      have hserved := congrArg (List.map Prod.fst)
        (serve_map_fst (refArithmetic rules) (fun entry => entry.1.key)
          counters (requests.zip fresh))
      rw [List.map_map, List.map_fst_zip (Nat.le_of_eq hlength.symm)] at hserved
      exact hserved

theorem refer_executed (hdelivery : exchange.delivery ≠ .lost) :
    exchange.refer rules counters =
      exchange.call.serveOn rules counters exchange.fresh := by
  unfold refer
  split
  next hlost => exact absurd hlost hdelivery
  next => rfl

theorem Effect.counts (heffect : exchange.Effect rules bucket bucket')
    (hcounts : ∀ key, CountsAt rules (bucket key) (counters key)) :
    (∀ key, CountsAt rules (bucket' key)
        ((exchange.refer rules counters).1 key)) ∧
      exchange.Counts (exchange.refer rules counters).2 := by
  cases heffect with
  | lost hlost =>
      rw [refer, hlost]
      refine ⟨hcounts, ?_⟩
      intro hanswered
      rw [hlost] at hanswered
      cases hanswered
  | executed hdelivery hcasts hoperation hfresh hserves =>
      rw [CounterExchange.casts, CounterCall.run_casts] at hcasts
      obtain rfl := (List.cons.inj hcasts).1
      rw [CounterCall.request_operation, Option.some.injEq,
        Operation.arithmetic.injEq] at hoperation
      subst hoperation
      rw [List.length_map] at hfresh
      obtain ⟨hbucket, hanswers⟩ := bulk_counts hserves hcounts
      rw [refer_executed hdelivery]
      refine ⟨hbucket, ?_⟩
      intro hanswered
      rw [reply, answer, hanswered]
      exact reports_of_answers hfresh hanswers

end CounterExchange

/-! ## Sessions -/

/-- The exchanges of a session act on the bucket in their order. -/
def counterMachine (rules : CounterRules) (bucket : Bucket) :
    TransitionSystem Bucket CounterExchange where
  Initial s := s = bucket
  Step s exchange s' := exchange.Effect rules s s'

/-- The session on the reference counters: their final state and the results of
every exchange. -/
def referCounters (rules : CounterRules) (counters : RefCounters)
    (exchanges : List CounterExchange) : RefCounters × List CounterLog :=
  exchanges.foldl
    (fun (counters, logs) exchange =>
      let (counters, log) := exchange.refer rules counters
      (counters, logs ++ [log]))
    (counters, [])

theorem referCounters_concat (rules : CounterRules) (counters : RefCounters)
    (exchanges : List CounterExchange) (exchange : CounterExchange) :
    referCounters rules counters (exchanges ++ [exchange]) =
      let (counters', logs) := referCounters rules counters exchanges
      let (counters'', log) := exchange.refer rules counters'
      (counters'', logs ++ [log]) := by
  rw [referCounters, List.foldl_append]
  rfl

/-- The bucket holds the reference counters after the session, and every
answered exchange has reported the reference's results. -/
structure CountsAlong (rules : CounterRules) (counters : RefCounters)
    (exchanges : List CounterExchange) (bucket : Bucket) : Prop where
  bucket : ∀ key, CountsAt rules (bucket key)
    ((referCounters rules counters exchanges).1 key)
  results : List.Forall₂ CounterExchange.Counts exchanges
    (referCounters rules counters exchanges).2

/-- Every session of arithmetic calls counts as the reference counters do, from
any bucket of counters. -/
theorem session_counts {rules : CounterRules} {bucket bucket' : Bucket}
    {counters : RefCounters} {exchanges : List CounterExchange}
    (hsession : Run (counterMachine rules bucket) exchanges bucket')
    (hcounts : ∀ key, CountsAt rules (bucket key) (counters key)) :
    CountsAlong rules counters exchanges bucket' := by
  refine hsession.invariant ?_ ?_
  · rintro s rfl
    exact ⟨hcounts, .nil⟩
  · intro exchanges s exchange s' _ ih hstep
    obtain ⟨hbucket, hlog⟩ := CounterExchange.Effect.counts hstep ih.bucket
    constructor
    · rw [referCounters_concat]
      exact hbucket
    · rw [referCounters_concat]
      exact List.rel_append ih.results (.cons hlog .nil)

/-! ## A session with a repeated key -/

/-- The exchange in which libcouchbase serves the commands in order. -/
def CounterExchange.serving (rules : CounterRules) (bucket : Bucket)
    (call : CounterCall) (fresh : List LcbCas) : CounterExchange :=
  { call, fresh
    lcb :=
      { Lcb.silent with
        arithmetic := fun commands =>
          inOrder (arithmeticStep rules) (fun entry => entry.1.key) bucket
            (commands.zip fresh) }
    delivery := .answered }

/-- The bucket it leaves. -/
def servedBucket (rules : CounterRules) (bucket : Bucket) (call : CounterCall)
    (fresh : List LcbCas) : Bucket :=
  (serve (arithmeticStep rules) (fun entry => entry.1.key) bucket
    (((call.requests.map CounterRequest.carried).map
      ArithmeticCmd.ofRequest).zip fresh)).1

theorem effect_serving (rules : CounterRules) (bucket : Bucket)
    (call : CounterCall) {fresh : List LcbCas}
    (hfresh : fresh.length = call.requests.length) :
    (CounterExchange.serving rules bucket call fresh).Effect rules bucket
      (servedBucket rules bucket call fresh) := by
  refine .executed (by simp [CounterExchange.serving])
    (call.run_casts _) call.request_operation ?_ (serves_inOrder _ _ _ _)
  rw [List.length_map]
  exact hfresh

/-- A request for one key. -/
def countOne (delta : ℤ) (default : Option ℕ)
    (hdelta : IntType.int64.Contains delta)
    (hdefault : ∀ n ∈ default, IntType.uint64.Contains n) : CounterRequest :=
  { key := [1], delta, default, expiry := 0
    delta_contains := hdelta
    default_contains := hdefault
    expiry_contains := time_contains_zero }

omit [LcbTypes] in
theorem no_default : ∀ n ∈ (none : Option ℕ), IntType.uint64.Contains n := by
  simp

omit [LcbTypes] in
theorem greatest_default :
    ∀ n ∈ some IntType.uint64.greatest.toNat, IntType.uint64.Contains n := by
  rintro _ ⟨⟩
  decide

/-- An update of an absent counter. -/
def countAbsent : CounterCall :=
  .single (countOne _ none (IntType.contains_greatest _) no_default)

/-- A creation at the greatest value, and updates by the least and the greatest
delta, in one batch. -/
def countBatch : CounterCall :=
  .bulk
    [countOne _ (some IntType.uint64.greatest.toNat) (IntType.contains_least _)
        greatest_default,
      countOne _ none (IntType.contains_least _) no_default,
      countOne _ none (IntType.contains_greatest _) no_default]

def countSession : List CounterExchange :=
  let bucket := servedBucket .memcached (fun _ => none) countAbsent [sevenCas]
  [.serving .memcached (fun _ => none) countAbsent [sevenCas],
    .serving .memcached bucket countBatch [sevenCas, sevenCas, sevenCas]]

omit [LcbTypes] in
theorem countSession_counts :
    let _ : LcbTypes := ⟨.uint32⟩
    ∃ bucket, Run (counterMachine .memcached fun _ => none) countSession
        bucket ∧
      CountsAlong .memcached (fun _ => none) countSession bucket := by
  intro _
  have hsession : Run (counterMachine .memcached fun _ => none) countSession _ :=
    .step (.step (.start rfl) (effect_serving _ _ countAbsent rfl))
      (effect_serving _ _ countBatch rfl)
  exact ⟨_, hsession, session_counts hsession fun _ => trivial⟩

end Cberl.Store
