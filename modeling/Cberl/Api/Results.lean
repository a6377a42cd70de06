import Cberl.Api.Contract
import Cberl.Api.Isolation

/-!
# Results of the declared types

When a call whose request reaches the worker returns a value of its declared
result type depends on what libcouchbase delivers for its operation.
-/

namespace Cberl.Api

open Cberl Cberl.Support

/-! ## Declared results -/

/-- The result type that a response of the call declares for one key, besides
`{error, Reason}`. -/
def BulkCall.Succeeds : BulkCall → Term → Prop
  | get _, t => ∃ (cas : ℕ) (value : Term), t = .tuple [.atom "ok", .int cas, value]
  | store _, t => ∃ cas : ℕ, t = okTerm (.int cas)
  | remove _, t => t = .atom "ok"
  | arithmetic _, t =>
      ∃ cas value : ℕ, t = .tuple [.atom "ok", .int cas, .int value]
  | durability _ _, t => ∃ cas : ℕ, t = okTerm (.int cas)

def IsError (t : Term) : Prop :=
  ∃ reason, t = errorTerm reason

/-- `t` is of the result type of the call's `-spec`. -/
def ApiCall.Declares : ApiCall → Term → Prop
  | bulk call, t => IsError t ∨ ∃ responses, t = okTerm (.list responses) ∧
      ∀ response ∈ responses, ∃ key result,
        response = .tuple [.binary key, result] ∧
          (IsError result ∨ call.Succeeds result)
  | key call, t => IsError t ∨ call.bulk.Succeeds t
  | http .., t => IsError t ∨
      ∃ (status : ℤ) (body : Bytes),
        t = .tuple [.atom "ok", .int status, .binary body]

/-- What a callback is rendered to is an error or a payload. -/
theorem declared_of_mem_render {P : Type} {payloadTerm : P → Term}
    {Succeeds : Term → Prop} {outcome : Outcome P} {callback : Callback Term}
    (hsucceeds : ∀ payload, Succeeds (payloadTerm payload))
    (h : callback ∈ (outcome.render payloadTerm).callbacks) :
    ∃ result, callback.toTerm = .tuple [.binary callback.key, result] ∧
      (IsError result ∨ Succeeds result) := by
  obtain ⟨⟨key, result⟩, -, rfl⟩ := List.mem_map.mp h
  cases result with
  | error err => exact ⟨err.toTerm, rfl, Or.inl ⟨_, rfl⟩⟩
  | ok payload => exact ⟨payloadTerm payload, rfl, Or.inr (hsucceeds payload)⟩

theorem casTerm_eq (cas : LcbCas) :
    casTerm cas = okTerm (.int (cas.val.toNat : ℤ)) := by
  rw [Int.toNat_of_nonneg cas.property.1]
  rfl

theorem arithmeticPayload_toTerm_eq (payload : ArithmeticPayload) :
    ∃ cas value : ℕ,
      payload.toTerm = .tuple [.atom "ok", .int cas, .int value] := by
  refine ⟨payload.cas.val.toNat, payload.value.val.toNat, ?_⟩
  rw [Int.toNat_of_nonneg payload.cas.property.1,
    Int.toNat_of_nonneg payload.value.property.1]
  rfl

theorem accepts_of_declared {call : KeyCall} {t : Term}
    (h : IsError t ∨ call.bulk.Succeeds t) : call.shape.accepts t := by
  rcases h with ⟨reason, rfl⟩ | h
  · cases call <;> rfl
  · cases call with
    | get request =>
        obtain ⟨cas, value, rfl⟩ := h
        rfl
    | store request =>
        obtain ⟨cas, rfl⟩ := h
        rfl
    | remove request =>
        obtain rfl := h
        rfl
    | arithmetic request =>
        obtain ⟨cas, value, rfl⟩ := h
        rfl
    | durability request options =>
        obtain ⟨cas, rfl⟩ := h
        rfl

theorem eq_of_single_eq_ok {shape : ResultShape} {key : Bytes}
    {responses : List Term} {t : Term}
    (h : single shape key (okTerm (.list responses)) = .ok t) :
    responses = [.tuple [.binary key, t]] := by
  unfold single at h
  split at h
  next responseKey result hterm =>
    have hlist : Term.list responses =
        .list [.tuple [.binary responseKey, result]] := by
      simpa [okTerm, Term.list] using hterm
    split at h
    next hmatches =>
      obtain rfl := Except.ok.inj h
      rw [← hmatches.1]
      exact Term.list_injective hlist
    next => cases h
  next reason hterm => simp [okTerm] at hterm
  next => cases h

/-! ## Calls that return -/

/-- What libcouchbase delivers for the operation of the call is what the call
can make a result of: decodable items, and for a function on one key exactly
one response with that key. -/
def ApiCall.Delivers (codec : Codec) (outcome : Outcome Term) : ApiCall → Prop
  | bulk call => ∀ callback ∈ outcome.callbacks,
      ∃ entry, call.entry codec callback = .ok entry
  | key call => ∃ callback entry, outcome.callbacks = [callback] ∧
      callback.key = call.key ∧ call.bulk.entry codec callback = .ok entry
  | http .. => True

/-- The call returns a value of its declared result type. -/
def ApiCall.Returns (codec : Codec) (answer : Request → Term)
    (call : ApiCall) : Prop :=
  ∃ t, ((call.run codec answer).run.run []).1 = .ok t ∧ call.Declares t

theorem ApiCall.returns_of_error {call : ApiCall} {codec : Codec}
    {answer : Request → Term} {request : Request} {reason : Term}
    (hrequest : call.request codec = .ok request)
    (hanswer : answer request = errorTerm reason) :
    call.Returns codec answer := by
  refine ⟨errorTerm reason, ?_, ?_⟩
  · rw [run_eq, hrequest]
    dsimp only
    rw [hanswer]
    cases call with
    | bulk call => cases call <;> rfl
    | key call => cases call <;> rfl
    | http => rfl
  · cases call <;> exact Or.inl ⟨reason, rfl⟩

variable [LcbTypes]

/-- Every entry of a reply is of the declared type of a response. -/
theorem BulkCall.entry_declared {call : BulkCall} {codec : Codec} {lcb : Lcb}
    {request : Request} {operation : Operation} {outcome : Outcome Term}
    {callback : Callback Term} {entry : Term}
    (hrequest : call.request codec = .ok request)
    (hoperation : request.operation = some operation)
    (houtcome : operation.batchOutcome lcb = some outcome)
    (hmem : callback ∈ outcome.callbacks)
    (hentry : call.entry codec callback = .ok entry) :
    ∃ result, entry = .tuple [.binary callback.key, result] ∧
      (IsError result ∨ call.Succeeds result) := by
  cases call with
  | get requests =>
      obtain rfl := Except.ok.inj hrequest
      obtain ⟨rows, -, rfl⟩ := Option.map_eq_some_iff.mp hoperation
      obtain rfl := Option.some.inj houtcome
      obtain ⟨⟨key, result⟩, -, rfl⟩ := List.mem_map.mp hmem
      rw [BulkCall.entry, Callback.toTerm_render] at hentry
      rcases isGetResponse_of_decodeResponse hentry with
        ⟨cas, value, rfl⟩ | ⟨reason, rfl⟩
      · exact ⟨_, rfl, Or.inr ⟨cas, value, rfl⟩⟩
      · exact ⟨_, rfl, Or.inl ⟨reason, rfl⟩⟩
  | store requests =>
      obtain ⟨terms, -, rfl⟩ := except_map_eq_ok_iff.mp hrequest
      obtain ⟨rows, -, rfl⟩ := Option.map_eq_some_iff.mp hoperation
      obtain rfl := Option.some.inj houtcome
      obtain rfl := Except.ok.inj hentry
      exact declared_of_mem_render (fun cas => ⟨_, casTerm_eq cas⟩) hmem
  | remove requests =>
      obtain rfl := Except.ok.inj hrequest
      obtain ⟨rows, -, rfl⟩ := Option.map_eq_some_iff.mp hoperation
      obtain rfl := Option.some.inj houtcome
      obtain rfl := Except.ok.inj hentry
      exact declared_of_mem_render (fun _ => rfl) hmem
  | arithmetic requests =>
      obtain rfl := Except.ok.inj hrequest
      obtain ⟨rows, -, rfl⟩ := Option.map_eq_some_iff.mp hoperation
      obtain rfl := Option.some.inj houtcome
      obtain rfl := Except.ok.inj hentry
      exact declared_of_mem_render arithmeticPayload_toTerm_eq hmem
  | durability requests options =>
      obtain rfl := Except.ok.inj hrequest
      obtain ⟨rows, -, hoptions⟩ := Option.bind_eq_some_iff.mp hoperation
      obtain ⟨row, -, rfl⟩ := Option.map_eq_some_iff.mp hoptions
      obtain rfl := Option.some.inj houtcome
      obtain rfl := Except.ok.inj hentry
      exact declared_of_mem_render (fun cas => ⟨_, casTerm_eq cas⟩) hmem

theorem BulkCall.returns_iff {call : BulkCall} {codec : Codec} {lcb : Lcb}
    {request : Request} {operation : Operation} {outcome : Outcome Term}
    (hrequest : call.request codec = .ok request)
    (hoperation : request.operation = some operation)
    (houtcome : operation.batchOutcome lcb = some outcome)
    (hstatus : outcome.schedule.or outcome.wait = none) :
    (ApiCall.bulk call).Returns codec (worker lcb) ↔
      (ApiCall.bulk call).Delivers codec outcome := by
  rw [ApiCall.Returns, ApiCall.run,
    BulkCall.run_worker hrequest hoperation houtcome,
    BulkCall.reply_replyTerm hstatus]
  simp only [except_map_eq_ok_iff, mapM_except_eq_ok_iff]
  constructor
  · rintro ⟨_, ⟨responses, hentries, -⟩, -⟩
    exact exists_forall₂_iff.mp ⟨responses, hentries⟩
  · intro hdelivers
    obtain ⟨responses, hentries⟩ := exists_forall₂_iff.mpr hdelivers
    refine ⟨_, ⟨responses, hentries, rfl⟩, Or.inr ⟨responses, rfl, ?_⟩⟩
    refine forall_mem_of_forall₂ hentries ?_
    intro callback hmem response hentry
    exact ⟨callback.key, BulkCall.entry_declared hrequest hoperation houtcome
      hmem hentry⟩

theorem KeyCall.returns_iff {call : KeyCall} {codec : Codec} {lcb : Lcb}
    {request : Request} {operation : Operation} {outcome : Outcome Term}
    (hrequest : call.bulk.request codec = .ok request)
    (hoperation : request.operation = some operation)
    (houtcome : operation.batchOutcome lcb = some outcome)
    (hstatus : outcome.schedule.or outcome.wait = none) :
    (ApiCall.key call).Returns codec (worker lcb) ↔
      (ApiCall.key call).Delivers codec outcome := by
  constructor
  · rintro ⟨t, hrun, -⟩
    rw [ApiCall.run, KeyCall.run_result,
      BulkCall.run_worker hrequest hoperation houtcome,
      BulkCall.reply_replyTerm hstatus] at hrun
    cases hentries : outcome.callbacks.mapM (call.bulk.entry codec) with
    | error raise =>
        rw [hentries] at hrun
        cases hrun
    | ok responses =>
        rw [hentries] at hrun
        obtain rfl := eq_of_single_eq_ok hrun
        rw [mapM_except_eq_ok_iff, List.forall₂_cons_right_iff] at hentries
        obtain ⟨callback, _, hentry, hnil, hcallbacks⟩ := hentries
        obtain rfl := List.forall₂_nil_right_iff.mp hnil
        refine ⟨callback, _, hcallbacks, ?_, hentry⟩
        exact (Option.some.inj (BulkCall.entry_key hentry)).symm
  · rintro ⟨callback, entry, hcallbacks, hkey, hentry⟩
    obtain ⟨result, rfl, hdeclared⟩ := BulkCall.entry_declared hrequest
      hoperation houtcome (by rw [hcallbacks]; simp) hentry
    refine ⟨result, ?_, hdeclared⟩
    rw [ApiCall.run, KeyCall.run_worker hrequest hoperation houtcome hstatus
      hcallbacks, hentry, hkey]
    exact single_singleton (accepts_of_declared hdeclared)

theorem BulkCall.exists_batchOutcome {call : BulkCall} {codec : Codec}
    {request : Request} {operation : Operation}
    (hrequest : call.request codec = .ok request)
    (hoperation : request.operation = some operation) (lcb : Lcb) :
    ∃ outcome, operation.batchOutcome lcb = some outcome := by
  cases call with
  | store requests =>
      obtain ⟨terms, -, rfl⟩ := except_map_eq_ok_iff.mp hrequest
      obtain ⟨rows, -, rfl⟩ := Option.map_eq_some_iff.mp hoperation
      exact ⟨_, rfl⟩
  | durability requests options =>
      obtain rfl := Except.ok.inj hrequest
      obtain ⟨rows, -, hoptions⟩ := Option.bind_eq_some_iff.mp hoperation
      obtain ⟨row, -, rfl⟩ := Option.map_eq_some_iff.mp hoptions
      exact ⟨_, rfl⟩
  | _ =>
      obtain rfl := Except.ok.inj hrequest
      obtain ⟨rows, -, rfl⟩ := Option.map_eq_some_iff.mp hoperation
      exact ⟨_, rfl⟩

theorem ApiCall.returns_http (codec : Codec) (lcb : Lcb) (type : HttpType)
    (method : HttpMethod) (path contentType body : Bytes) :
    (http type method path contentType body).Returns codec (worker lcb) := by
  obtain ⟨row, hrow⟩ := Option.isSome_iff_exists.mp
    (getTuple_http type method path contentType body)
  have hoperation : Request.operation (.http (.tuple
      [.int (getHttpTypeId type), .int (getHttpMethodId method), .binary path,
        .binary contentType, .binary body])) =
      some (.http (HttpRequest.ofRaw row)) := by
    rw [Request.operation, hrow]
    rfl
  refine ⟨_, rfl, ?_⟩
  rw [worker_eq_execute hoperation, Operation.execute, HttpResponse.toTerm]
  cases (Connection.http lcb (HttpRequest.ofRaw row)).err with
  | some err => exact Or.inl ⟨_, rfl⟩
  | none => exact Or.inr ⟨_, _, rfl⟩

/-- Only a batch that succeeds as a whole has to deliver anything. -/
theorem ApiCall.returns_iff_of_batch {call : ApiCall} {batch : BulkCall}
    {codec : Codec} {lcb : Lcb} {request : Request}
    (hrequest : call.request codec = .ok request)
    (hbatch : batch.request codec = .ok request)
    (hdelivers : ∀ operation outcome, request.operation = some operation →
      operation.batchOutcome lcb = some outcome →
      outcome.schedule.or outcome.wait = none →
      (call.Returns codec (worker lcb) ↔ call.Delivers codec outcome)) :
    call.Returns codec (worker lcb) ↔
      ∀ operation outcome, request.operation = some operation →
        operation.batchOutcome lcb = some outcome →
        outcome.schedule.or outcome.wait = none →
        call.Delivers codec outcome := by
  constructor
  · intro hreturns operation outcome hoperation houtcome hstatus
    exact (hdelivers operation outcome hoperation houtcome hstatus).mp hreturns
  · intro h
    cases hoperation : request.operation with
    | none =>
        apply returns_of_error hrequest
        rw [worker, hoperation]
    | some operation =>
        obtain ⟨outcome, houtcome⟩ :=
          BulkCall.exists_batchOutcome hbatch hoperation lcb
        cases hstatus : outcome.schedule.or outcome.wait with
        | some err =>
            apply returns_of_error hrequest
            rw [worker_eq_execute hoperation,
              Operation.execute_eq_replyTerm houtcome, Outcome.replyTerm,
              hstatus]
            rfl
        | none =>
            exact (hdelivers operation outcome hoperation houtcome hstatus).mpr
              (h operation outcome hoperation houtcome hstatus)

/-- A call whose request is cast returns a declared value exactly when
libcouchbase delivers what it can use, provided its operation is executed and
succeeds as a whole. -/
theorem ApiCall.returns_iff {call : ApiCall} {codec : Codec} {lcb : Lcb}
    {request : Request} (hrequest : call.request codec = .ok request) :
    call.Returns codec (worker lcb) ↔
      ∀ operation outcome, request.operation = some operation →
        operation.batchOutcome lcb = some outcome →
        outcome.schedule.or outcome.wait = none →
        call.Delivers codec outcome := by
  cases call with
  | bulk call =>
      exact returns_iff_of_batch hrequest hrequest fun _ _ hoperation =>
        BulkCall.returns_iff hrequest hoperation
  | key call =>
      exact returns_iff_of_batch hrequest hrequest fun _ _ hoperation =>
        KeyCall.returns_iff hrequest hoperation
  | http type method path contentType body =>
      exact iff_of_true (returns_http ..) fun _ _ _ _ _ => trivial

end Cberl.Api
