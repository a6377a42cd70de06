import Cberl.Connection.Responses
import Cberl.Nif.Functions

/-!
# Operations on a connection

How `Connection::get` and its siblings turn request objects into libcouchbase
commands and callbacks into a response object.  What libcouchbase does with the
commands of one operation is a parameter: the status of the scheduling call,
the callbacks it runs with this operation's cookie, in the order in which
`lcb_wait` runs them, and the status of `lcb_wait`.
-/

namespace Cberl

/-! ## What libcouchbase answers -/

/-- One invocation of a per-command callback. -/
structure Callback (P : Type) where
  key : Bytes
  result : Except LcbError P

/-- What libcouchbase does during one batch operation. -/
structure Outcome (P : Type) where
  schedule : Option LcbError
  callbacks : List (Callback P)
  wait : Option LcbError

/-- What libcouchbase does during one HTTP operation. -/
structure HttpOutcome where
  uninitialised : ℕ
  schedule : Option LcbError
  callbacks : List (Except LcbError (ℕ × Bytes))
  wait : Option LcbError

/-! ## Callbacks and the batch skeleton -/

/-- The body the five per-command callbacks share: add an item with the key of
the command and either its payload or its error. -/
def itemCallback {P : Type} (response : MultiResponse (ItemResponse P))
    (callback : Callback P) : MultiResponse (ItemResponse P) :=
  response.add { key := callback.key, result := callback.result }

abbrev getCallback : MultiResponse GetResponse → Callback GetPayload →
    MultiResponse GetResponse := itemCallback

abbrev storeCallback : MultiResponse StoreResponse → Callback LcbCas →
    MultiResponse StoreResponse := itemCallback

abbrev arithmeticCallback : MultiResponse ArithmeticResponse →
    Callback ArithmeticPayload → MultiResponse ArithmeticResponse :=
  itemCallback

abbrev removeCallback : MultiResponse RemoveResponse → Callback Unit →
    MultiResponse RemoveResponse := itemCallback

abbrev durabilityCallback : MultiResponse DurabilityResponse →
    Callback LcbCas → MultiResponse DurabilityResponse := itemCallback

def httpCallback (response : HttpResponse) :
    Except LcbError (ℕ × Bytes) → HttpResponse
  | .ok (status, body) => ((response.setError none).setStatus status).setBody body
  | .error err => response.setError (some err)

/-- The part the five batch operations share: schedule, wait, and return the
response object unless one of the two fails. -/
def Connection.batch {P R : Type}
    (callback : MultiResponse R → Callback P → MultiResponse R)
    (outcome : Outcome P) : MultiResponse R :=
  match outcome.schedule with
  | some err => .ofStatus (some err)
  | none =>
      let response := outcome.callbacks.foldl callback (.ofStatus none)
      match outcome.wait with
      | some err => .ofStatus (some err)
      | none => response

/-- The item a callback adds. -/
def Callback.toResponse {P : Type} (callback : Callback P) : ItemResponse P :=
  { key := callback.key, result := callback.result }

theorem foldl_itemCallback {P : Type}
    (response : MultiResponse (ItemResponse P)) (callbacks : List (Callback P)) :
    callbacks.foldl itemCallback response =
      { response with
        responses := response.responses ++ callbacks.map Callback.toResponse } := by
  rw [← MultiResponse.foldl_add, List.foldl_map]
  rfl

/-- A batch whose scheduling call and wait both succeed answers with one item
per callback, in callback order; a failure of either answers with that error
alone. -/
theorem Connection.batch_toTerm {P : Type} (payloadTerm : P → Term)
    (outcome : Outcome P) :
    (Connection.batch itemCallback outcome).toTerm (ItemResponse.toTerm payloadTerm) =
      match outcome.schedule.or outcome.wait with
      | some err => err.toTerm
      | none =>
          .tuple [.atom "ok", .list (outcome.callbacks.map fun callback =>
            callback.toResponse.toTerm payloadTerm)] := by
  unfold Connection.batch
  rw [foldl_itemCallback]
  cases outcome.schedule with
  | some err => rfl
  | none =>
      cases outcome.wait with
      | some err => rfl
      | none => simp [MultiResponse.toTerm, MultiResponse.ofStatus]

/-- An outcome with its payloads rendered as the terms a reply carries. -/
def Outcome.render {P : Type} (payloadTerm : P → Term) (outcome : Outcome P) :
    Outcome Term :=
  { schedule := outcome.schedule
    callbacks := outcome.callbacks.map fun callback =>
      { key := callback.key, result := callback.result.map payloadTerm }
    wait := outcome.wait }

/-- The `{Key, Result}` term of a rendered callback. -/
def Callback.toTerm (callback : Callback Term) : Term :=
  callback.toResponse.toTerm id

/-- The reply of a batch in terms of its rendered outcome. -/
def Outcome.replyTerm (outcome : Outcome Term) : Term :=
  match outcome.schedule.or outcome.wait with
  | some err => err.toTerm
  | none => .tuple [.atom "ok", .list (outcome.callbacks.map Callback.toTerm)]

theorem Callback.toTerm_render {P : Type} (payloadTerm : P → Term)
    (callback : Callback P) :
    Callback.toTerm
        { key := callback.key, result := callback.result.map payloadTerm } =
      callback.toResponse.toTerm payloadTerm := by
  rcases callback with ⟨key, _ | payload⟩ <;> rfl

theorem Connection.batch_toTerm_eq_replyTerm {P : Type}
    (payloadTerm : P → Term) (outcome : Outcome P) :
    (Connection.batch itemCallback outcome).toTerm (ItemResponse.toTerm payloadTerm) =
      (outcome.render payloadTerm).replyTerm := by
  rw [Connection.batch_toTerm, Outcome.replyTerm]
  simp only [Outcome.render, List.map_map, Function.comp_def,
    Callback.toTerm_render]

variable [LcbTypes]

/-! ## Commands -/

/-- `lcb_get_cmd_t` -/
structure GetCmd where
  key : Bytes
  exptime : LcbTime
  lock : Bool

def GetCmd.ofRequest (request : GetRequest) : GetCmd :=
  { key := request.key
    exptime := request.expiry
    lock := request.lock }

/-- `lcb_store_cmd_t` -/
structure StoreCmd where
  operation : IntType.int32.Val
  key : Bytes
  cas : LcbCas
  flags : IntType.uint32.Val
  bytes : Bytes
  exptime : LcbTime

def StoreCmd.ofRequest (request : StoreRequest) : StoreCmd :=
  { operation := request.operation
    key := request.key
    cas := request.cas
    flags := request.flags
    bytes := request.value
    exptime := request.expiry }

/-- `lcb_remove_cmd_t` -/
structure RemoveCmd where
  key : Bytes
  cas : LcbCas

def RemoveCmd.ofRequest (request : RemoveRequest) : RemoveCmd :=
  { key := request.key
    cas := request.cas }

/-- `lcb_arithmetic_cmd_t` -/
structure ArithmeticCmd where
  key : Bytes
  delta : IntType.int64.Val
  create : Bool
  initial : IntType.uint64.Val
  exptime : LcbTime

def ArithmeticCmd.ofRequest (request : ArithmeticRequest) : ArithmeticCmd :=
  { key := request.key
    delta := request.delta
    create := request.create
    initial := request.initial
    exptime := request.expiry }

/-- `lcb_http_cmd_t` with the request type.  The content type is handed over
without a length, so libcouchbase reads it up to the first zero byte. -/
structure HttpCmd where
  type : IntType.int32.Val
  method : IntType.int32.Val
  path : Bytes
  contentType : Bytes
  body : Bytes

def HttpCmd.ofRequest (request : HttpRequest) : HttpCmd :=
  { type := request.type
    method := request.method
    path := request.path
    contentType := request.contentType.takeWhile (· ≠ 0)
    body := request.body }

/-- `lcb_durability_cmd_t` -/
structure DurabilityCmd where
  key : Bytes
  cas : LcbCas

def DurabilityCmd.ofRequest (request : DurabilityRequest) : DurabilityCmd :=
  { key := request.key
    cas := request.cas }

/-- `lcb_durability_opts_t`: both counts are unsigned 16-bit fields, and the
assignment from a 32-bit value reduces modulo `2 ^ 16`. -/
structure DurabilityOpts where
  persistTo : ℕ
  replicateTo : ℕ
  capMax : Bool

def DurabilityOpts.ofOptions (options : DurabilityRequestOptions) :
    DurabilityOpts :=
  { persistTo := (options.persistTo.val % 2 ^ 16).toNat
    replicateTo := (options.replicateTo.val % 2 ^ 16).toNat
    capMax := true }

/-- The behaviour of libcouchbase during the next operation, for every
operation it may be. -/
structure Lcb where
  get : List GetCmd → Outcome GetPayload
  store : List StoreCmd → Outcome LcbCas
  remove : List RemoveCmd → Outcome Unit
  arithmetic : List ArithmeticCmd → Outcome ArithmeticPayload
  http : HttpCmd → HttpOutcome
  durability : List DurabilityCmd → DurabilityOpts → Outcome LcbCas

/-- The libcouchbase that runs no callback. -/
def Lcb.silent : Lcb where
  get _ := { schedule := none, callbacks := [], wait := none }
  store _ := { schedule := none, callbacks := [], wait := none }
  remove _ := { schedule := none, callbacks := [], wait := none }
  arithmetic _ := { schedule := none, callbacks := [], wait := none }
  http _ := { uninitialised := 0, schedule := none, callbacks := [], wait := none }
  durability _ _ := { schedule := none, callbacks := [], wait := none }

/-! ## The operations -/

namespace Connection

variable (lcb : Lcb)

def get (requests : List GetRequest) : MultiResponse GetResponse :=
  batch getCallback (lcb.get (requests.map GetCmd.ofRequest))

def store (requests : List StoreRequest) : MultiResponse StoreResponse :=
  batch storeCallback (lcb.store (requests.map StoreCmd.ofRequest))

def remove (requests : List RemoveRequest) : MultiResponse RemoveResponse :=
  batch removeCallback (lcb.remove (requests.map RemoveCmd.ofRequest))

def arithmetic (requests : List ArithmeticRequest) :
    MultiResponse ArithmeticResponse :=
  batch arithmeticCallback (lcb.arithmetic (requests.map ArithmeticCmd.ofRequest))

def http (request : HttpRequest) : HttpResponse :=
  let outcome := lcb.http (HttpCmd.ofRequest request)
  match outcome.schedule with
  | some err => .ofStatus outcome.uninitialised (some err)
  | none =>
      let response := outcome.callbacks.foldl httpCallback
        (.ofStatus outcome.uninitialised none)
      match outcome.wait with
      | some err => .ofStatus outcome.uninitialised (some err)
      | none => response

def durability (requests : List DurabilityRequest)
    (options : DurabilityRequestOptions) : MultiResponse DurabilityResponse :=
  batch durabilityCallback
    (lcb.durability (requests.map DurabilityCmd.ofRequest)
      (DurabilityOpts.ofOptions options))

end Connection

/-- The handler `Client` posts: run the operation and hand its response to the
NIF's callback, which sends it as a term. -/
def Operation.execute (lcb : Lcb) : Operation → Term
  | .get requests =>
      (Connection.get lcb requests).toTerm GetResponse.toTerm
  | .store requests =>
      (Connection.store lcb requests).toTerm StoreResponse.toTerm
  | .remove requests =>
      (Connection.remove lcb requests).toTerm RemoveResponse.toTerm
  | .arithmetic requests =>
      (Connection.arithmetic lcb requests).toTerm ArithmeticResponse.toTerm
  | .http request => (Connection.http lcb request).toTerm
  | .durability requests options =>
      (Connection.durability lcb requests options).toTerm
        DurabilityResponse.toTerm

/-! ## Batches uniformly -/

/-- What libcouchbase does with a batch, rendered as terms. -/
def Operation.batchOutcome (lcb : Lcb) : Operation → Option (Outcome Term)
  | .get requests =>
      some ((lcb.get (requests.map GetCmd.ofRequest)).render GetPayload.toTerm)
  | .store requests =>
      some ((lcb.store (requests.map StoreCmd.ofRequest)).render casTerm)
  | .remove requests =>
      some ((lcb.remove (requests.map RemoveCmd.ofRequest)).render
        fun _ => .atom "ok")
  | .arithmetic requests =>
      some ((lcb.arithmetic (requests.map ArithmeticCmd.ofRequest)).render
        ArithmeticPayload.toTerm)
  | .http _ => none
  | .durability requests options =>
      some ((lcb.durability (requests.map DurabilityCmd.ofRequest)
        (DurabilityOpts.ofOptions options)).render casTerm)

/-- Whatever the batch operation, the worker's response is the reply term of
its rendered outcome. -/
theorem Operation.execute_eq_replyTerm {lcb : Lcb} {operation : Operation}
    {outcome : Outcome Term}
    (h : operation.batchOutcome lcb = some outcome) :
    operation.execute lcb = outcome.replyTerm := by
  cases operation with
  | http request => cases h
  | _ =>
      obtain rfl := Option.some.inj h
      exact Connection.batch_toTerm_eq_replyTerm _ _

end Cberl
