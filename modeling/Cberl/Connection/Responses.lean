import Cberl.Nif.Requests

/-!
# Response objects

The response classes that libcouchbase's callbacks fill in and that the worker
turns into the term it sends.  `LCB_SUCCESS` is not an `LcbError`: a status is
an optional error, and a response to one command is a key with either a payload
or an error, so a payload is present exactly when the source initialises it.
-/

namespace Cberl

/-- `lcb_error_t` without `LCB_SUCCESS`.  `other` stands for the codes that
`Response::errorMessage` does not list. -/
inductive LcbError where
  | authContinue
  | authError
  | deltaBadval
  | e2big
  | ebusy
  | einternal
  | einval
  | enomem
  | erange
  | error
  | etmpfail
  | keyEexists
  | keyEnoent
  | networkError
  | notMyVbucket
  | notStored
  | notSupported
  | unknownCommand
  | unknownHost
  | protocolError
  | etimedout
  | connectError
  | bucketEnoent
  | clientEnomem
  | other (code : ℕ)

def errorMessage : LcbError → String
  | .authContinue => "auth_continue"
  | .authError => "auth_error"
  | .deltaBadval => "delta_badval"
  | .e2big => "e2big"
  | .ebusy => "ebusy"
  | .einternal => "einternal"
  | .einval => "einval"
  | .enomem => "enomem"
  | .erange => "erange"
  | .error => "error"
  | .etmpfail => "etmpfail"
  | .keyEexists => "key_eexists"
  | .keyEnoent => "key_enoent"
  | .networkError => "network_error"
  | .notMyVbucket => "not_my_vbucket"
  | .notStored => "not_stored"
  | .notSupported => "not_supported"
  | .unknownCommand => "unknown_command"
  | .unknownHost => "unknown_host"
  | .protocolError => "protocol_error"
  | .etimedout => "etimedout"
  | .connectError => "connect_error"
  | .bucketEnoent => "bucket_enoent"
  | .clientEnomem => "client_enomem"
  | .other _ => "unknown_error"

/-- `Response::toTerm` of a response that carries an error. -/
def LcbError.toTerm (err : LcbError) : Term :=
  .tuple [.atom "error", .atom (errorMessage err)]

/-! ## Responses to one command -/

/-- The response to one command: its key, and a payload or an error. -/
structure ItemResponse (P : Type) where
  key : Bytes
  result : Except LcbError P

/-- `{Key, Result}` -/
def ItemResponse.toTerm {P : Type} (payloadTerm : P → Term)
    (response : ItemResponse P) : Term :=
  .tuple
    [.binary response.key,
      match response.result with
      | .ok payload => payloadTerm payload
      | .error err => err.toTerm]

structure GetPayload where
  cas : LcbCas
  flags : IntType.uint32.Val
  value : Bytes

structure ArithmeticPayload where
  cas : LcbCas
  value : IntType.uint64.Val

def casTerm (cas : LcbCas) : Term :=
  .tuple [.atom "ok", .int cas.val]

abbrev GetResponse := ItemResponse GetPayload

def GetPayload.toTerm (payload : GetPayload) : Term :=
  .tuple
    [.atom "ok", .int payload.cas.val, .int payload.flags.val,
      .binary payload.value]

def GetResponse.toTerm (response : GetResponse) : Term :=
  ItemResponse.toTerm GetPayload.toTerm response

abbrev StoreResponse := ItemResponse LcbCas

def StoreResponse.toTerm (response : StoreResponse) : Term :=
  ItemResponse.toTerm casTerm response

abbrev RemoveResponse := ItemResponse Unit

def RemoveResponse.toTerm (response : RemoveResponse) : Term :=
  ItemResponse.toTerm (fun _ => .atom "ok") response

abbrev ArithmeticResponse := ItemResponse ArithmeticPayload

def ArithmeticPayload.toTerm (payload : ArithmeticPayload) : Term :=
  .tuple [.atom "ok", .int payload.cas.val, .int payload.value.val]

def ArithmeticResponse.toTerm (response : ArithmeticResponse) : Term :=
  ItemResponse.toTerm ArithmeticPayload.toTerm response

abbrev DurabilityResponse := ItemResponse LcbCas

def DurabilityResponse.toTerm (response : DurabilityResponse) : Term :=
  ItemResponse.toTerm casTerm response

/-! ## Responses to a whole operation -/

/-- `MultiResponse<ResponseT>`: a status and the responses added so far. -/
structure MultiResponse (R : Type) where
  err : Option LcbError
  responses : List R

namespace MultiResponse

variable {R : Type}

/-- The constructor from `lcb_error_t`. -/
def ofStatus (err : Option LcbError) : MultiResponse R :=
  { err, responses := [] }

def add (multi : MultiResponse R) (response : R) : MultiResponse R :=
  { multi with responses := multi.responses ++ [response] }

def toTerm (responseTerm : R → Term) (multi : MultiResponse R) : Term :=
  match multi.err with
  | none => .tuple [.atom "ok", .list (multi.responses.map responseTerm)]
  | some err => err.toTerm

theorem foldl_add (multi : MultiResponse R) (responses : List R) :
    responses.foldl add multi =
      { multi with responses := multi.responses ++ responses } := by
  induction responses generalizing multi with
  | nil => simp
  | cons response responses ih => simp [ih, add]

end MultiResponse

/-- `HttpResponse`.  The source leaves `m_status` uninitialised until
`setStatus`. -/
structure HttpResponse where
  err : Option LcbError
  status : ℕ
  body : Bytes

namespace HttpResponse

def ofStatus (uninitialised : ℕ) (err : Option LcbError) : HttpResponse :=
  { err, status := uninitialised, body := [] }

def setError (response : HttpResponse) (err : Option LcbError) : HttpResponse :=
  { response with err }

def setStatus (response : HttpResponse) (status : ℕ) : HttpResponse :=
  { response with status }

/-- `setBody` appends, so chunks delivered one after the other add up. -/
def setBody (response : HttpResponse) (body : Bytes) : HttpResponse :=
  { response with body := response.body ++ body }

def toTerm (response : HttpResponse) : Term :=
  match response.err with
  | none =>
      .tuple [.atom "ok", .int response.status, .binary response.body]
  | some err => err.toTerm

end HttpResponse

end Cberl
