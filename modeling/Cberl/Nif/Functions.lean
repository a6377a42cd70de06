import Cberl.Nif.Requests
import Cberl.Nifpp.Denotation

/-!
# The NIF functions

Each request NIF converts its arguments, posts one handler to the worker's
`io_service` and answers `{ok, ReqId}`.  A failed conversion throws `badarg`,
and an exception does not undo what was posted before it; the state monad under
the exception monad keeps that order visible.
-/

namespace Cberl

variable [LcbTypes]

abbrev Pid := ℕ

/-- `std::tuple<int, int, int>` -/
abbrev RequestId := ℤ × ℤ × ℤ

/-- `NifCTX`: the process to answer and the id of the request. -/
structure NifCTX where
  reqPid : Pid
  reqId : RequestId

/-- The operation a posted handler runs on its connection. -/
inductive Operation where
  | get (requests : List GetRequest)
  | store (requests : List StoreRequest)
  | remove (requests : List RemoveRequest)
  | arithmetic (requests : List ArithmeticRequest)
  | http (request : HttpRequest)
  | durability (requests : List DurabilityRequest)
      (options : DurabilityRequestOptions)

/-- A handler posted to the `io_service`. -/
structure Job where
  ctx : NifCTX
  connection : ℕ
  operation : Operation

/-- A NIF body: it may throw, and it appends to the queue of posted handlers. -/
abbrev NifM := ExceptT Raise (StateM (List Job))

/-- `nifpp::get<T>`: the converted value, or an exception. -/
def nifppGet {α : Type} : Option α → NifM α
  | some value => pure value
  | none => throw .badarg

/-- `asio::post` -/
def post (job : Job) : NifM Unit :=
  modify (· ++ [job])

/-- The body the five batch NIFs share. -/
def batchNif (fields : List FieldType)
    (operation : List (RawTuple fields) → Operation)
    (ctx : NifCTX) (connection : ℕ) (requests : Term) : NifM RequestId := do
  let rows ← nifppGet (getVector fields requests)
  post { ctx, connection, operation := operation rows }
  return ctx.reqId

def getNif : NifCTX → ℕ → Term → NifM RequestId :=
  batchNif GetRequest.Raw fun rows => .get (rows.map GetRequest.ofRaw)

def storeNif : NifCTX → ℕ → Term → NifM RequestId :=
  batchNif StoreRequest.Raw fun rows => .store (rows.map StoreRequest.ofRaw)

def removeNif : NifCTX → ℕ → Term → NifM RequestId :=
  batchNif RemoveRequest.Raw fun rows => .remove (rows.map RemoveRequest.ofRaw)

def arithmeticNif : NifCTX → ℕ → Term → NifM RequestId :=
  batchNif ArithmeticRequest.Raw fun rows =>
    .arithmetic (rows.map ArithmeticRequest.ofRaw)

def httpNif (ctx : NifCTX) (connection : ℕ) (request : Term) :
    NifM RequestId := do
  let row ← nifppGet (getTuple HttpRequest.Raw request)
  post { ctx, connection, operation := .http (HttpRequest.ofRaw row) }
  return ctx.reqId

def durabilityNif (ctx : NifCTX) (connection : ℕ) (requests options : Term) :
    NifM RequestId := do
  let rows ← nifppGet (getVector DurabilityRequest.Raw requests)
  let row ← nifppGet (getTuple DurabilityRequestOptions.Raw options)
  post
    { ctx
      connection
      operation := .durability (rows.map DurabilityRequest.ofRaw)
        (DurabilityRequestOptions.ofRaw row) }
  return ctx.reqId

/-- `{Function, Args}` as the functions of `cberl.erl` build it. -/
inductive Request where
  | get (requests : Term)
  | store (requests : Term)
  | remove (requests : Term)
  | arithmetic (requests : Term)
  | http (request : Term)
  | durability (requests options : Term)

/-- `apply(cberl_nif, Function, [From, Client, Connection | Args])` -/
def applyNif (ctx : NifCTX) (connection : ℕ) : Request → NifM RequestId
  | .get requests => getNif ctx connection requests
  | .store requests => storeNif ctx connection requests
  | .remove requests => removeNif ctx connection requests
  | .arithmetic requests => arithmeticNif ctx connection requests
  | .http request => httpNif ctx connection request
  | .durability requests options =>
      durabilityNif ctx connection requests options

/-! ## What one NIF call does -/

/-- The operation a request converts to, when every argument converts. -/
def Request.operation : Request → Option Operation
  | .get requests =>
      (getVector GetRequest.Raw requests).map fun rows =>
        .get (rows.map GetRequest.ofRaw)
  | .store requests =>
      (getVector StoreRequest.Raw requests).map fun rows =>
        .store (rows.map StoreRequest.ofRaw)
  | .remove requests =>
      (getVector RemoveRequest.Raw requests).map fun rows =>
        .remove (rows.map RemoveRequest.ofRaw)
  | .arithmetic requests =>
      (getVector ArithmeticRequest.Raw requests).map fun rows =>
        .arithmetic (rows.map ArithmeticRequest.ofRaw)
  | .http request =>
      (getTuple HttpRequest.Raw request).map fun row =>
        .http (HttpRequest.ofRaw row)
  | .durability requests options =>
      (getVector DurabilityRequest.Raw requests).bind fun rows =>
        (getTuple DurabilityRequestOptions.Raw options).map fun row =>
          .durability (rows.map DurabilityRequest.ofRaw)
            (DurabilityRequestOptions.ofRaw row)

theorem batchNif_run (fields : List FieldType)
    (operation : List (RawTuple fields) → Operation)
    (ctx : NifCTX) (connection : ℕ) (requests : Term) (queue : List Job) :
    (batchNif fields operation ctx connection requests).run.run queue =
      match (getVector fields requests).map operation with
      | some operation => (.ok ctx.reqId, queue ++ [⟨ctx, connection, operation⟩])
      | none => (.error .badarg, queue) := by
  unfold batchNif
  cases getVector fields requests <;> rfl

/-- One NIF call either posts exactly the converted operation and returns the
request id, or raises `badarg` and posts nothing. -/
theorem applyNif_run (ctx : NifCTX) (connection : ℕ) (request : Request)
    (queue : List Job) :
    (applyNif ctx connection request).run.run queue =
      match request.operation with
      | some operation => (.ok ctx.reqId, queue ++ [⟨ctx, connection, operation⟩])
      | none => (.error .badarg, queue) := by
  cases request with
  | get requests => exact batchNif_run _ _ ctx connection requests queue
  | store requests => exact batchNif_run _ _ ctx connection requests queue
  | remove requests => exact batchNif_run _ _ ctx connection requests queue
  | arithmetic requests => exact batchNif_run _ _ ctx connection requests queue
  | http request =>
      simp only [applyNif, httpNif, Request.operation]
      cases getTuple HttpRequest.Raw request <;> rfl
  | durability requests options =>
      simp only [applyNif, durabilityNif, Request.operation]
      cases getVector DurabilityRequest.Raw requests with
      | none => rfl
      | some rows =>
          cases getTuple DurabilityRequestOptions.Raw options <;> rfl

end Cberl
