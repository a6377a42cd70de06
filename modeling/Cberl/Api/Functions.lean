import Cberl.Api.Codec
import Cberl.Nif.Functions

/-!
# The functions of module `cberl`

The request types are the exported Erlang types: CAS values, expiries and
counter defaults are arbitrary non-negative integers, deltas arbitrary
integers.  What `call/3` hands back is a parameter; the casts it makes are
recorded.
-/

namespace Cberl.Api

open Cberl Cberl.Support

/-! ## Exported types -/

structure GetRequest where
  key : Bytes
  expiry : ℕ
  lock : Bool

structure StoreRequest where
  operation : StoreOperation
  key : Bytes
  value : Term
  encoder : Encoder
  cas : ℕ
  expiry : ℕ

structure RemoveRequest where
  key : Bytes
  cas : ℕ

/-- `default` is `undefined` or a non-negative integer. -/
structure ArithmeticRequest where
  key : Bytes
  delta : ℤ
  default : Option ℕ
  expiry : ℕ

structure DurabilityRequest where
  key : Bytes
  cas : ℕ

/-- `-1 | non_neg_integer()` -/
abbrev NodeCount := {n : ℤ // -1 ≤ n}

structure DurabilityOptions where
  persistTo : NodeCount
  replicateTo : NodeCount

inductive HttpType where
  | view
  | management
  | raw

inductive HttpMethod where
  | get
  | post
  | put
  | delete

/-! ## Terms sent to the NIF -/

def GetRequest.toTerm (request : GetRequest) : Term :=
  .tuple [.binary request.key, .int request.expiry, boolAtom request.lock]

def RemoveRequest.toTerm (request : RemoveRequest) : Term :=
  .tuple [.binary request.key, .int request.cas]

/-- The tuple `bulk_arithmetic/3` builds: an undefined default becomes
`{false, 0}`. -/
def ArithmeticRequest.toTerm (request : ArithmeticRequest) : Term :=
  let (create, initial) : Bool × ℕ :=
    match request.default with
    | none => (false, 0)
    | some default => (true, default)
  .tuple
    [.binary request.key, .int request.delta, boolAtom create, .int initial,
      .int request.expiry]

def DurabilityRequest.toTerm (request : DurabilityRequest) : Term :=
  .tuple [.binary request.key, .int request.cas]

def DurabilityOptions.toTerm (options : DurabilityOptions) : Term :=
  .tuple [.int options.persistTo.val, .int options.replicateTo.val]

/-- The tuple `bulk_store/3` builds. -/
def StoreRequest.toTerm (codec : Codec) (request : StoreRequest) :
    Except Raise Term :=
  (codec.encode request.encoder request.value).map fun (encoderId, value) =>
    .tuple
      [.int (getStoreOperationId request.operation), .binary request.key,
        value, .int encoderId, .int request.cas, .int request.expiry]

def getHttpTypeId : HttpType → ℤ
  | .view => 0
  | .management => 1
  | .raw => 2

def getHttpMethodId : HttpMethod → ℤ
  | .get => 0
  | .post => 1
  | .put => 2
  | .delete => 3

/-! ## Calls -/

/-- An API function may raise, and it records the requests it casts. -/
abbrev ApiM := ExceptT Raise (StateM (List Request))

/-- `call/3`: cast the request and hand back what the two receives return. -/
def call (answer : Request → Term) (request : Request) : ApiM Term := do
  modify (· ++ [request])
  return answer request

/-- The result of a pure part of a function body. -/
def evaluate {α : Type} : Except Raise α → ApiM α
  | .ok value => pure value
  | .error raise => throw raise

def okTerm (value : Term) : Term :=
  .tuple [.atom "ok", value]

def errorTerm (reason : Term) : Term :=
  .tuple [.atom "error", reason]

/-! ## Bulk functions -/

/-- The fun `bulk_get/3` maps over the responses. -/
def decodeResponse (codec : Codec) : Term → Except Raise Term
  | .tuple [key, .tuple [.atom "ok", cas, flags, value]] =>
      (codec.decode flags value).map fun value =>
        .tuple [key, .tuple [.atom "ok", cas, value]]
  | .tuple [key, .tuple [.atom "error", reason]] =>
      .ok (.tuple [key, errorTerm reason])
  | _ => .error .functionClause

/-- What `bulk_get/3` makes of the result of `call/3`. -/
def decodeResponses (codec : Codec) : Term → Except Raise Term
  | .tuple [.atom "ok", responses] =>
      match responses.asList with
      | some responses =>
          (responses.mapM (decodeResponse codec)).map fun responses =>
            okTerm (.list responses)
      | none => .error .functionClause
  | .tuple [.atom "error", reason] => .ok (errorTerm reason)
  | _ => .error .caseClause

section Calls

variable (codec : Codec) (answer : Request → Term)

def bulkGet (requests : List GetRequest) : ApiM Term := do
  let result ← call answer (.get (.list (requests.map GetRequest.toTerm)))
  evaluate (decodeResponses codec result)

def bulkStore (requests : List StoreRequest) : ApiM Term := do
  let requests ← evaluate (requests.mapM (StoreRequest.toTerm codec))
  call answer (.store (.list requests))

def bulkRemove (requests : List RemoveRequest) : ApiM Term :=
  call answer (.remove (.list (requests.map RemoveRequest.toTerm)))

def bulkArithmetic (requests : List ArithmeticRequest) : ApiM Term :=
  call answer (.arithmetic (.list (requests.map ArithmeticRequest.toTerm)))

def bulkDurability (requests : List DurabilityRequest)
    (options : DurabilityOptions) : ApiM Term :=
  call answer
    (.durability (.list (requests.map DurabilityRequest.toTerm)) options.toTerm)

def http (type : HttpType) (method : HttpMethod)
    (path contentType body : Bytes) : ApiM Term :=
  call answer
    (.http (.tuple
      [.int (getHttpTypeId type), .int (getHttpMethodId method), .binary path,
        .binary contentType, .binary body]))

/-! ## Functions on one key -/

/-- The results the single-key functions match on, besides `{error, _}`. -/
inductive ResultShape where
  | ok
  | okCas
  | okCasValue

def ResultShape.accepts : ResultShape → Term → Bool
  | ok, .atom "ok" => true
  | okCas, .tuple [.atom "ok", _] => true
  | okCasValue, .tuple [.atom "ok", _, _] => true
  | _, .tuple [.atom "error", _] => true
  | _, _ => false

/-- The `case` of the single-key functions: one response for the key asked
for, or an error for the whole batch. -/
def single (shape : ResultShape) (key : Bytes) : Term → Except Raise Term
  | .tuple [.atom "ok", .cons (.tuple [.binary responseKey, result]) .nil] =>
      if responseKey = key ∧ shape.accepts result then .ok result
      else .error .caseClause
  | .tuple [.atom "error", reason] => .ok (errorTerm reason)
  | _ => .error .caseClause

def get (request : GetRequest) : ApiM Term := do
  let result ← bulkGet codec answer [request]
  evaluate (single .okCasValue request.key result)

def store (request : StoreRequest) : ApiM Term := do
  let result ← bulkStore codec answer [request]
  evaluate (single .okCas request.key result)

def remove (request : RemoveRequest) : ApiM Term := do
  let result ← bulkRemove answer [request]
  evaluate (single .ok request.key result)

def arithmetic (request : ArithmeticRequest) : ApiM Term := do
  let result ← bulkArithmetic answer [request]
  evaluate (single .okCasValue request.key result)

def durability (request : DurabilityRequest) (options : DurabilityOptions) :
    ApiM Term := do
  let result ← bulkDurability answer [request] options
  evaluate (single .okCas request.key result)

end Calls

/-! ## What one API call casts and returns -/

section Runs

variable {codec : Codec} {answer : Request → Term} (casts : List Request)

@[simp] theorem evaluate_run {α : Type} (result : Except Raise α) :
    (evaluate result).run.run casts = (result, casts) := by
  cases result <;> rfl

theorem bulkGet_run (requests : List GetRequest) :
    (bulkGet codec answer requests).run.run casts =
      let request := .get (.list (requests.map GetRequest.toTerm))
      (decodeResponses codec (answer request), casts ++ [request]) := by
  dsimp only
  cases hresult : decodeResponses codec
      (answer (.get (.list (requests.map GetRequest.toTerm)))) <;>
    simp [bulkGet, call, evaluate, hresult] <;> rfl

/-- Encoding happens before the cast: one value that cannot be encoded, and
`bulk_store/3` casts nothing. -/
theorem bulkStore_run (requests : List StoreRequest) :
    (bulkStore codec answer requests).run.run casts =
      match requests.mapM (StoreRequest.toTerm codec) with
      | .ok requests =>
          (.ok (answer (.store (.list requests))),
            casts ++ [.store (.list requests)])
      | .error raise => (.error raise, casts) := by
  unfold bulkStore
  cases requests.mapM (StoreRequest.toTerm codec) <;> rfl

end Runs

/-- A `bulk_store` with a value that cannot be encoded casts nothing. -/
theorem bulkStore_casts_nothing
    {codec : Codec} {requests : List StoreRequest}
    (hvalue : ∃ request ∈ requests, ∃ raise,
      codec.encode request.encoder request.value = .error raise)
    (answer : Request → Term) (casts : List Request) :
    ∃ raise, (bulkStore codec answer requests).run.run casts =
      (.error raise, casts) := by
  rw [bulkStore_run]
  cases hterms : requests.mapM (StoreRequest.toTerm codec) with
  | error raise => exact ⟨raise, rfl⟩
  | ok terms =>
      obtain ⟨request, hmem, raise, hraise⟩ := hvalue
      rw [mapM_except_eq_ok_iff] at hterms
      obtain ⟨term, hterm⟩ := exists_forall₂_iff.mp ⟨terms, hterms⟩ request hmem
      rw [StoreRequest.toTerm, hraise] at hterm
      cases hterm

end Cberl.Api
