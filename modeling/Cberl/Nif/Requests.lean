import Cberl.Nifpp.Conversion

/-!
# Request objects

The `Raw` tuple layouts and the request classes built from them.  The width of
`lcb_time_t` is fixed by the installed libcouchbase, not by this repository, so
it is a parameter.
-/

namespace Cberl

/-- The integer type libcouchbase declares for `lcb_time_t`. -/
class LcbTypes where
  time : IntType

abbrev LcbTime [LcbTypes] := (LcbTypes.time).Val
abbrev LcbCas := IntType.uint64.Val

variable [LcbTypes]

/-! ## Get -/

structure GetRequest where
  key : Bytes
  expiry : LcbTime
  lock : Bool

abbrev GetRequest.Raw : List FieldType :=
  [.string, .integer LcbTypes.time, .bool]

def GetRequest.ofRaw : RawTuple GetRequest.Raw → GetRequest
  | (key, expiry, lock, ()) => { key, expiry, lock }

/-! ## Store -/

/-- `operation` keeps the integer that the source casts to `lcb_storage_t`. -/
structure StoreRequest where
  operation : IntType.int32.Val
  key : Bytes
  value : Bytes
  flags : IntType.uint32.Val
  cas : LcbCas
  expiry : LcbTime

abbrev StoreRequest.Raw : List FieldType :=
  [.integer .int32, .string, .string, .integer .uint32, .integer .uint64,
    .integer LcbTypes.time]

def StoreRequest.ofRaw : RawTuple StoreRequest.Raw → StoreRequest
  | (operation, key, value, flags, cas, expiry, ()) =>
      { operation, key, value, flags, cas, expiry }

/-! ## Remove -/

structure RemoveRequest where
  key : Bytes
  cas : LcbCas

abbrev RemoveRequest.Raw : List FieldType :=
  [.string, .integer .uint64]

def RemoveRequest.ofRaw : RawTuple RemoveRequest.Raw → RemoveRequest
  | (key, cas, ()) => { key, cas }

/-! ## Arithmetic -/

structure ArithmeticRequest where
  key : Bytes
  delta : IntType.int64.Val
  create : Bool
  initial : IntType.uint64.Val
  expiry : LcbTime

abbrev ArithmeticRequest.Raw : List FieldType :=
  [.string, .integer .int64, .bool, .integer .uint64, .integer LcbTypes.time]

def ArithmeticRequest.ofRaw : RawTuple ArithmeticRequest.Raw → ArithmeticRequest
  | (key, delta, create, initial, expiry, ()) =>
      { key, delta, create, initial, expiry }

/-! ## HTTP -/

/-- `type` and `method` keep the integers that the source casts to
`lcb_http_type_t` and `lcb_http_method_t`. -/
structure HttpRequest where
  type : IntType.int32.Val
  method : IntType.int32.Val
  path : Bytes
  contentType : Bytes
  body : Bytes

abbrev HttpRequest.Raw : List FieldType :=
  [.integer .int32, .integer .int32, .string, .string, .string]

def HttpRequest.ofRaw : RawTuple HttpRequest.Raw → HttpRequest
  | (type, method, path, contentType, body, ()) =>
      { type, method, path, contentType, body }

/-! ## Durability -/

structure DurabilityRequest where
  key : Bytes
  cas : LcbCas

abbrev DurabilityRequest.Raw : List FieldType :=
  [.string, .integer .uint64]

def DurabilityRequest.ofRaw : RawTuple DurabilityRequest.Raw → DurabilityRequest
  | (key, cas, ()) => { key, cas }

structure DurabilityRequestOptions where
  persistTo : IntType.int32.Val
  replicateTo : IntType.int32.Val

abbrev DurabilityRequestOptions.Raw : List FieldType :=
  [.integer .int32, .integer .int32]

def DurabilityRequestOptions.ofRaw :
    RawTuple DurabilityRequestOptions.Raw → DurabilityRequestOptions
  | (persistTo, replicateTo, ()) => { persistTo, replicateTo }

end Cberl
