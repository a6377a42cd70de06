import Cberl.Api.BulkCalls
import Cberl.Store.Bucket

/-!
# The reference store

What a key-value session is for: a map from keys to Erlang values with their
CAS, without encodings, tuples, commands or callbacks.
-/

namespace Cberl.Store

open Cberl Cberl.Support

abbrev RefStore := Bytes → Option (Term × LcbCas)

/-- A call of a key-value session.  A get has expiry 0 and does not lock. -/
inductive Call where
  | store (requests : List Api.StoreRequest)
  | get (keys : List Bytes)
  | remove (requests : List Api.RemoveRequest)

namespace Call

/-- The call of the exported bulk function. -/
def bulk : Call → Api.BulkCall
  | store requests => .store requests
  | get keys =>
      .get (keys.map fun key => { key, expiry := 0, lock := false })
  | remove requests => .remove requests

/-- The number of requests of the call. -/
def size : Call → ℕ
  | store requests => requests.length
  | get keys => keys.length
  | remove requests => requests.length

end Call

/-! ## Answers to one request -/

def refStore (value : Option (Term × LcbCas))
    (entry : Api.StoreRequest × LcbCas) : Option (Term × LcbCas) × Term :=
  match storeVerdict (getStoreOperationId entry.1.operation)
    (value.map Prod.snd) entry.1.cas with
  | some err => (value, err.toTerm)
  | none => (some (entry.1.value, entry.2), casTerm entry.2)

def refGet (value : Option (Term × LcbCas)) (_ : Bytes) :
    Option (Term × LcbCas) × Term :=
  match value with
  | none => (none, LcbError.keyEnoent.toTerm)
  | some (value, cas) =>
      (some (value, cas), .tuple [.atom "ok", .int cas.val, value])

def refRemove (value : Option (Term × LcbCas)) (request : Api.RemoveRequest) :
    Option (Term × LcbCas) × Term :=
  match value with
  | none => (none, LcbError.keyEnoent.toTerm)
  | some (value, cas) =>
      match casVerdict request.cas cas with
      | some err => (some (value, cas), err.toTerm)
      | none => (none, .atom "ok")

/-! ## Answers to a call -/

/-- The entry `{Key, Answer}`. -/
def refEntry {α : Type} (key : α → Bytes) (entry : α × Term) : Term :=
  .tuple [.binary (key entry.1), entry.2]

/-- The store after a call and the entries of its reply, in request order. -/
def Call.answer (fresh : List LcbCas) (store : RefStore) :
    Call → RefStore × List Term
  | .store requests =>
      let (store, log) := serve refStore (fun entry => entry.1.key) store
        (requests.zip fresh)
      (store, log.map (refEntry fun entry => entry.1.key))
  | .get keys =>
      let (store, log) := serve refGet id store keys
      (store, log.map (refEntry id))
  | .remove requests =>
      let (store, log) := serve refRemove Api.RemoveRequest.key store requests
      (store, log.map (refEntry Api.RemoveRequest.key))

/-! ## The bucket as a reference store -/

/-- The item decodes under its flags to the value, and has its CAS. -/
def RepresentsAt (codec : Codec) (item : Option Item)
    (value : Option (Term × LcbCas)) : Prop :=
  match item, value with
  | none, none => True
  | some item, some (value, cas) =>
      item.cas = cas ∧
        codec.decode (.int item.flags.val) (.binary item.bytes) = .ok value
  | _, _ => False

def Represents (codec : Codec) (bucket : Bucket) (store : RefStore) : Prop :=
  ∀ key, RepresentsAt codec (bucket key) (store key)

/-- The encoder turns the value into a binary that the decoder turns back. -/
def Storable (codec : Codec) : Encoder → Term → Prop
  | .none, value => ∃ bytes, value = .binary bytes
  | .json, value => ∃ bytes,
      codec.jiffyEncode value = .ok (.binary bytes) ∧
        codec.jiffyDecode bytes = .ok value
  | .raw, value => codec.binaryToTerm (codec.termToBinary value) = .ok value

variable [LcbTypes]

/-- A store of the session: an add, a replace or a set of a storable value,
with integers in range. -/
structure PlainStore (codec : Codec) (request : Api.StoreRequest) : Prop where
  operation : request.operation ≠ .append ∧ request.operation ≠ .prepend
  storable : Storable codec request.encoder request.value
  cas : IntType.uint64.Contains request.cas
  expiry : LcbTypes.time.Contains request.expiry

def Call.Plain (codec : Codec) : Call → Prop
  | .store requests => ∀ request ∈ requests, PlainStore codec request
  | .get _ => True
  | .remove requests => ∀ request ∈ requests, IntType.uint64.Contains request.cas

end Cberl.Store
