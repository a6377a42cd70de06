import Cberl.Api.Contract
import Cberl.Connection.Operations

/-!
# Encoder output as iodata

An encoder may answer a nested list of binaries and bytes, which
`iolist_to_binary/1` would flatten.  `bulk_store/3` sends the output on as it
is, and the string conversion of the NIF reads two of its shapes: a binary and
a flat list of bytes.  On these it agrees with `iolist_to_binary/1`; any other
shape makes the NIF reject the whole batch.
-/

namespace Cberl

/-- `iolist_to_binary/1`: bytes and iodata as elements, iodata as tail. -/
def iolistToBinary : Term → Option Bytes
  | .binary bytes => some bytes
  | .nil => some []
  | .cons head tail =>
      let front :=
        match latin1Code head with
        | some byte => some [byte]
        | none => iolistToBinary head
      match front, iolistToBinary tail with
      | some front, some back => some (front ++ back)
      | _, _ => none
  | _ => none

/-- The shapes of iodata that the string conversion reads. -/
def PlainIodata (data : Term) : Prop :=
  ∃ bytes, data = .binary bytes ∨ data = .list (bytes.map codeTerm)

theorem plainIodata_iff {data : Term} :
    PlainIodata data ↔ ∃ bytes, getString data = some bytes := by
  simp only [PlainIodata, getString_eq_some_iff]

theorem iolistToBinary_codes (bytes : Bytes) :
    iolistToBinary (.list (bytes.map codeTerm)) = some bytes := by
  induction bytes with
  | nil => rfl
  | cons byte bytes ih =>
      have hbyte : latin1Code (codeTerm byte) = some byte :=
        latin1Code_eq_some_iff.mpr rfl
      rw [List.map_cons, Term.list, iolistToBinary, ih, hbyte]
      rfl

/-- Where the string conversion reads something, it reads what
`iolist_to_binary/1` gives. -/
theorem iolistToBinary_of_getString {data : Term} {bytes : Bytes}
    (h : getString data = some bytes) : iolistToBinary data = some bytes := by
  rcases getString_eq_some_iff.mp h with rfl | rfl
  · rfl
  · exact iolistToBinary_codes bytes

end Cberl

namespace Cberl.Api

open Cberl Cberl.Support

/-- The encoder output of a request, as bytes. -/
def StoreRequest.output (codec : Codec) (request : StoreRequest) :
    Option Bytes :=
  match codec.encode request.encoder request.value with
  | .ok (_, data) => iolistToBinary data
  | .error _ => none

variable [LcbTypes]

/-- `bulk_store/3` casts one request, and the handler the NIF posts for it hands
libcouchbase one command per store request, with the bytes of its encoder
output. -/
def HandsOverOutput (codec : Codec) (requests : List StoreRequest) : Prop :=
  ∀ answer casts, ∃ request stored,
    ((bulkStore codec answer requests).run.run casts).2 = casts ++ [request] ∧
    request.operation = some (.store stored) ∧
    List.Forall₂
      (fun request cmd => request.output codec = some cmd.bytes)
      requests (stored.map StoreCmd.ofRequest)

/-- The encoder answers a shape the NIF reads, and the integers fit their C
types. -/
def StoreRequest.Readable (codec : Codec) (request : StoreRequest) : Prop :=
  (∃ flags data, codec.encode request.encoder request.value =
      .ok (flags, data) ∧ PlainIodata data) ∧
    IntType.uint64.Contains request.cas ∧
    LcbTypes.time.Contains request.expiry

variable {codec : Codec} {requests : List StoreRequest}

theorem StoreRequest.readable_iff_fits {request : StoreRequest} :
    request.Readable codec ↔ request.Fits codec := by
  simp only [Readable, Fits, plainIodata_iff, Option.isSome_iff_exists]

/-- A row the NIF reads carries the output of its request. -/
theorem output_of_row {request : StoreRequest} {term : Term}
    {row : RawTuple Cberl.StoreRequest.Raw}
    (hterm : request.toTerm codec = .ok term)
    (hrow : getTuple Cberl.StoreRequest.Raw term = some row) :
    request.output codec =
      some (StoreCmd.ofRequest (Cberl.StoreRequest.ofRaw row)).bytes := by
  obtain ⟨⟨flags, data⟩, hencode, -⟩ := except_map_eq_ok_iff.mp hterm
  rw [getTuple_storeRequest hencode hterm] at hrow
  obtain ⟨bytes, hbytes, hvalues⟩ := Option.bind_eq_some_iff.mp hrow
  rw [Option.dite_none_right_eq_some] at hvalues
  obtain ⟨hranges, hvalues⟩ := hvalues
  obtain rfl := Option.some.inj hvalues
  rw [StoreRequest.output, hencode]
  exact iolistToBinary_of_getString hbytes

theorem outputs_of_rows {terms : List Term}
    {rows : List (RawTuple Cberl.StoreRequest.Raw)}
    (hterms : List.Forall₂ (fun request term => request.toTerm codec = .ok term)
      requests terms)
    (hrows : List.Forall₂
      (fun term row => getTuple Cberl.StoreRequest.Raw term = some row)
      terms rows) :
    List.Forall₂ (fun request cmd => request.output codec = some cmd.bytes)
      requests
      ((rows.map Cberl.StoreRequest.ofRaw).map StoreCmd.ofRequest) := by
  induction hterms generalizing rows with
  | nil =>
      obtain rfl := List.forall₂_nil_left_iff.mp hrows
      exact .nil
  | cons hterm _ ih =>
      obtain ⟨row, rest, hrow, hrest, rfl⟩ := List.forall₂_cons_left_iff.mp hrows
      exact .cons (output_of_row hterm hrow) (ih hrest)

/-- `bulk_store/3` hands over the output of every encoder byte for byte if and
only if each of these outputs is a binary or a flat list of bytes, and the
integers of the requests fit. -/
theorem bulkStore_hands_over_iff (codec : Codec) (requests : List StoreRequest) :
    HandsOverOutput codec requests ↔
      ∀ request ∈ requests, request.Readable codec := by
  simp only [StoreRequest.readable_iff_fits]
  rw [storeRequests_fit_iff]
  constructor
  · intro h
    obtain ⟨request, stored, hcast, hoperation, -⟩ := h (fun _ => .nil) []
    rw [bulkStore_run] at hcast
    cases hterms : requests.mapM (StoreRequest.toTerm codec) with
    | error raise =>
        rw [hterms] at hcast
        cases hcast
    | ok terms =>
        rw [hterms] at hcast
        obtain rfl := (List.cons.inj hcast).1
        refine ⟨terms, rfl, ?_⟩
        obtain ⟨rows, hrows, -⟩ := Option.map_eq_some_iff.mp hoperation
        rw [hrows]
        rfl
  · rintro ⟨terms, hterms, hsome⟩ answer casts
    obtain ⟨rows, hrows⟩ := Option.isSome_iff_exists.mp hsome
    refine ⟨.store (.list terms), rows.map Cberl.StoreRequest.ofRaw, ?_, ?_, ?_⟩
    · rw [bulkStore_run, hterms]
    · rw [Request.operation, hrows]
      rfl
    · rw [mapM_except_eq_ok_iff] at hterms
      have heach := (@getVector_eq_some_iff_forall₂ _ _ id terms rows).mp
        (by rwa [List.map_id])
      exact outputs_of_rows hterms heach

/-- A JSON library that answers with a binary inside a list. -/
def nestedCodec : Codec :=
  { Codec.digits with jiffyEncode := fun _ => .ok (.list [.binary [49]]) }

def nestedRequest : StoreRequest :=
  { operation := .set
    key := [107]
    value := .int 1
    encoder := .json
    cas := 0
    expiry := 0 }

omit [LcbTypes] in
/-- The output is iodata of one byte, and the NIF rejects the batch. -/
theorem nestedRequest_not_handed_over :
    let _ : LcbTypes := ⟨.uint32⟩
    nestedRequest.output nestedCodec = some [49] ∧
      ¬ HandsOverOutput nestedCodec [nestedRequest] := by
  intro _
  refine ⟨rfl, fun h => ?_⟩
  obtain ⟨request, stored, hcast, hoperation, -⟩ := h (fun _ => .nil) []
  obtain rfl := (List.cons.inj hcast).1
  cases hoperation

end Cberl.Api
