import Cberl.Store.Simulation
import Mathlib.Data.List.Induction

/-!
# Encoded pieces

The bytes a sequence of sets, appends and prepends leaves at a key, and what
they decode to.  Uninterpreted bytes survive concatenation.  Encoded values do
not: the external term format is read up to the end of its first term, so
everything behind the front piece is invisible, and behind a JSON value nothing
may follow, except that the digits of a number may run on.
-/

namespace Cberl.Store

open Cberl Cberl.Support

/-! ## Pieces -/

/-- The bytes a store request hands to libcouchbase. -/
def pieceOf (codec : Codec) (request : Api.StoreRequest) : Option Bytes :=
  match codec.encode request.encoder request.value with
  | .ok (_, data) => getString data
  | .error _ => none

/-- What a set, an append or a prepend makes of the stored bytes. -/
def join (operation : StoreOperation) (stored piece : Bytes) : Bytes :=
  match operation with
  | .append => stored ++ piece
  | .prepend => piece ++ stored
  | _ => piece

/-- The pieces of a sequence of requests, concatenated in the order the
operations imply. -/
def layout (codec : Codec) (requests : List Api.StoreRequest) : Bytes :=
  requests.foldl
    (fun stored request =>
      join request.operation stored ((pieceOf codec request).getD []))
    []

theorem layout_concat (codec : Codec) (requests : List Api.StoreRequest)
    (request : Api.StoreRequest) :
    layout codec (requests ++ [request]) =
      join request.operation (layout codec requests)
        ((pieceOf codec request).getD []) := by
  rw [layout, List.foldl_append]
  rfl

/-- The operations that the sequences consist of. -/
def Concatenates (operation : StoreOperation) : Prop :=
  operation = .set ∨ operation = .append ∨ operation = .prepend

/-- The sequence starts with a set. -/
def StartsWithSet (requests : List Api.StoreRequest) : Prop :=
  ∃ request, requests.head? = some request ∧ request.operation = .set

theorem StartsWithSet.concat {requests : List Api.StoreRequest}
    {request : Api.StoreRequest} (h : StartsWithSet (requests ++ [request])) :
    request.operation = .set ∨ StartsWithSet requests := by
  obtain ⟨first, hhead, hfirst⟩ := h
  cases requests with
  | nil =>
      left
      rwa [← Option.some.inj hhead] at hfirst
  | cons _ rest => exact Or.inr ⟨first, hhead, hfirst⟩

/-- No append or prepend follows the last set. -/
def EndsWithSet (requests : List Api.StoreRequest) : Prop :=
  ∃ request, requests.getLast? = some request ∧ request.operation = .set

theorem layout_of_endsWithSet {requests : List Api.StoreRequest}
    (codec : Codec) (h : EndsWithSet requests) :
    ∃ request ∈ requests,
      layout codec requests = (pieceOf codec request).getD [] := by
  obtain ⟨request, hlast, hset⟩ := h
  obtain ⟨before, rfl⟩ := List.getLast?_eq_some_iff.mp hlast
  refine ⟨request, by simp, ?_⟩
  rw [layout_concat, hset]
  rfl

/-- The request whose piece comes first: the last set or prepend. -/
def frontOf (requests : List Api.StoreRequest) : Option Api.StoreRequest :=
  (requests.filter fun request => request.operation ≠ .append).getLast?

theorem frontOf_concat (requests : List Api.StoreRequest)
    {request : Api.StoreRequest} (h : request.operation ≠ .append) :
    frontOf (requests ++ [request]) = some request := by
  rw [frontOf, List.filter_append, List.filter_singleton]
  simp [h]

theorem frontOf_concat_append (requests : List Api.StoreRequest)
    {request : Api.StoreRequest} (h : request.operation = .append) :
    frontOf (requests ++ [request]) = frontOf requests := by
  rw [frontOf, frontOf, List.filter_append, List.filter_singleton]
  simp [h]

theorem mem_of_frontOf {requests : List Api.StoreRequest}
    {front : Api.StoreRequest} (h : frontOf requests = some front) :
    front ∈ requests :=
  List.mem_of_mem_filter (List.mem_of_getLast? h)

/-- The stored bytes are the piece of the last set or prepend with the pieces
of others behind it, and unless the sequence ends with a set there are others. -/
theorem exists_front {codec : Codec} {requests : List Api.StoreRequest}
    (hset : StartsWithSet requests)
    (hoperation : ∀ request ∈ requests, Concatenates request.operation) :
    ∃ front, frontOf requests = some front ∧
      ∃ others : List Api.StoreRequest,
        (∀ other ∈ others, other ∈ requests) ∧
          layout codec requests = (pieceOf codec front).getD [] ++
            others.flatMap (fun other => (pieceOf codec other).getD []) ∧
          (¬ EndsWithSet requests → others ≠ []) := by
  induction requests using List.reverseRecOn with
  | nil =>
      obtain ⟨_, hhead, -⟩ := hset
      cases hhead
  | append_singleton requests last ih =>
      rw [List.forall_mem_append, List.forall_mem_singleton] at hoperation
      rw [layout_concat]
      by_cases hop : last.operation = .set
      · refine ⟨last, frontOf_concat _ (by simp [hop]), [], by simp, ?_,
          fun hends => absurd ⟨last, by simp, hop⟩ hends⟩
        rw [hop, List.flatMap_nil, List.append_nil]
        rfl
      obtain ⟨front, hfront, others, hothers, hlayout, -⟩ :=
        ih (hset.concat.resolve_left hop) hoperation.1
      rcases hoperation.2.resolve_left hop with hop | hop
      · refine ⟨front, ?_, others ++ [last], ?_, ?_, fun _ => by simp⟩
        · rwa [frontOf_concat_append _ hop]
        · rw [List.forall_mem_append, List.forall_mem_singleton]
          exact ⟨fun other hmem => List.mem_append_left _ (hothers other hmem),
            by simp⟩
        · rw [hop, hlayout, join, List.append_assoc, List.flatMap_append,
            List.flatMap_singleton]
      · refine ⟨last, frontOf_concat _ (by simp [hop]), front :: others, ?_, ?_,
          fun _ => by simp⟩
        · rw [List.forall_mem_cons]
          exact ⟨List.mem_append_left _ (mem_of_frontOf hfront),
            fun other hmem => List.mem_append_left _ (hothers other hmem)⟩
        · rw [hop, hlayout, join, List.flatMap_cons]

/-! ## What the pieces decode to -/

/-- The bytes decode to a value whose encoding they are. -/
def Readable (codec : Codec) (encoder : Encoder) (bytes : Bytes) : Prop :=
  ∃ value,
    codec.decode (.int (Api.encoderFlags encoder).val) (.binary bytes) =
        .ok value ∧
      codec.encode encoder value =
        .ok ((Api.encoderFlags encoder).val, .binary bytes)

theorem readable_none (codec : Codec) (bytes : Bytes) :
    Readable codec .none bytes :=
  ⟨.binary bytes, rfl, rfl⟩

/-- The piece of a storable value is readable. -/
theorem readable_piece {codec : Codec} {request : Api.StoreRequest}
    (h : Storable codec request.encoder request.value) :
    ∃ bytes, pieceOf codec request = some bytes ∧
      codec.encode request.encoder request.value =
        .ok ((Api.encoderFlags request.encoder).val, .binary bytes) ∧
      Readable codec request.encoder bytes := by
  obtain ⟨bytes, hencode, hdecode⟩ := encode_of_storable h
  refine ⟨bytes, ?_, hencode, request.value, hdecode, hencode⟩
  rw [pieceOf, hencode]
  exact getString_binary bytes

theorem readable_of_endsWithSet {codec : Codec} {encoder : Encoder}
    {requests : List Api.StoreRequest}
    (hencoder : ∀ request ∈ requests, request.encoder = encoder)
    (hvalues : ∀ request ∈ requests, Storable codec encoder request.value)
    (hends : EndsWithSet requests) :
    Readable codec encoder (layout codec requests) := by
  obtain ⟨request, hmem, hlayout⟩ := layout_of_endsWithSet codec hends
  obtain rfl := hencoder request hmem
  obtain ⟨bytes, hpiece, -, hreadable⟩ := readable_piece (hvalues request hmem)
  rwa [hlayout, hpiece]

/-- The stored bytes are the piece of `front`, the last set or prepend, and
behind it the pieces of others of the requests. -/
def IsFront (codec : Codec) (requests : List Api.StoreRequest)
    (front : Api.StoreRequest) : Prop :=
  frontOf requests = some front ∧
    ∃ (bytes : Bytes) (others : List Api.StoreRequest),
      pieceOf codec front = some bytes ∧ others ≠ [] ∧
        (∀ other ∈ others, other ∈ requests) ∧
        layout codec requests = bytes ++
          others.flatMap fun other => (pieceOf codec other).getD []

theorem exists_isFront {codec : Codec} {encoder : Encoder}
    {requests : List Api.StoreRequest}
    (hencoder : ∀ request ∈ requests, request.encoder = encoder)
    (hoperation : ∀ request ∈ requests, Concatenates request.operation)
    (hvalues : ∀ request ∈ requests, Storable codec encoder request.value)
    (hset : StartsWithSet requests) (hends : ¬ EndsWithSet requests) :
    ∃ front, IsFront codec requests front := by
  obtain ⟨front, hfront, others, hothers, hlayout, hne⟩ :=
    @exists_front codec _ hset hoperation
  have hmem := mem_of_frontOf hfront
  obtain rfl := hencoder front hmem
  obtain ⟨bytes, hpiece, -⟩ := readable_piece (hvalues front hmem)
  rw [hpiece, Option.getD_some] at hlayout
  exact ⟨front, hfront, bytes, others, hpiece, hne hends, hothers, hlayout⟩

/-! ## Decoders and trailing bytes -/

/-- `binary_to_term` reads the first external term of a binary and ignores
what follows. -/
structure ReadsFirstTerm (codec : Codec) : Prop where
  nonempty : ∀ value, codec.termToBinary value ≠ []
  trailing : ∀ value rest,
    codec.binaryToTerm (codec.termToBinary value) = .ok value →
      codec.binaryToTerm (codec.termToBinary value ++ rest) = .ok value

theorem pieceOf_raw {codec : Codec} {request : Api.StoreRequest}
    (hencoder : request.encoder = .raw) :
    pieceOf codec request = some (codec.termToBinary request.value) := by
  rw [pieceOf, hencoder]
  exact getString_binary _

/-- Of several raw pieces the decoder sees the front one, which is not all
that is stored. -/
theorem ReadsFirstTerm.decode_front {codec : Codec}
    {requests : List Api.StoreRequest} {front : Api.StoreRequest}
    (h : ReadsFirstTerm codec)
    (hencoder : ∀ request ∈ requests, request.encoder = .raw)
    (hvalues : ∀ request ∈ requests, Storable codec .raw request.value)
    (hfront : IsFront codec requests front) :
    codec.decode (.int (Api.encoderFlags .raw).val)
        (.binary (layout codec requests)) = .ok front.value ∧
      ¬ Readable codec .raw (layout codec requests) := by
  obtain ⟨hfront, bytes, others, hpiece, hothers, hrequests, hlayout⟩ := hfront
  have hmem := mem_of_frontOf hfront
  obtain rfl := Option.some.inj
    ((pieceOf_raw (hencoder front hmem)).symm.trans hpiece)
  have hdecode : codec.decode (.int (Api.encoderFlags .raw).val)
      (.binary (layout codec requests)) = .ok front.value := by
    rw [hlayout]
    exact h.trailing front.value _ (hvalues front hmem)
  refine ⟨hdecode, ?_⟩
  rintro ⟨value, hdecode', hencode⟩
  obtain rfl := Except.ok.inj (hdecode.symm.trans hdecode')
  obtain ⟨-, hbytes⟩ := Prod.mk.inj (Except.ok.inj hencode)
  rw [hlayout] at hbytes
  have hnil := List.self_eq_append_right.mp (Term.binary.inj hbytes)
  obtain ⟨other, hother⟩ := List.exists_mem_of_ne_nil others hothers
  have hpiece' := List.flatMap_eq_nil_iff.mp hnil other hother
  rw [pieceOf_raw (hencoder other (hrequests other hother))] at hpiece'
  exact h.nonempty other.value hpiece'

/-- The text that `jiffy:encode/1` makes of a value and `jiffy:decode/1` reads
back. -/
def JsonText (codec : Codec) (text : Bytes) : Prop :=
  ∃ value, codec.jiffyEncode value = .ok (.binary text) ∧
    codec.jiffyDecode text = .ok value

/-- The text of a number ends in a digit; the text of any other value ends in a
bracket, a quote or a letter. -/
def EndsInDigit (text : Bytes) : Prop :=
  ∃ byte, text.getLast? = some byte ∧ 48 ≤ byte ∧ byte ≤ 57

/-- `jiffy:decode/1` rejects the text of a value that has texts of more values
behind it.  Only a number may run on into the digits that follow. -/
def RejectsTrailing (codec : Codec) : Prop :=
  ∀ text, JsonText codec text → ¬ EndsInDigit text →
    ∀ others : List Bytes, others ≠ [] →
      (∀ other ∈ others, JsonText codec other) →
      ∀ value, codec.jiffyDecode (text ++ others.flatten) ≠ .ok value

/-- The piece of a storable JSON value is such a text. -/
theorem jsonText_of_pieceOf {codec : Codec} {request : Api.StoreRequest}
    {bytes : Bytes} (hencoder : request.encoder = .json)
    (hvalue : Storable codec .json request.value)
    (hpiece : pieceOf codec request = some bytes) : JsonText codec bytes := by
  obtain ⟨bytes', hencode, hdecode⟩ := hvalue
  have hpiece' : pieceOf codec request = some bytes' := by
    rw [pieceOf, hencoder, Codec.encode, hencode]
    exact getString_binary bytes'
  obtain rfl := Option.some.inj (hpiece.symm.trans hpiece')
  exact ⟨request.value, hencode, hdecode⟩

theorem readable_json_iff {codec : Codec} {bytes : Bytes} :
    Readable codec .json bytes ↔ JsonText codec bytes := by
  constructor
  · rintro ⟨value, hdecode, hencode⟩
    obtain ⟨data, hdata, hpair⟩ := except_map_eq_ok_iff.mp hencode
    obtain ⟨-, rfl⟩ := Prod.mk.inj hpair
    exact ⟨value, hdata, hdecode⟩
  · rintro ⟨value, hencode, hdecode⟩
    refine ⟨value, hdecode, ?_⟩
    rw [Codec.encode, hencode]
    rfl

/-- The piece of the request is the text of a number. -/
def IsNumber (codec : Codec) (request : Api.StoreRequest) : Prop :=
  ∃ bytes, pieceOf codec request = some bytes ∧ EndsInDigit bytes

/-- Several JSON pieces do not decode, unless the one in front is a number. -/
theorem RejectsTrailing.decode_front {codec : Codec}
    {requests : List Api.StoreRequest} {front : Api.StoreRequest}
    (h : RejectsTrailing codec)
    (hencoder : ∀ request ∈ requests, request.encoder = .json)
    (hvalues : ∀ request ∈ requests, Storable codec .json request.value)
    (hfront : IsFront codec requests front)
    (hnumber : ¬ IsNumber codec front) :
    ∃ raise, codec.decode (.int (Api.encoderFlags .json).val)
      (.binary (layout codec requests)) = .error raise := by
  obtain ⟨hfront, bytes, others, hpiece, hothers, hrequests, hlayout⟩ := hfront
  have htext : ∀ request ∈ requests,
      JsonText codec ((pieceOf codec request).getD []) := by
    intro request hmem
    have hvalue := hvalues request hmem
    rw [← hencoder request hmem] at hvalue
    obtain ⟨bytes, hpiece, -⟩ := readable_piece hvalue
    rw [hpiece]
    exact jsonText_of_pieceOf (hencoder request hmem) (hvalues request hmem)
      hpiece
  have hbytes := htext front (mem_of_frontOf hfront)
  rw [hpiece] at hbytes
  have htrailing := h bytes hbytes
    (fun hdigit => hnumber ⟨bytes, hpiece, hdigit⟩)
    (others.map fun other => (pieceOf codec other).getD [])
    (by simpa using hothers)
    (by simpa using fun other hother => htext other (hrequests other hother))
  rw [← List.flatMap_def, ← hlayout] at htrailing
  cases hdecode : codec.jiffyDecode (layout codec requests) with
  | ok value => exact absurd hdecode (htrailing value)
  | error raise => exact ⟨raise, hdecode⟩

end Cberl.Store
