import Cberl.Api.SingleKey
import Cberl.Store.Pieces

/-!
# Appends and prepends

The server concatenates the pieces of one key and keeps the flags of the item,
so a sequence of acknowledged operations leaves exactly their pieces.  Whether
a get makes the encoded values out of them is another matter.
-/

namespace Cberl.Store

open Cberl Cberl.Support

variable [LcbTypes]

/-! ## Single-key exchanges -/

/-- The operation posted for a single store carries the request. -/
theorem store_operation {codec : Codec} {request : Api.StoreRequest}
    {nifRequest : Request} {operation : Operation}
    (hrequest :
      (Api.KeyCall.store request).bulk.request codec = .ok nifRequest)
    (hoperation : nifRequest.operation = some operation) :
    ∃ carried : StoreRequest, operation = .store [carried] ∧
      pieceOf codec request = some carried.value ∧
      carried.operation.val = getStoreOperationId request.operation ∧
      carried.key = request.key ∧
      carried.flags = Api.encoderFlags request.encoder := by
  obtain ⟨terms, hterms, rfl⟩ := except_map_eq_ok_iff.mp hrequest
  rw [mapM_except_eq_ok_iff, List.forall₂_cons_left_iff] at hterms
  obtain ⟨term, _, hterm, hnil, rfl⟩ := hterms
  obtain rfl := List.forall₂_nil_left_iff.mp hnil
  obtain ⟨⟨flags, data⟩, hencode, -⟩ := except_map_eq_ok_iff.mp hterm
  have hrow := Api.getTuple_storeRequest hencode hterm
  rw [Request.operation, Option.map_eq_some_iff] at hoperation
  obtain ⟨rows, hrows, rfl⟩ := hoperation
  obtain ⟨row, rfl, hrow'⟩ := Api.getVector_singleton hrows
  rw [hrow, Option.bind_eq_some_iff] at hrow'
  obtain ⟨bytes, hbytes, hinrange⟩ := hrow'
  rw [Option.dite_none_right_eq_some] at hinrange
  obtain ⟨_, hrow'⟩ := hinrange
  obtain rfl := Option.some.inj hrow'
  refine ⟨_, rfl, ?_, rfl, rfl, rfl⟩
  rw [pieceOf, hencode]
  exact hbytes

theorem get_operation {codec : Codec} {request : Api.GetRequest}
    {nifRequest : Request} {operation : Operation}
    (hrequest : (Api.KeyCall.get request).bulk.request codec = .ok nifRequest)
    (hoperation : nifRequest.operation = some operation) :
    ∃ carried : GetRequest, operation = .get [carried] ∧
      carried.key = request.key := by
  obtain rfl := Except.ok.inj hrequest
  rw [Request.operation, Option.map_eq_some_iff] at hoperation
  obtain ⟨rows, hrows, rfl⟩ := hoperation
  obtain ⟨row, rfl, hrow⟩ := Api.getVector_singleton hrows
  rw [Api.getTuple_getRequest, Option.dite_none_right_eq_some] at hrow
  obtain ⟨_, hrow⟩ := hrow
  obtain rfl := Option.some.inj hrow
  exact ⟨_, rfl, rfl⟩

/-- One exchange of a function on one key with a worker whose libcouchbase
executes the operation on the bucket. -/
def Exchanged (codec : Codec) (call : Api.KeyCall)
    (bucket bucket' : Bucket) (reply : Except Raise Term) : Prop :=
  ∃ (lcb : Lcb) (fresh : List LcbCas) (request : Request)
    (operation : Operation),
    call.bulk.request codec = .ok request ∧
      request.operation = some operation ∧
      Executes lcb fresh operation bucket bucket' ∧
      reply = ((call.run codec (Api.worker lcb)).run.run []).1

/-- A single command served on the bucket, seen by its caller. -/
theorem run_of_singleton {P α : Type} {codec : Codec} {call : Api.KeyCall}
    {lcb : Lcb} {request : Request} {operation : Operation}
    {payloadTerm : P → Term} {outcome : Outcome P}
    {step : Option Item → α → Option Item × Except LcbError P}
    {key : α → Bytes} {command : α} {bucket bucket' : Bucket}
    (hrequest : call.bulk.request codec = .ok request)
    (hoperation : request.operation = some operation)
    (houtcome :
      operation.batchOutcome lcb = some (outcome.render payloadTerm))
    (hserves : Serves step key bucket bucket' [command] outcome) :
    ((call.run codec (Api.worker lcb)).run.run []).1 =
      (call.bulk.entry codec
        { key := key command
          result := (step (bucket (key command)) command).2.map
            payloadTerm }).bind
        fun entry =>
          Api.single call.shape call.key (Api.okTerm (.list [entry])) := by
  obtain ⟨-, hcallbacks⟩ := hserves.singleton
  apply Api.KeyCall.run_worker hrequest hoperation houtcome
  · simp [Outcome.render, hserves.schedule, hserves.wait]
  · rw [Outcome.render, hcallbacks]
    rfl

/-- A get returns the decoded item, and raises when its bytes do not decode. -/
theorem Exchanged.get {codec : Codec} {request : Api.GetRequest}
    {bucket bucket' : Bucket} {reply : Except Raise Term} {item : Item}
    (h : Exchanged codec (.get request) bucket bucket' reply)
    (hitem : bucket request.key = some item) :
    reply = (codec.decode (.int item.flags.val) (.binary item.bytes)).map
      fun value => .tuple [.atom "ok", .int item.cas.val, value] := by
  obtain ⟨lcb, fresh, nifRequest, operation, hrequest, hoperation, hexecutes,
    rfl⟩ := h
  obtain ⟨carried, rfl, hkey⟩ := get_operation hrequest hoperation
  cases hexecutes with
  | get hserves =>
      have hcallback : Callback.toTerm
          { key := (GetCmd.ofRequest carried).key
            result := (getStep (bucket (GetCmd.ofRequest carried).key)
              (GetCmd.ofRequest carried)).2.map GetPayload.toTerm } =
          .tuple [.binary request.key, .tuple [.atom "ok", .int item.cas.val,
            .int item.flags.val, .binary item.bytes]] := by
        rw [GetCmd.ofRequest, hkey, hitem]
        rfl
      rw [run_of_singleton hrequest hoperation rfl hserves,
        Api.KeyCall.bulk, Api.BulkCall.entry, hcallback, Api.decodeResponse]
      cases codec.decode (.int item.flags.val) (.binary item.bytes) with
      | error raise => rfl
      | ok value => exact Api.single_singleton rfl

/-- An acknowledged store is one that the server accepted. -/
theorem Exchanged.store {codec : Codec} {request : Api.StoreRequest}
    {bucket bucket' : Bucket} {cas : LcbCas}
    (h : Exchanged codec (.store request) bucket bucket' (.ok (casTerm cas))) :
    ∃ (command : StoreCmd) (fresh : LcbCas),
      pieceOf codec request = some command.bytes ∧
      command.operation.val = getStoreOperationId request.operation ∧
      command.flags = Api.encoderFlags request.encoder ∧
      storeVerdict command.operation.val
          ((bucket request.key).map Item.cas) command.cas.val = none ∧
      bucket' request.key =
        some (written (bucket request.key) command fresh) := by
  obtain ⟨lcb, fresh, nifRequest, operation, hrequest, hoperation, hexecutes,
    hreply⟩ := h
  obtain ⟨carried, rfl, hpiece, hid, hkey, hflags⟩ :=
    store_operation hrequest hoperation
  cases hexecutes with
  | store hfresh hserves =>
      obtain ⟨fresh, rfl⟩ := List.length_eq_one_iff.mp hfresh
      refine ⟨StoreCmd.ofRequest carried, fresh, hpiece, hid, hflags, ?_⟩
      obtain ⟨hbucket, -⟩ := hserves.singleton
      rw [run_of_singleton hrequest hoperation rfl hserves] at hreply
      dsimp only [StoreCmd.ofRequest] at hbucket hreply ⊢
      rw [hkey] at hbucket hreply
      cases hverdict : storeVerdict carried.operation.val
          ((bucket request.key).map Item.cas) carried.cas.val with
      | some err =>
          have hresult : Except.ok (casTerm cas) =
              (Except.ok err.toTerm : Except Raise Term) := by
            rw [hreply]
            simp only [storeStep, hverdict]
            exact Api.single_singleton rfl
          simp [casTerm, LcbError.toTerm] at hresult
      | none =>
          refine ⟨rfl, ?_⟩
          rw [hbucket, Function.update_self, storeStep, hverdict, hkey]

/-! ## Acknowledged sequences -/

theorem written_append {command : StoreCmd} (h : command.operation.val = 4)
    (item : Item) (fresh : LcbCas) :
    written (some item) command fresh =
      { item with bytes := item.bytes ++ command.bytes, cas := fresh } := by
  simp only [written, h]

theorem written_prepend {command : StoreCmd} (h : command.operation.val = 5)
    (item : Item) (fresh : LcbCas) :
    written (some item) command fresh =
      { item with bytes := command.bytes ++ item.bytes, cas := fresh } := by
  simp only [written, h]

/-- `requests` are the sets, appends and prepends of one key and one encoder,
all of them acknowledged, between two states of the bucket.  Whatever happens
in between leaves the item of the key alone. -/
inductive Acknowledged (codec : Codec) (key : Bytes) (encoder : Encoder)
    (initial : Bucket) : List Api.StoreRequest → Bucket → Prop
  | start : Acknowledged codec key encoder initial [] initial
  | elsewhere {requests : List Api.StoreRequest} {bucket bucket' : Bucket}
      (hbefore : Acknowledged codec key encoder initial requests bucket)
      (hkey : bucket' key = bucket key) :
      Acknowledged codec key encoder initial requests bucket'
  | stored {requests : List Api.StoreRequest} {request : Api.StoreRequest}
      {bucket bucket' : Bucket} {cas : LcbCas}
      (hbefore : Acknowledged codec key encoder initial requests bucket)
      (hkey : request.key = key) (hencoder : request.encoder = encoder)
      (hoperation : Concatenates request.operation)
      (hexchanged :
        Exchanged codec (.store request) bucket bucket' (.ok (casTerm cas))) :
      Acknowledged codec key encoder initial (requests ++ [request]) bucket'

/-- The item of the key holds the pieces of `requests`. -/
def Holds (codec : Codec) (encoder : Encoder)
    (requests : List Api.StoreRequest) (item : Option Item) : Prop :=
  ∃ cas, item = some
    { bytes := layout codec requests, flags := Api.encoderFlags encoder, cas }

/-- One acknowledged operation: a set starts over, an append or a prepend
extends the bytes and keeps the flags. -/
theorem Holds.stored {codec : Codec} {encoder : Encoder}
    {requests : List Api.StoreRequest} {request : Api.StoreRequest}
    {bucket bucket' : Bucket} {cas : LcbCas}
    (hbefore : request.operation = .set ∨
      Holds codec encoder requests (bucket request.key))
    (hencoder : request.encoder = encoder)
    (hoperation : Concatenates request.operation)
    (hexchanged :
      Exchanged codec (.store request) bucket bucket' (.ok (casTerm cas))) :
    Holds codec encoder (requests ++ [request]) (bucket' request.key) := by
  obtain ⟨command, fresh, hpiece, hid, hflags, -, hbucket⟩ := hexchanged.store
  refine ⟨fresh, ?_⟩
  rw [hbucket, layout_concat, hpiece, Option.getD_some]
  rw [hencoder] at hflags
  rcases hoperation with hop | hop | hop
  · rw [hop] at hid ⊢
    have hoverwrite : command.operation.val ≠ 4 ∧ command.operation.val ≠ 5 := by
      rw [hid]
      decide
    rw [written_of_overwrite hoverwrite, hflags]
    rfl
  · obtain ⟨_, hitem⟩ := hbefore.resolve_left (by rw [hop]; decide)
    rw [hop] at hid ⊢
    rw [hitem, written_append hid]
    rfl
  · obtain ⟨_, hitem⟩ := hbefore.resolve_left (by rw [hop]; decide)
    rw [hop] at hid ⊢
    rw [hitem, written_prepend hid]
    rfl

/-- After acknowledged operations that start with a set, the item holds their
pieces. -/
theorem Acknowledged.holds {codec : Codec} {key : Bytes} {encoder : Encoder}
    {initial bucket : Bucket} {requests : List Api.StoreRequest}
    (h : Acknowledged codec key encoder initial requests bucket)
    (hset : StartsWithSet requests) :
    Holds codec encoder requests (bucket key) := by
  induction h with
  | start =>
      obtain ⟨_, hhead, -⟩ := hset
      cases hhead
  | elsewhere _ hkey ih =>
      rw [hkey]
      exact ih hset
  | @stored requests request bucket bucket' cas hbefore hkey hencoder
      hoperation hexchanged ih =>
      subst hkey
      exact Holds.stored (hset.concat.imp_right ih) hencoder hoperation
        hexchanged

theorem Acknowledged.forall_mem {codec : Codec} {key : Bytes}
    {encoder : Encoder} {initial bucket : Bucket}
    {requests : List Api.StoreRequest}
    (h : Acknowledged codec key encoder initial requests bucket) :
    ∀ request ∈ requests,
      request.encoder = encoder ∧ Concatenates request.operation := by
  induction h with
  | start => simp
  | elsewhere _ _ ih => exact ih
  | stored _ _ hencoder hoperation _ ih =>
      rw [List.forall_mem_append, List.forall_mem_singleton]
      exact ⟨ih, hencoder, hoperation⟩

/-! ## Reading the item back -/

/-- A get of the key comes to `result`, with the CAS of the item. -/
def Reads (codec : Codec) (key : Bytes) (bucket : Bucket)
    (result : Except Raise Term) : Prop :=
  ∀ (request : Api.GetRequest) (bucket' : Bucket) (reply : Except Raise Term),
    request.key = key →
    Exchanged codec (.get request) bucket bucket' reply →
    ∃ item, bucket key = some item ∧
      reply = result.map fun value =>
        .tuple [.atom "ok", .int item.cas.val, value]

/-- A get of the key returns a value whose encoding is exactly what the item
holds. -/
def ReadsBack (codec : Codec) (encoder : Encoder) (key : Bytes)
    (bucket : Bucket) : Prop :=
  ∀ (request : Api.GetRequest) (bucket' : Bucket) (reply : Except Raise Term),
    request.key = key →
    Exchanged codec (.get request) bucket bucket' reply →
    ∃ item value, bucket key = some item ∧
      reply = .ok (.tuple [.atom "ok", .int item.cas.val, value]) ∧
      codec.encode encoder value =
        .ok ((Api.encoderFlags encoder).val, .binary item.bytes)

theorem reads_decoded {codec : Codec} {key : Bytes} {bucket : Bucket}
    {item : Item} {result : Except Raise Term} (hitem : bucket key = some item)
    (hdecode :
      codec.decode (.int item.flags.val) (.binary item.bytes) = result) :
    Reads codec key bucket result := by
  rintro request bucket' reply rfl hexchanged
  refine ⟨item, hitem, ?_⟩
  rw [hexchanged.get hitem, hdecode]

theorem exists_get_exchanged (codec : Codec) (key : Bytes) (bucket : Bucket) :
    ∃ bucket' reply, Exchanged codec
      (.get { key, expiry := 0, lock := false }) bucket bucket' reply := by
  have hplain : (Call.get [key]).Plain codec := trivial
  obtain ⟨request, operation, hrequest, hoperation, hcarries⟩ :=
    Call.carried hplain
  cases operation with
  | get requests =>
      exact ⟨_, _, ⟨Lcb.serving bucket [], [], request, _, hrequest,
        hoperation, .get (serves_inOrder _ _ _ _), rfl⟩⟩
  | _ => exact hcarries.elim

theorem readsBack_iff {codec : Codec} {encoder : Encoder} {key : Bytes}
    {bucket : Bucket} {bytes : Bytes} {cas : LcbCas}
    (hitem : bucket key =
      some { bytes, flags := Api.encoderFlags encoder, cas }) :
    ReadsBack codec encoder key bucket ↔ Readable codec encoder bytes := by
  constructor
  · intro hreads
    obtain ⟨bucket', reply, hexchanged⟩ := exists_get_exchanged codec key bucket
    obtain ⟨item, value, hitem', hreply, hencode⟩ :=
      hreads _ bucket' reply rfl hexchanged
    obtain rfl := Option.some.inj (hitem.symm.trans hitem')
    rw [hexchanged.get hitem, except_map_eq_ok_iff] at hreply
    obtain ⟨value', hdecode, hvalue⟩ := hreply
    obtain rfl : value' = value := by simpa using hvalue
    exact ⟨value', hdecode, hencode⟩
  · rintro ⟨value, hdecode, hencode⟩ request bucket' reply rfl hexchanged
    refine ⟨_, value, hitem, ?_, hencode⟩
    rw [hexchanged.get hitem, hdecode]
    rfl

/-- What a get makes of acknowledged pieces that start with a set. -/
structure Recovered (codec : Codec) (key : Bytes) (encoder : Encoder)
    (requests : List Api.StoreRequest) (bucket : Bucket) : Prop where
  /-- The item holds exactly the pieces. -/
  holds : Holds codec encoder requests (bucket key)
  /-- Without an encoder, or when no append or prepend follows the last set,
  the item reads back. -/
  readsBack : encoder = .none ∨ EndsWithSet requests →
    ReadsBack codec encoder key bucket
  /-- Otherwise a get of raw pieces returns the value of the front one. -/
  raw : encoder = .raw → ¬ EndsWithSet requests →
    ¬ ReadsBack codec encoder key bucket ∧
      ∃ front, IsFront codec requests front ∧
        Reads codec key bucket (.ok front.value)
  /-- Otherwise a get of JSON pieces raises, unless a number stands in front:
  then the item reads back when the joined text is that of a value. -/
  json : encoder = .json → ¬ EndsWithSet requests →
    ∃ front, IsFront codec requests front ∧
      (¬ IsNumber codec front → ¬ ReadsBack codec encoder key bucket ∧
        ∃ raise, Reads codec key bucket (.error raise)) ∧
      (IsNumber codec front → (ReadsBack codec encoder key bucket ↔
        JsonText codec (layout codec requests)))

theorem acknowledged_readable {codec : Codec} {key : Bytes}
    {encoder : Encoder} {initial bucket : Bucket}
    {requests : List Api.StoreRequest}
    (hfirst : encoder = .raw → ReadsFirstTerm codec)
    (hrejects : encoder = .json → RejectsTrailing codec)
    (hvalues : encoder ≠ .none →
      ∀ request ∈ requests, Storable codec encoder request.value)
    (hset : StartsWithSet requests)
    (h : Acknowledged codec key encoder initial requests bucket) :
    Recovered codec key encoder requests bucket := by
  obtain ⟨cas, hitem⟩ := h.holds hset
  have hencoder := fun request hmem => (h.forall_mem request hmem).1
  have hoperation := fun request hmem => (h.forall_mem request hmem).2
  refine ⟨⟨cas, hitem⟩, ?_, ?_, ?_⟩
  · intro hcase
    rw [readsBack_iff hitem]
    by_cases hnone : encoder = .none
    · rw [hnone]
      exact readable_none codec _
    · exact readable_of_endsWithSet hencoder (hvalues hnone)
        (hcase.resolve_left hnone)
  · rintro rfl hends
    have hstorable := hvalues (by decide)
    obtain ⟨front, hfront⟩ :=
      exists_isFront hencoder hoperation hstorable hset hends
    obtain ⟨hdecode, hunreadable⟩ :=
      (hfirst rfl).decode_front hencoder hstorable hfront
    rw [readsBack_iff hitem]
    exact ⟨hunreadable, front, hfront, reads_decoded hitem hdecode⟩
  · rintro rfl hends
    have hstorable := hvalues (by decide)
    obtain ⟨front, hfront⟩ :=
      exists_isFront hencoder hoperation hstorable hset hends
    rw [readsBack_iff hitem]
    refine ⟨front, hfront, ?_, fun _ => readable_json_iff⟩
    intro hnumber
    obtain ⟨raise, hdecode⟩ :=
      (hrejects rfl).decode_front hencoder hstorable hfront hnumber
    refine ⟨?_, raise, reads_decoded hitem hdecode⟩
    rintro ⟨value, hvalue, -⟩
    rw [hdecode] at hvalue
    cases hvalue

/-! ## A raw set and a raw append -/

def setOne : Api.StoreRequest :=
  { operation := .set, key := [1], value := .int 1, encoder := .raw
    cas := 0, expiry := 0 }

def appendTwo : Api.StoreRequest :=
  { operation := .append, key := [1], value := .int 2, encoder := .raw
    cas := 0, expiry := 0 }

def oneCas : LcbCas := ⟨5, by decide⟩

/-- The bucket after one more store. -/
def storeInto (bucket : Bucket) (request : StoreRequest) : Bucket :=
  (serve storeStep (fun entry => entry.1.key) bucket
    [(StoreCmd.ofRequest request, oneCas)]).1

def carriedOne (request : Api.StoreRequest) (value : Bytes) : StoreRequest :=
  { operation := Api.storeOperationId request.operation
    key := [1]
    value
    flags := Api.encoderFlags request.encoder
    cas := ⟨(0 : ℕ), IntType.contains_zero _⟩
    expiry := ⟨(0 : ℕ), time_contains_zero⟩ }

def oneBucket : Bucket :=
  storeInto (fun _ => none) (carriedOne setOne [131, 97, 1])

def twoBucket : Bucket :=
  storeInto oneBucket (carriedOne appendTwo [131, 97, 2])

omit [LcbTypes] in
theorem setAppend_acknowledged :
    let _ : LcbTypes := ⟨.uint32⟩
    Acknowledged Codec.digits [1] .raw (fun _ => none) [setOne, appendTwo]
      twoBucket := by
  intro _
  have hset : Exchanged Codec.digits (.store setOne) (fun _ => none) oneBucket
      (.ok (casTerm oneCas)) :=
    ⟨Lcb.serving (fun _ => none) [oneCas], [oneCas], _, _, rfl, rfl,
      .store rfl (serves_inOrder _ _ _ _), rfl⟩
  have happend : Exchanged Codec.digits (.store appendTwo) oneBucket twoBucket
      (.ok (casTerm oneCas)) :=
    ⟨Lcb.serving oneBucket [oneCas], [oneCas], _, _, rfl, rfl,
      .store rfl (serves_inOrder _ _ _ _), rfl⟩
  exact .stored (.stored .start rfl rfl (Or.inl rfl) hset) rfl rfl
    (Or.inr (Or.inl rfl)) happend

omit [LcbTypes] in
theorem digits_readsFirstTerm : ReadsFirstTerm Codec.digits where
  nonempty value := by
    cases value <;> simp [Codec.digits]
  trailing value rest h := by
    cases value with
    | int z => exact h
    | _ => cases h

/-! ## A JSON set and a JSON append -/

/-- The bytes that stand for themselves in a JSON string. -/
def plainByte (byte : UInt8) : Bool :=
  32 ≤ byte && byte ≤ 126 && byte ≠ 34 && byte ≠ 92

/-- The codec that agrees with jiffy on strings of plain bytes, too. -/
def quoted : Codec :=
  { Codec.digits with
    jiffyEncode
      | .binary bytes =>
          if bytes.all plainByte then .ok (.binary (34 :: bytes ++ [34]))
          else .error .badarg
      | value => Codec.digits.jiffyEncode value
    jiffyDecode
      | 34 :: bytes =>
          if bytes.getLast? = some 34 ∧ bytes.dropLast.all plainByte then
            .ok (.binary bytes.dropLast)
          else .error .badarg
      | bytes => Codec.digits.jiffyDecode bytes }

omit [LcbTypes] in
/-- A text that does not end in a digit is a string. -/
theorem quoted_text {text : Bytes} (htext : JsonText quoted text)
    (hdigit : ¬ EndsInDigit text) :
    ∃ bytes : Bytes, text = 34 :: bytes ++ [34] := by
  obtain ⟨value, hencode, -⟩ := htext
  cases value with
  | binary bytes =>
      simp only [quoted] at hencode
      split at hencode
      · exact ⟨bytes, (Term.binary.inj (Except.ok.inj hencode)).symm⟩
      · cases hencode
  | int z =>
      simp only [quoted, Codec.digits] at hencode
      split at hencode
      next hrange =>
        obtain rfl := Term.binary.inj (Except.ok.inj hencode)
        refine absurd ⟨_, rfl, ?_⟩ hdigit
        obtain ⟨n, rfl⟩ := Int.eq_ofNat_of_zero_le hrange.1
        have hn : n ≤ 9 := by omega
        simp [UInt8.le_iff_toNat_le]
        omega
      next => cases hencode
  | _ => cases hencode

omit [LcbTypes] in
/-- The quote that ends a string is no byte of a longer one. -/
theorem quoted_rejectsTrailing : RejectsTrailing quoted := by
  intro text htext hdigit others hothers htexts value hdecode
  obtain ⟨bytes, rfl⟩ := quoted_text htext hdigit
  have hrest : others.flatten ≠ [] := by
    intro hnil
    obtain ⟨other, hother⟩ := List.exists_mem_of_ne_nil others hothers
    obtain rfl := List.flatten_eq_nil_iff.mp hnil other hother
    obtain ⟨_, hcons⟩ := quoted_text (htexts [] hother) (by simp [EndsInDigit])
    cases hcons
  rw [List.cons_append, List.cons_append] at hdecode
  simp only [quoted] at hdecode
  rw [if_neg] at hdecode
  · cases hdecode
  · rintro ⟨-, hplain⟩
    rw [List.dropLast_append_of_ne_nil hrest] at hplain
    simp [plainByte] at hplain

def setText : Api.StoreRequest :=
  { operation := .set, key := [1], value := .binary [97], encoder := .json
    cas := 0, expiry := 0 }

def appendText : Api.StoreRequest :=
  { operation := .append, key := [1], value := .binary [98], encoder := .json
    cas := 0, expiry := 0 }

def textBucket : Bucket :=
  storeInto (storeInto (fun _ => none) (carriedOne setText [34, 97, 34]))
    (carriedOne appendText [34, 98, 34])

omit [LcbTypes] in
theorem textAppend_acknowledged :
    let _ : LcbTypes := ⟨.uint32⟩
    Acknowledged quoted [1] .json (fun _ => none) [setText, appendText]
      textBucket := by
  intro _
  have hset : Exchanged quoted (.store setText) (fun _ => none)
      (storeInto (fun _ => none) (carriedOne setText [34, 97, 34]))
      (.ok (casTerm oneCas)) :=
    ⟨Lcb.serving (fun _ => none) [oneCas], [oneCas], _, _, rfl, rfl,
      .store rfl (serves_inOrder _ _ _ _), rfl⟩
  have happend : Exchanged quoted (.store appendText)
      (storeInto (fun _ => none) (carriedOne setText [34, 97, 34])) textBucket
      (.ok (casTerm oneCas)) :=
    ⟨Lcb.serving _ [oneCas], [oneCas], _, _, rfl, rfl,
      .store rfl (serves_inOrder _ _ _ _), rfl⟩
  exact .stored (.stored .start rfl rfl (Or.inl rfl) hset) rfl rfl
    (Or.inr (Or.inl rfl)) happend

omit [LcbTypes] in
/-- The raw pair, and the JSON pair, whose get raises. -/
theorem setAppend_readable :
    let _ : LcbTypes := ⟨.uint32⟩
    Recovered Codec.digits [1] .raw [setOne, appendTwo] twoBucket ∧
      Recovered quoted [1] .json [setText, appendText] textBucket ∧
      ∃ raise, Reads quoted [1] textBucket (.error raise) := by
  intro _
  have hjson : Recovered quoted [1] .json [setText, appendText] textBucket := by
    refine acknowledged_readable (by simp) (fun _ => quoted_rejectsTrailing)
      ?_ ⟨setText, rfl, rfl⟩ textAppend_acknowledged
    intro _ request hmem
    rcases List.mem_pair.mp hmem with rfl | rfl
    · exact ⟨[34, 97, 34], rfl, rfl⟩
    · exact ⟨[34, 98, 34], rfl, rfl⟩
  refine ⟨?_, hjson, ?_⟩
  · refine acknowledged_readable (fun _ => digits_readsFirstTerm) (by simp) ?_
      ⟨setOne, rfl, rfl⟩ setAppend_acknowledged
    intro _ request hmem
    rcases List.mem_pair.mp hmem with rfl | rfl
    · rfl
    · rfl
  obtain ⟨front, ⟨hfront, -⟩, hraises, -⟩ := hjson.json rfl (by
    rintro ⟨last, hlast, hset⟩
    obtain rfl := Option.some.inj hlast
    cases hset)
  obtain rfl := Option.some.inj hfront
  exact (hraises (by
    rintro ⟨bytes, hpiece, byte, hbyte, hdigit⟩
    obtain rfl := Option.some.inj hpiece
    obtain rfl := Option.some.inj hbyte
    revert hdigit
    decide)).2

omit [LcbTypes] in
/-- The append is acknowledged, and the get that follows returns the value of
the set alone. -/
theorem setAppend_not_readsBack :
    let _ : LcbTypes := ⟨.uint32⟩
    ReadsFirstTerm Codec.digits ∧
      Acknowledged Codec.digits [1] .raw (fun _ => none) [setOne, appendTwo]
        twoBucket ∧
      Reads Codec.digits [1] twoBucket (.ok (.int 1)) ∧
      ¬ ReadsBack Codec.digits .raw [1] twoBucket := by
  intro _
  have hitem : twoBucket [1] = some
      { bytes := [131, 97, 1, 131, 97, 2], flags := Api.encoderFlags .raw
        cas := oneCas } := rfl
  refine ⟨digits_readsFirstTerm, setAppend_acknowledged,
    reads_decoded hitem rfl, ?_⟩
  rw [readsBack_iff hitem]
  rintro ⟨value, hdecode, hencode⟩
  obtain rfl : Term.int 1 = value := Except.ok.inj hdecode
  simp [Codec.encode, Codec.digits] at hencode

end Cberl.Store
