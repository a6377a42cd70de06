import Cberl.Api.BulkCalls
import Cberl.Support.Traverse

/-!
# One item cannot spoil a bulk get

`bulk_get/3` decodes every item of the reply inside one `lists:map`.  An item
whose flags have no clause in `decode/2`, or whose bytes the decoder rejects,
raises out of the whole call, so the items of a batch are isolated from each
other exactly when all of them decode.
-/

namespace Cberl.Api

open Cberl Cberl.Support

/-- The item carries an error, or the decoder accepts what it carries. -/
def decodes (codec : Codec) (item : GetResponse) : Bool :=
  match item.result with
  | .ok payload =>
      (codec.decode (.int payload.flags.val) (.binary payload.value)).isOk
  | .error _ => true

/-- `get_response()` for the given key. -/
def IsGetResponse (key : Bytes) (t : Term) : Prop :=
  (∃ (cas : ℕ) (value : Term),
      t = .tuple [.binary key, .tuple [.atom "ok", .int cas, value]]) ∨
    ∃ reason, t = .tuple [.binary key, errorTerm reason]

/-- What `bulk_get/3` returns when the NIF delivers `reply`. -/
def bulkGetOf (codec : Codec) (requests : List GetRequest)
    (reply : MultiResponse GetResponse) : Except Raise Term :=
  ((bulkGet codec (fun _ => reply.toTerm GetResponse.toTerm)
    requests).run.run []).1

/-- `bulk_get/3` treats the items of `reply` separately: it returns one entry
of the declared type per item, in order, and the items that carry an error or
decode get the entries they get without the others. -/
def Isolates (codec : Codec) (requests : List GetRequest)
    (reply : MultiResponse GetResponse) : Prop :=
  match reply.err with
  | some err => bulkGetOf codec requests reply = .ok err.toTerm
  | none =>
      ∃ entries,
        bulkGetOf codec requests reply = .ok (okTerm (.list entries)) ∧
        List.Forall₂ (fun item entry => IsGetResponse item.key entry)
          reply.responses entries ∧
        let good := (reply.responses.zip entries).filter fun pair =>
          decodes codec pair.1
        bulkGetOf codec requests
            { reply with responses := good.map Prod.fst } =
          .ok (okTerm (.list (good.map Prod.snd)))

/-! ## One item -/

theorem decodeResponse_toTerm (codec : Codec) (item : GetResponse) :
    decodeResponse codec item.toTerm =
      match item.result with
      | .ok payload =>
          (codec.decode (.int payload.flags.val)
            (.binary payload.value)).map fun value =>
              .tuple [.binary item.key,
                .tuple [.atom "ok", .int payload.cas.val, value]]
      | .error err => .ok (.tuple [.binary item.key, err.toTerm]) := by
  rcases item with ⟨key, _ | payload⟩ <;> rfl

theorem decodes_iff_exists_entry {codec : Codec} {item : GetResponse} :
    decodes codec item = true ↔
      ∃ entry, decodeResponse codec item.toTerm = .ok entry := by
  rw [decodeResponse_toTerm]
  rcases item with ⟨key, err | payload⟩
  · simp [decodes]
  · dsimp only [decodes]
    cases codec.decode (.int payload.flags.val) (.binary payload.value) with
    | error raise => simp [Except.map, Except.isOk, Except.toBool]
    | ok value => simp [Except.map, Except.isOk, Except.toBool]

theorem isGetResponse_of_decodeResponse {codec : Codec} {item : GetResponse}
    {entry : Term} (h : decodeResponse codec item.toTerm = .ok entry) :
    IsGetResponse item.key entry := by
  rw [decodeResponse_toTerm] at h
  rcases item with ⟨key, err | payload⟩
  · obtain rfl := Except.ok.inj h
    exact Or.inr ⟨_, rfl⟩
  · dsimp only at h
    cases hvalue : codec.decode (.int payload.flags.val)
        (.binary payload.value) with
    | error raise =>
        rw [hvalue] at h
        cases h
    | ok value =>
        rw [hvalue] at h
        obtain rfl := Except.ok.inj h
        have hcas : (payload.cas.val.toNat : ℤ) = payload.cas.val :=
          Int.toNat_of_nonneg payload.cas.property.1
        exact Or.inl ⟨payload.cas.val.toNat, value, by rw [hcas]⟩

/-! ## A whole reply -/

theorem bulkGetOf_eq (codec : Codec) (requests : List GetRequest)
    (reply : MultiResponse GetResponse) :
    bulkGetOf codec requests reply =
      decodeResponses codec (reply.toTerm GetResponse.toTerm) := by
  rw [bulkGetOf, bulkGet_run]

theorem bulkGetOf_eq_ok_iff {codec : Codec} {requests : List GetRequest}
    {reply : MultiResponse GetResponse} (herr : reply.err = none)
    {entries : List Term} :
    bulkGetOf codec requests reply = .ok (okTerm (.list entries)) ↔
      List.Forall₂ (fun item entry =>
        decodeResponse codec item.toTerm = .ok entry)
        reply.responses entries := by
  have hreply : reply.toTerm GetResponse.toTerm =
      okTerm (.list (reply.responses.map GetResponse.toTerm)) := by
    rw [MultiResponse.toTerm, herr]
    rfl
  rw [bulkGetOf_eq, hreply, decodeResponses_eq_ok_iff,
    List.forall₂_map_left_iff]

/-- A bulk get isolates its items exactly when there is nothing to isolate:
the NIF reports an error for the whole batch, or every item decodes. -/
theorem bulkGet_isolates_iff (codec : Codec) (requests : List GetRequest)
    (reply : MultiResponse GetResponse) :
    Isolates codec requests reply ↔
      (reply.err = none → ∀ item ∈ reply.responses, decodes codec item) := by
  cases herr : reply.err with
  | some err =>
      have hreply : bulkGetOf codec requests reply = .ok err.toTerm := by
        rw [bulkGetOf_eq, MultiResponse.toTerm, herr]
        rfl
      simp [Isolates, herr, hreply]
  | none =>
      simp only [Isolates, herr, forall_const]
      constructor
      · rintro ⟨entries, hentries, -⟩ item hitem
        rw [bulkGetOf_eq_ok_iff herr] at hentries
        exact decodes_iff_exists_entry.mpr
          (exists_forall₂_iff.mp ⟨entries, hentries⟩ item hitem)
      · intro hdecodes
        obtain ⟨entries, hentries⟩ := exists_forall₂_iff.mpr
          fun item hitem => decodes_iff_exists_entry.mp (hdecodes item hitem)
        refine ⟨entries, (bulkGetOf_eq_ok_iff herr).mpr hentries, ?_, ?_⟩
        · exact hentries.imp fun item entry hentry =>
            isGetResponse_of_decodeResponse hentry
        · rw [bulkGetOf_eq_ok_iff rfl, List.forall₂_map_left_iff,
            List.forall₂_map_right_iff, List.forall₂_same]
          intro pair hpair
          exact (List.forall₂_iff_zip.mp hentries).2
            (List.mem_of_mem_filter hpair)

/-- An item of another SDK: its flags are 3, and `decode/2` has no clause. -/
def foreignItem : GetResponse where
  key := [107]
  result := .ok
    { cas := ⟨1, by decide⟩
      flags := ⟨3, by decide⟩
      value := [] }

/-- The foreign item takes the readable neighbour down with it. -/
theorem foreignItem_not_isolated :
    ¬ Isolates .digits [⟨[107], 0, false⟩, ⟨[108], 0, false⟩]
      { err := none
        responses := [foreignItem, ⟨[108], .error .keyEnoent⟩] } := by
  rintro ⟨entries, hentries, -⟩
  cases hentries

end Cberl.Api
