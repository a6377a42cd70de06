import Cberl.Support.VersionedRegister
import Cberl.System.Linearizable

/-!
# No update is lost

The CAS of an item is there so that a caller can read a value, compute a new one
from it and store that on the condition that nobody has stored another one
since.  When all callers of a key do so, its value is in the end the result of
all stores that succeeded, one after the other.  The CAS of the reply has to be
the one of the value in the same reply, and the CAS of the request has to reach
the server, for batches of keys, any number of connections and any timeouts.
-/

namespace Cberl.Store

open Cberl Cberl.Support

/-! ## One key as a register -/

/-- The name and the CAS of a store under `key` that succeeded. -/
def storedAt {ν : Type*} (key : Bytes) : ν × Term → Option (ν × ℤ)
  | (n, .tuple [.binary key', .tuple [.atom "ok", .int cas]]) =>
      if key' = key then some (n, cas) else none
  | _ => none

/-- The entry `{Key, {ok, Cas, Value}}` of a get. -/
def gotEntry (key : Bytes) (value : Term) (cas : ℤ) : Term :=
  .tuple [.binary key, .tuple [.atom "ok", .int cas, value]]

/-- The request replaces at most the value with the CAS that it names. -/
def Single.Guarded : Single → Prop
  | store request =>
      (request.operation = .set ∨ request.operation = .replace) ∧
        request.cas ≠ 0
  | get _ => True
  | remove _ => False

/-- A guarded request as an access to the register of its key. -/
def Single.access {ν : Type*} (n : ν) (fresh : LcbCas) (value : Term)
    (cas : LcbCas) : Single → Access ν Term ℤ
  | store request =>
      if request.cas = cas.val
      then .swap n request.cas request.value fresh.val
      else .refused
  | get _ => .read value cas.val
  | remove _ => .refused

variable {ν : Type*} {n : ν} {key : Bytes} {single : Single} {fresh cas : LcbCas}
  {value : Term}

theorem storeVerdict_of_guarded {request : Api.StoreRequest}
    (h : (Single.store request).Guarded) :
    storeVerdict (getStoreOperationId request.operation) (some cas) request.cas =
      if request.cas = cas.val then none else some .keyEexists := by
  obtain ⟨hoperation | hoperation, hcas⟩ := h
  · simp [hoperation, getStoreOperationId, storeVerdict, casVerdict, hcas]
  · simp [hoperation, getStoreOperationId, storeVerdict, casVerdict, hcas]

/-- A guarded request does to the value at its key what its access does to the
register. -/
theorem Single.Guarded.step (h : single.Guarded) :
    ∃ value' cas', RegisterStep (value, cas.val) (single.access n fresh value cas)
        (value', cas'.val) ∧
      (single.answer fresh (some (value, cas))).1 = some (value', cas') := by
  cases single with
  | store request =>
      simp only [Single.access, Single.answer, refStore, Option.map_some,
        storeVerdict_of_guarded h]
      by_cases hcas : request.cas = cas.val
      · simp only [hcas, if_true]
        exact ⟨_, _, .swap, rfl⟩
      · simp only [hcas, if_false]
        exact ⟨_, _, .refused, rfl⟩
  | get key => exact ⟨_, _, .read, rfl⟩
  | remove request => exact h.elim

theorem Single.Guarded.swapped (h : single.Guarded) :
    (single.access n fresh value cas).swapped =
      storedAt single.key (n, .tuple [.binary single.key,
        (single.answer fresh (some (value, cas))).2]) := by
  cases single with
  | store request =>
      simp only [Single.access, Single.answer, refStore, Option.map_some,
        storeVerdict_of_guarded h]
      by_cases hcas : request.cas = cas.val
      · simp [hcas, storedAt, casTerm, Access.swapped]
      · simp [hcas, storedAt, LcbError.toTerm, Access.swapped]
  | get key => rfl
  | remove request => exact h.elim

/-- A get returns the value together with its CAS. -/
theorem Single.Guarded.read (h : single.Guarded) {value' : Term} {cas' : ℤ}
    (hentry : .tuple [.binary single.key,
      (single.answer fresh (some (value, cas))).2] =
        gotEntry key value' cas') :
    single.access n fresh value cas = .read value' cas' := by
  cases single with
  | store request =>
      simp only [Single.answer, refStore, Option.map_some,
        storeVerdict_of_guarded h] at hentry
      by_cases hcas : request.cas = cas.val
      · simp [hcas, casTerm, gotEntry] at hentry
      · simp [hcas, LcbError.toTerm, gotEntry] at hentry
  | get key' =>
      simp only [Single.answer, refGet, gotEntry, Term.tuple.injEq,
        List.cons.injEq, Term.int.injEq, and_true, true_and] at hentry
      obtain ⟨-, rfl, rfl⟩ := hentry
      rfl
  | remove request => exact h.elim

theorem Single.store_of_access {n' : ν} {c c' : ℤ} {x : Term}
    (h : single.access n fresh value cas = .swap n' c x c') :
    ∃ request, single = .store request ∧ n = n' ∧ (request.cas : ℤ) = c ∧
      request.value = x := by
  cases single with
  | store request =>
      simp only [Single.access] at h
      split at h
      · simp only [Access.swap.injEq] at h
        obtain ⟨rfl, rfl, rfl, -⟩ := h
        exact ⟨request, rfl, rfl, rfl, rfl⟩
      · cases h
  | get key => cases h
  | remove request => cases h

/-! ## The commands for one key -/

/-- The register of a key went along with the commands of `order`. -/
structure Follows (key : Bytes) (input : ν → Single → Prop)
    (order : List (ν × Term)) (accesses : List (Access ν Term ℤ)) : Prop where
  swapped : accesses.filterMap Access.swapped = order.filterMap (storedAt key)
  read : ∀ {n value cas}, (n, gotEntry key value cas) ∈ order →
    .read value cas ∈ accesses
  source : ∀ {n c x c'}, .swap n c x c' ∈ accesses →
    ∃ request, input n (.store request) ∧ request.key = key ∧
      (request.cas : ℤ) = c ∧ request.value = x

variable {input : ν → Single → Prop} {order : List (ν × Term)}
  {accesses : List (Access ν Term ℤ)} {store store' : RefStore}

/-- A command for another key. -/
theorem Follows.other (h : Follows key input order accesses) {entry : Term}
    (hkey : single.key ≠ key) :
    Follows key input (order ++ [(n, .tuple [.binary single.key, entry])])
      accesses where
  swapped := by
    have hnone : storedAt key (n, .tuple [.binary single.key, entry]) = none := by
      unfold storedAt
      split
      next heq =>
        simp only [Prod.mk.injEq, Term.tuple.injEq, List.cons.injEq,
          Term.binary.injEq] at heq
        obtain ⟨-, rfl, -⟩ := heq
        rw [if_neg hkey]
      next => rfl
    simp [h.swapped, hnone]
  read := by
    intro n' value cas hmem
    rcases List.mem_append.mp hmem with hmem | hmem
    · exact h.read hmem
    · simp [gotEntry, Ne.symm hkey] at hmem
  source := h.source

theorem Follows.access (h : Follows key input order accesses)
    (hguarded : single.Guarded) (hinput : input n single)
    (hkey : single.key = key) :
    Follows key input
      (order ++ [(n, .tuple [.binary single.key,
        (single.answer fresh (some (value, cas))).2])])
      (accesses ++ [single.access n fresh value cas]) where
  swapped := by
    rw [List.filterMap_append, List.filterMap_append, h.swapped,
      filterMap_singleton, filterMap_singleton, hguarded.swapped, hkey]
  read := by
    intro n' value' cas' hmem
    rcases List.mem_append.mp hmem with hmem | hmem
    · exact List.mem_append_left _ (h.read hmem)
    · simp only [List.mem_singleton, Prod.mk.injEq] at hmem
      obtain ⟨rfl, hentry⟩ := hmem
      rw [hguarded.read hentry.symm]
      simp
  source := by
    intro n' c x c' hmem
    rcases List.mem_append.mp hmem with hmem | hmem
    · exact h.source hmem
    · obtain ⟨request, rfl, rfl, hcas, hvalue⟩ :=
        Single.store_of_access (List.mem_singleton.mp hmem).symm
      exact ⟨request, hinput, hkey, hcas, hvalue⟩

/-- Any legal order of commands is, at a key where every request is guarded, a
run of the register. -/
theorem exists_register_run {value : Term} {cas : LcbCas}
    (hlegal : Legal RefApply input store order store')
    (hguarded : ∀ {n single}, input n single → single.key = key →
      single.Guarded)
    (hstart : store key = some (value, cas)) :
    ∃ accesses value' cas',
      Run (register ν (value, cas.val)) accesses (value', cas'.val) ∧
        store' key = some (value', cas') ∧
        Follows key input order accesses := by
  induction hlegal with
  | nil =>
      refine ⟨[], value, cas, .start rfl, hstart, ?_⟩
      exact {
        swapped := rfl
        read := fun hmem => by cases hmem
        source := fun hmem => by cases hmem }
  | @concat order s' s'' n single entry hlegal hinput happly ih =>
      obtain ⟨accesses, value', cas', hrun, hvalue, hfollows⟩ := ih
      obtain ⟨fresh, rfl, rfl⟩ := happly
      by_cases hkey : single.key = key
      · have hsingle := hguarded hinput hkey
        have hvalue' : s' single.key = some (value', cas') := hkey ▸ hvalue
        obtain ⟨value'', cas'', hstep, hanswer⟩ :=
          @Single.Guarded.step _ n single fresh cas' value' hsingle
        refine ⟨_, value'', cas'', hrun.step hstep, ?_, ?_⟩
        · rw [hvalue', hanswer, hkey, Function.update_self]
        · rw [hvalue']
          exact hfollows.access hsingle hinput hkey
      · refine ⟨accesses, value', cas', hrun, ?_, hfollows.other hkey⟩
        rw [Function.update_of_ne (Ne.symm hkey), hvalue]

/-! ## Which replies contain an entry of a get -/

variable {codec : Codec}

/-- What a request answers is not decoded to a value once more. -/
theorem not_decoded_of_refApply {entry : Term} {cas : ℤ}
    (h : RefApply store single entry store') :
    Api.decodeResponse codec entry ≠ .ok (gotEntry key value cas) := by
  obtain ⟨fresh, -, rfl⟩ := h
  have herror : ∀ err : LcbError,
      Api.decodeResponse codec (.tuple [.binary single.key, err.toTerm]) ≠
        .ok (gotEntry key value cas) := by
    intro err
    simp [Api.decodeResponse, LcbError.toTerm, Api.errorTerm, gotEntry]
  cases single with
  | store request =>
      simp only [Single.answer, refStore]
      split
      · exact herror _
      · simp [Api.decodeResponse, casTerm]
  | get key =>
      simp only [Single.answer, refGet]
      split
      · exact herror _
      · simp [Api.decodeResponse]
  | remove request =>
      simp only [Single.answer, refRemove]
      split
      · exact herror _
      · split
        · exact herror _
        · simp [Api.decodeResponse]

/-- Only a get decodes its reply. -/
theorem Call.reply_eq (call : Call) :
    call.bulk.reply codec = Api.decodeResponses codec ∨
      call.bulk.reply codec = Except.ok := by
  cases call with
  | get keys => exact Or.inl rfl
  | store requests => exact Or.inr rfl
  | remove requests => exact Or.inr rfl

/-- Two calls may get hold of one body.  Both see the same entry of a get in it,
unless one of them sees what a get would have to decode first. -/
theorem gotEntry_mem_of_reply {call call' : Call} {body : Term} {cas : ℤ}
    {responses responses' : List Term}
    (hreply : call.bulk.reply codec body = .ok (Api.okTerm (.list responses)))
    (hreply' : call'.bulk.reply codec body =
      .ok (Api.okTerm (.list responses')))
    (hundecoded : ∀ entry ∈ responses',
      Api.decodeResponse codec entry ≠ .ok (gotEntry key value cas))
    (hmem : gotEntry key value cas ∈ responses) :
    gotEntry key value cas ∈ responses' := by
  have hsame : ∀ {result : Except Raise Term},
      result = .ok (Api.okTerm (.list responses)) →
      result = .ok (Api.okTerm (.list responses')) →
      gotEntry key value cas ∈ responses' := by
    rintro _ rfl h
    obtain rfl : responses = responses' := by simpa [Api.okTerm] using h
    exact hmem
  rcases call.reply_eq with hcall | hcall
  · rw [hcall] at hreply
    rcases call'.reply_eq with hcall' | hcall'
    · rw [hcall'] at hreply'
      exact hsame hreply hreply'
    · rw [hcall'] at hreply'
      obtain rfl := Except.ok.inj hreply'
      have hentries := Api.decodeResponses_eq_ok_iff.mp hreply
      have hne := forall_mem_of_forall₂ hentries
        (P := (· ≠ gotEntry key value cas)) fun entry hentry _ hdecode heq =>
          hundecoded entry hentry (heq ▸ hdecode)
      exact absurd rfl (hne _ hmem)
  · rw [hcall] at hreply
    rcases call'.reply_eq with hcall' | hcall'
    · rw [hcall'] at hreply'
      obtain rfl := Except.ok.inj hreply
      have hentries := Api.decodeResponses_eq_ok_iff.mp hreply'
      obtain ⟨_, hdecode⟩ := exists_forall₂_iff.mp ⟨_, hentries⟩ _ hmem
      simp [gotEntry, Api.decodeResponse] at hdecode
    · rw [hcall'] at hreply'
      exact hsame hreply hreply'

end Cberl.Store

namespace Cberl.System

open Cberl Cberl.Store Cberl.Support

section Runs

variable [LcbTypes]

/-! ## Callers that read before they write -/

/-- Some call has returned the value together with its CAS. -/
def Fetched (codec : Codec) (history : List (Action Ref Call Term)) (key : Bytes)
    (value : Term) (cas : ℤ) : Prop :=
  ∃ ref call body responses, .invoke ref call ∈ history ∧
    .respond ref body ∈ history ∧
    call.bulk.reply codec body = .ok (Api.okTerm (.list responses)) ∧
    gotEntry key value cas ∈ responses

/-- Every caller that stores under the key has read the value there and names
its CAS; `update` says what the named request makes of a value. -/
structure Optimistic (codec : Codec) (key : Bytes)
    (update : Term → Ref × ℕ → Term)
    (history : List (Action Ref Call Term)) : Prop where
  guarded : ∀ {n single}, Requested Call.singles history n single →
    single.key = key → single.Guarded
  derived : ∀ {n request}, Requested Call.singles history n (.store request) →
    request.key = key →
    ∃ value, Fetched codec history key value request.cas ∧
      request.value = update value n

/-- The value at the key, and who has written it. -/
structure UpdatesKept (codec : Codec) (key : Bytes)
    (update : Term → Ref × ℕ → Term) (value : Term)
    (trace : List (SharedEvent (keyValue codec)))
    (s : SharedState (keyValue codec)) : Prop where
  /-- The value is the result of all stores that succeeded. -/
  value : ∃ cas, RepresentsAt codec (s.bucket key)
    (some (((trace.filterMap SharedEvent.effect).filterMap (storedAt key)).foldl
      (fun value stored => update value stored.1) value, cas))
  /-- Of the stores that name one CAS, at most one has succeeded. -/
  exclusive : ∀ {n n' c c' request request'},
    (n, c) ∈ (trace.filterMap SharedEvent.effect).filterMap (storedAt key) →
    (n', c') ∈ (trace.filterMap SharedEvent.effect).filterMap (storedAt key) →
    Requested Call.singles (trace.filterMap SharedEvent.action) n
      (.store request) →
    Requested Call.singles (trace.filterMap SharedEvent.action) n'
      (.store request') →
    request.cas = request'.cas → n = n'

variable {codec : Codec} {bucket : Bucket}
  {trace : List (SharedEvent (keyValue codec))}
  {s : SharedState (keyValue codec)}
  {store : RefStore} {key : Bytes} {value : Term} {cas : ℤ}

/-- What a call has returned was executed on the bucket, if not for that call. -/
theorem effect_of_fetched (hstore : Represents codec bucket store)
    (hrun : Run (sharedMachine (keyValue codec) bucket) trace s)
    (hrefs : RefsUnique (events trace))
    (h : Fetched codec (trace.filterMap SharedEvent.action) key value cas) :
    ∃ n, (n, gotEntry key value cas) ∈ trace.filterMap SharedEvent.effect := by
  obtain ⟨ref, call, body, responses, hcall, hbody, hreply, hentry⟩ := h
  obtain ⟨label, hlabel, haction⟩ := List.mem_filterMap.mp hbody
  obtain ⟨p, id, tag, rfl, hsucceeded⟩ := returned_of_respond haction
  have hbase := run_events hrun
  obtain ⟨v, job, hresponded, -⟩ :=
    exists_responded_of_returned hbase (mem_events.mpr ⟨_, hlabel, rfl⟩)
  have hexecuted :=
    executed_of_events hrun (executed_of_responded hbase hresponded)
  obtain ⟨call', answers, -, ⟨responses', hreply', hequiv⟩, -, heffects⟩ :=
    answers_of_executed hstore hrun hrefs hexecuted hsucceeded
  have heffect : ∀ entry ∈ responses', ∃ n,
      (n, entry) ∈ trace.filterMap SharedEvent.effect := by
    intro entry hmem
    obtain ⟨i, hi⟩ := List.mem_iff_getElem?.mp (hequiv.mem_iff.mp hmem)
    exact ⟨_, heffects i _ hi⟩
  obtain ⟨_, -, hlegal⟩ := shared_legal hstore hrun
  refine heffect _ (gotEntry_mem_of_reply hreply hreply' ?_ hentry)
  intro entry hmem
  obtain ⟨n, hn⟩ := heffect entry hmem
  obtain ⟨_, _, _, -, happly⟩ := hlegal.exists_apply hn
  exact not_decoded_of_refApply happly

theorem requested_unique (hrefs : RefsUnique (events trace)) {n : Ref × ℕ}
    {single single' : Single}
    (h : Requested Call.singles (trace.filterMap SharedEvent.action) n single)
    (h' : Requested Call.singles (trace.filterMap SharedEvent.action) n single') :
    single = single' := by
  obtain ⟨call, hcall, hsingle⟩ := h
  obtain ⟨call', hcall', hsingle'⟩ := h'
  obtain rfl := call_unique (invokedNames_nodup hrefs) hcall hcall'
  exact Option.some.inj (hsingle.symm.trans hsingle')

/-- When all callers of a key store on the condition of what they have read, and
the server gives no CAS twice, no update of the key is lost. -/
theorem updatesKept_of_run {cas : LcbCas} {update : Term → Ref × ℕ → Term}
    (hstore : Represents codec bucket store) (hstart : store key = some (value, cas))
    (hrun : Run (sharedMachine (keyValue codec) bucket) trace s)
    (hrefs : RefsUnique (events trace))
    (hoptimistic : Optimistic codec key update
      (trace.filterMap SharedEvent.action))
    (hfresh : (cas.val :: ((trace.filterMap SharedEvent.effect).filterMap
      (storedAt key)).map Prod.snd).Nodup) :
    UpdatesKept codec key update value trace s := by
  obtain ⟨store', hstore', hlegal⟩ := shared_legal hstore hrun
  obtain ⟨accesses, value', cas', hregister, hvalue', hfollows⟩ :=
    exists_register_run hlegal hoptimistic.guarded hstart
  have hversions : ((contents (value, cas.val) accesses).map Prod.snd).Nodup := by
    rwa [versions_eq, hfollows.swapped]
  have hderived : ∀ {n c x c'}, .swap n c x c' ∈ accesses →
      ∀ x₀, (x₀, c) ∈ contents (value, cas.val) accesses → x = update x₀ n := by
    intro n c x c' hswap x₀ hmem
    obtain ⟨request, hrequest, hkey, rfl, rfl⟩ := hfollows.source hswap
    obtain ⟨x₁, hfetched, hupdate⟩ := hoptimistic.derived hrequest hkey
    obtain ⟨n', hentry⟩ := effect_of_fetched hstore hrun hrefs hfetched
    have hread := (mem_contents hregister).2 (hfollows.read hentry)
    rw [hupdate, eq_of_version_eq hversions hread hmem]
  constructor
  case value =>
    have hfold := value_eq_foldl hregister hderived
    rw [hfollows.swapped, List.foldl_map] at hfold
    have hitem := hstore' key
    rw [hvalue'] at hitem
    exact ⟨cas', hfold ▸ hitem⟩
  case exclusive =>
    intro n n' c c' request request' hn hn' hrequest hrequest' hcas
    rw [← hfollows.swapped] at hn hn'
    obtain ⟨access, haccess, hswapped⟩ := List.mem_filterMap.mp hn
    obtain ⟨access', haccess', hswapped'⟩ := List.mem_filterMap.mp hn'
    cases access with
    | swap n b x c =>
        cases access' with
        | swap n' b' x' c' =>
            obtain ⟨rfl, rfl⟩ := Prod.mk.inj (Option.some.inj hswapped)
            obtain ⟨rfl, rfl⟩ := Prod.mk.inj (Option.some.inj hswapped')
            obtain ⟨request₁, hrequest₁, -, rfl, -⟩ := hfollows.source haccess
            obtain ⟨request₂, hrequest₂, -, rfl, -⟩ := hfollows.source haccess'
            obtain rfl := Single.store.inj (requested_unique hrefs hrequest hrequest₁)
            obtain rfl := Single.store.inj
              (requested_unique hrefs hrequest' hrequest₂)
            have hsame := eq_of_observe_eq (basis_nodup hregister hversions)
              haccess haccess' rfl (congrArg (some ∘ Nat.cast) hcas.symm)
            exact (Access.swap.inj hsame).1
        | _ => cases hswapped'
    | _ => cases hswapped

/-! ## Two stores based on one get -/

/-- The value after a store by any of the callers below. -/
def increment : Term → Ref × ℕ → Term
  | .int z, _ => .int (z + 1)
  | value, _ => value

def eightCas : LcbCas := ⟨8, by decide⟩

def seven₂ : Item :=
  { bytes := Codec.digits.termToBinary (.int 7)
    flags := Api.encoderFlags .raw
    cas := sevenCas }

/-- The bucket with the value 7 under the key `[2]`. -/
def sevenBucket₂ : Bucket :=
  Function.update (fun _ => none) [2] (some seven₂)

def sevenStore₂ : RefStore :=
  Function.update (fun _ => none) [2] (some (.int 7, sevenCas))

def storeEight : Api.StoreRequest :=
  { storeSeven₂ with value := .int 8, cas := 7 }

def carriedEight : StoreRequest :=
  { carriedSeven₂ with
    value := Codec.digits.termToBinary (.int 8)
    cas := sevenCas }

def readCast : Cast where
  ref := 1
  sender := 0
  request := .get (.list [.tuple [.binary [2], .int 0, .atom "false"]])

def readJob : Job where
  ctx := { reqPid := 0, reqId := (1, 0, 0) }
  connection := 0
  operation := .get [⟨[2], ⟨(0 : ℕ), time_contains_zero⟩, false⟩]

def readLcb : Lcb :=
  { Lcb.silent with
    get := fun _ =>
      { schedule := none
        callbacks := [⟨[2], .ok ⟨sevenCas, Api.encoderFlags .raw, seven₂.bytes⟩⟩]
        wait := none } }

def readBody : Term :=
  readJob.operation.execute readLcb

def writeCast (ref : Ref) (sender : Pid) : Cast where
  ref := ref
  sender := sender
  request := .store (.list [.tuple
    [.int (getStoreOperationId .set), .binary [2],
      .binary (Codec.digits.termToBinary (.int 8)), .int (Api.encoderFlags .raw),
      .int 7, .int 0]])

def writeJob (ref : Ref) (sender : Pid) : Job where
  ctx := { reqPid := sender, reqId := (ref, 0, 0) }
  connection := 0
  operation := .store [carriedEight]

/-- Process 0 gets 7.  It and process 1 store 8 on the condition that 7 is still
there. -/
def updateTrace : List (SharedEvent (keyValue Codec.digits)) :=
  [.called 0 0 1 (.get [[2]]) readCast.request,
    .quiet (.arrived 0 0 readCast),
    .quiet (.accepted 0 readCast readJob),
    .started 0 1 readJob,
    .served 1 0 (gotEntry [2] (.int 7) 7),
    .executed 0 1 readJob readBody,
    .quiet (.responded 0 1 readJob readBody),
    .quiet (.delivered 0 (.accepted 1 (1, 0, 0))),
    .quiet (.delivered 0 (.response (1, 0, 0) readBody 1)),
    .quiet (.resumed 0 1 (1, 0, 0)),
    .quiet (.returned 0 1 (1, 0, 0) 1 readBody),
    .called 0 0 2 (.store [storeEight]) (writeCast 2 0).request,
    .called 1 1 3 (.store [storeEight]) (writeCast 3 1).request,
    .quiet (.arrived 0 0 (writeCast 2 0)),
    .quiet (.arrived 1 1 (writeCast 3 1)),
    .quiet (.accepted 0 (writeCast 2 0) (writeJob 2 0)),
    .quiet (.accepted 1 (writeCast 3 1) (writeJob 3 1)),
    .started 0 2 (writeJob 2 0),
    .started 1 3 (writeJob 3 1),
    .served 3 0 (.tuple [.binary [2], casTerm eightCas]),
    .served 2 0 (.tuple [.binary [2], LcbError.keyEexists.toTerm])]

end Runs

theorem updateRun :
    let _ : LcbTypes := ⟨.uint32⟩
    ∃ s, Run (sharedMachine (keyValue Codec.digits) sevenBucket₂)
      updateTrace s := by
  intro _
  have hstore : Call.Plain Codec.digits (.store [storeEight]) := by
    rw [Call.Plain, List.forall_mem_singleton]
    exact ⟨by decide, rfl, by decide, by decide⟩
  have h₀ : Run (sharedMachine (keyValue Codec.digits) sevenBucket₂) []
      { base := quietState, bucket := sevenBucket₂, pending := []
        answered := [] } :=
    .start ⟨initial_quietState, rfl, rfl, rfl⟩
  have h₁ : Run _ (updateTrace.take 1) _ :=
    h₀.step (.called trivial rfl (.called rfl))
  have h₂ : Run _ (updateTrace.take 2) _ :=
    h₁.step (.quiet trivial (.arrived rfl rfl))
  have h₃ : Run _ (updateTrace.take 3) _ :=
    h₂.step (.quiet trivial (.accepted rfl rfl rfl))
  have h₄ : Run _ (updateTrace.take 4) _ := h₃.step (.started (.started rfl rfl))
  have h₅ : Run _ (updateTrace.take 5) _ :=
    h₄.step (@served_of_entry _ _ _ _ _ _ [] _ _ sevenCas rfl (by simp) rfl)
  have h₆ : Run _ (updateTrace.take 6) _ :=
    h₅.step (.executed readLcb (.executed readLcb rfl)
      (reports_of_callbacks rfl rfl rfl))
  have h₇ : Run _ (updateTrace.take 7) _ :=
    h₆.step (.quiet trivial (.responded rfl))
  have h₈ : Run _ (updateTrace.take 8) _ :=
    h₇.step (.quiet trivial (@Step.delivered _ _ _ _ [] [_] rfl))
  have h₉ : Run _ (updateTrace.take 9) _ :=
    h₈.step (.quiet trivial (@Step.delivered _ _ _ _ [] [] rfl))
  have h₁₀ : Run _ (updateTrace.take 10) _ :=
    h₉.step (.quiet trivial (.resumed rfl rfl))
  have h₁₁ : Run _ (updateTrace.take 11) _ :=
    h₁₀.step (.quiet trivial (.returned rfl rfl))
  have h₁₂ : Run _ (updateTrace.take 12) _ :=
    h₁₁.step (.called hstore rfl (.called rfl))
  have h₁₃ : Run _ (updateTrace.take 13) _ :=
    h₁₂.step (.called hstore rfl (.called rfl))
  have h₁₄ : Run _ (updateTrace.take 14) _ :=
    h₁₃.step (.quiet trivial (.arrived rfl rfl))
  have h₁₅ : Run _ (updateTrace.take 15) _ :=
    h₁₄.step (.quiet trivial (.arrived rfl rfl))
  have h₁₆ : Run _ (updateTrace.take 16) _ :=
    h₁₅.step (.quiet trivial (.accepted rfl rfl rfl))
  have h₁₇ : Run _ (updateTrace.take 17) _ :=
    h₁₆.step (.quiet trivial (.accepted rfl rfl rfl))
  have h₁₈ : Run _ (updateTrace.take 18) _ :=
    h₁₇.step (.started (.started rfl rfl))
  have h₁₉ : Run _ (updateTrace.take 19) _ :=
    h₁₈.step (.started (.started rfl rfl))
  have h₂₀ : Run _ (updateTrace.take 20) _ :=
    h₁₉.step (@served_of_entry _ _ _ _ _ _ [_] _ _ eightCas rfl (by decide) rfl)
  exact ⟨_, h₂₀.step
    (@served_of_entry _ _ _ _ _ _ [] _ _ eightCas rfl (by simp) rfl)⟩

theorem updateTrace_optimistic :
    let _ : LcbTypes := ⟨.uint32⟩
    Optimistic Codec.digits [2] increment
      (updateTrace.filterMap SharedEvent.action) := by
  intro _
  have hhistory : updateTrace.filterMap SharedEvent.action =
      [.invoke 1 (.get [[2]]), .respond 1 readBody,
        .invoke 2 (.store [storeEight]), .invoke 3 (.store [storeEight])] := rfl
  have hsingle : ∀ {n single},
      Requested Call.singles (updateTrace.filterMap SharedEvent.action) n single →
      single = .get [2] ∨ single = .store storeEight := by
    rintro ⟨ref, i⟩ single ⟨call, hcall, hrequest⟩
    rw [hhistory] at hcall
    have hmem := List.mem_of_getElem? hrequest
    simp only [List.mem_cons, Action.invoke.injEq, reduceCtorEq, false_or,
      List.not_mem_nil, or_false] at hcall
    rcases hcall with ⟨-, rfl⟩ | ⟨-, rfl⟩ | ⟨-, rfl⟩
    · exact .inl (List.mem_singleton.mp hmem)
    · exact .inr (List.mem_singleton.mp hmem)
    · exact .inr (List.mem_singleton.mp hmem)
  constructor
  case guarded =>
    intro n single hrequest _
    rcases hsingle hrequest with rfl | rfl
    · trivial
    · exact ⟨.inl rfl, by decide⟩
  case derived =>
    intro n request hrequest _
    obtain rfl : request = storeEight := by simpa using hsingle hrequest
    refine ⟨.int 7, ⟨1, .get [[2]], readBody, [gotEntry [2] (.int 7) 7], ?_, ?_,
      rfl, List.mem_singleton.mpr rfl⟩, rfl⟩
    · simp [hhistory]
    · simp [hhistory]

theorem updateTrace_kept :
    let _ : LcbTypes := ⟨.uint32⟩
    ∃ s, Run (sharedMachine (keyValue Codec.digits) sevenBucket₂)
        updateTrace s ∧
      UpdatesKept Codec.digits [2] increment (.int 7) updateTrace s := by
  intro _
  obtain ⟨s, hrun⟩ := updateRun
  have hrefs : RefsUnique (events updateTrace) := by
    have hcalled : (events updateTrace).filterMap calledRef = [1, 2, 3] := rfl
    rw [RefsUnique, hcalled]
    decide
  have hstore : Represents Codec.digits sevenBucket₂ sevenStore₂ := by
    intro key
    by_cases hkey : key = [2]
    · subst hkey
      exact ⟨rfl, rfl⟩
    · simp [sevenBucket₂, sevenStore₂, hkey, RepresentsAt]
  exact ⟨s, hrun, updatesKept_of_run hstore rfl hrun hrefs
    updateTrace_optimistic (by decide)⟩

end Cberl.System
