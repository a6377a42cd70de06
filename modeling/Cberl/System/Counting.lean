import Cberl.Store.CounterCommands
import Cberl.System.Linearizable
import Mathlib.Algebra.GroupWithZero.Nat

/-!
# Counters number things

Callers use a counter to number things: each adds to it and takes the number
that it gets back.  As long as the counter does not overflow, no increment is
lost and no number is given twice, for any number of callers, connections and
servers and any timeouts, and a call that is made after another one was answered
gets larger numbers.
-/

namespace Cberl.Store

open Cberl Cberl.Support

/-! ## One counter -/

section Legal

variable {ν : Type*} {key : Bytes} {delta : ν → ℕ} {order : List (ν × Term)}

/-- What the executed commands for the key add up to. -/
def total (key : Bytes) (delta : ν → ℕ) (order : List (ν × Term)) : ℕ :=
  ((order.filter fun entry => Api.responseKey entry.2 = some key).map
    fun entry => delta entry.1).sum

theorem total_concat (order : List (ν × Term)) (n : ν) (entry : Term) :
    total key delta (order ++ [(n, entry)]) =
      total key delta order +
        if Api.responseKey entry = some key then delta n else 0 := by
  rw [total, List.filter_append, List.map_append, List.sum_append]
  by_cases hkey : Api.responseKey entry = some key
  · simp [hkey, total]
  · simp [hkey, total]

/-- Along `order` the counter of the key goes from `start` to `n`, and the
commands get larger and larger numbers. -/
structure Tallied (key : Bytes) (delta : ν → ℕ) (start n : ℤ)
    (order : List (ν × Term)) : Prop where
  total : n = start + total key delta order
  numbered : ∀ entry ∈ order, Api.responseKey entry.2 = some key →
    ∃ i, numberAt key entry.2 = some i ∧ start < i ∧ i ≤ n
  increasing : order.Pairwise fun a b =>
    ∀ i ∈ numberAt key a.2, ∀ j ∈ numberAt key b.2, i < j

theorem responseKey_of_numberAt {entry : Term} {i : ℤ}
    (h : numberAt key entry = some i) : Api.responseKey entry = some key := by
  by_contra hkey
  rw [numberAt_eq_none hkey] at h
  cases h

variable {start n n' : ℤ}

/-- A command for another key. -/
theorem Tallied.other (h : Tallied key delta start n order) {name : ν}
    {entry : Term} (hkey : Api.responseKey entry ≠ some key) :
    Tallied key delta start n (order ++ [(name, entry)]) where
  total := by
    rw [total_concat, if_neg hkey, Nat.add_zero]
    exact h.total
  numbered := by
    intro other hother hkey'
    rcases List.mem_append.mp hother with hold | hnew
    · exact h.numbered other hold hkey'
    · obtain rfl := List.mem_singleton.mp hnew
      exact absurd hkey' hkey
  increasing := by
    rw [List.pairwise_append]
    refine ⟨h.increasing, List.pairwise_singleton _ _, ?_⟩
    intro a _ b hb i _ j hj
    obtain rfl := List.mem_singleton.mp hb
    rw [numberAt_eq_none hkey] at hj
    cases hj

/-- A command that adds to the counter. -/
theorem Tallied.add (h : Tallied key delta start n order) {name : ν}
    {entry : Term} (hentry : numberAt key entry = some n')
    (hn : n' = n + delta name) (hpositive : 0 < delta name) :
    Tallied key delta start n' (order ++ [(name, entry)]) where
  total := by
    rw [total_concat, if_pos (responseKey_of_numberAt hentry), hn, h.total]
    push_cast
    exact add_assoc _ _ _
  numbered := by
    intro other hother hkey
    rcases List.mem_append.mp hother with hold | hnew
    · obtain ⟨i, hi, hstart, hle⟩ := h.numbered other hold hkey
      exact ⟨i, hi, hstart, by omega⟩
    · obtain rfl := List.mem_singleton.mp hnew
      have htotal := h.total
      exact ⟨n', hentry, by omega, Int.le_refl n'⟩
  increasing := by
    rw [List.pairwise_append]
    refine ⟨h.increasing, List.pairwise_singleton _ _, ?_⟩
    intro a ha b hb i hi j hj
    obtain rfl := List.mem_singleton.mp hb
    have hkey := responseKey_of_numberAt (Option.mem_def.mp hi)
    obtain ⟨i', hi', -, hle⟩ := h.numbered a ha hkey
    obtain rfl : i' = i := Option.some.inj (hi'.symm.trans hi)
    obtain rfl : n' = j := Option.some.inj (hentry.symm.trans hj)
    omega

end Legal

/-- Without overflow an increment is an addition. -/
theorem memcachedUpdate_val {n : IntType.uint64.Val} {delta : IntType.int64.Val}
    {d : ℕ} (hdelta : delta.val = d) (hroom : n.val + d < 2 ^ 64) :
    (memcachedUpdate n delta).val = n.val + d := by
  have hn : 0 ≤ n.val := n.property.1
  have hd : 0 ≤ delta.val := by omega
  rw [memcachedUpdate, dif_pos hd, ← hdelta]
  exact Int.emod_eq_of_lt (by omega) (hdelta ▸ hroom)

variable [LcbTypes]

/-- Every request for the key adds the positive number `delta` of its name. -/
def Adds {ν : Type*} (key : Bytes) (delta : ν → ℕ)
    (input : ν → CounterRequest → Prop) : Prop :=
  ∀ {n request}, input n request → request.key = key →
    request.delta = delta n ∧ 0 < delta n

variable {ν : Type*} {key : Bytes} {delta : ν → ℕ}
  {input : ν → CounterRequest → Prop} {order : List (ν × Term)}
  {rules : CounterRules} {counters counters' : RefCounters}

/-- Every entry answers its request. -/
theorem entry_of_legal
    (hlegal : Legal (CountApply rules) input counters order counters') {n : ν}
    {entry : Term} (hentry : (n, entry) ∈ order) :
    ∃ request answer, input n request ∧
      entry = .tuple [.binary request.key, answer] ∧
      Api.ResultShape.okCasValue.accepts answer = true := by
  induction hlegal with
  | nil => cases hentry
  | concat _ hinput happly ih =>
      rcases List.mem_append.mp hentry with hold | hnew
      · exact ih hold
      · obtain ⟨rfl, rfl⟩ := Prod.mk.inj (List.mem_singleton.mp hnew)
        obtain ⟨fresh, -, rfl⟩ := happly
        exact ⟨_, _, hinput, rfl, accepts_refArithmetic _ _ _⟩

/-- Any legal order of increments tallies the counter of the key. -/
theorem tallied_of_legal {start : IntType.uint64.Val}
    (hlegal : Legal (CountApply .memcached) input counters order counters')
    (hadds : Adds key delta input) (hstart : counters key = some start)
    (hroom : start.val + total key delta order < 2 ^ 64) :
    ∃ n, counters' key = some n ∧
      Tallied key delta start.val n.val order := by
  induction hlegal with
  | nil =>
      refine ⟨start, hstart, ?_⟩
      exact {
        total := by simp [total]
        numbered := fun _ hentry => by cases hentry
        increasing := .nil }
  | @concat order c c' name request entry _ hinput happly ih =>
      have hroom' := hroom
      rw [total_concat] at hroom
      obtain ⟨n, hn, htallied⟩ := ih (by omega)
      obtain ⟨fresh, rfl, rfl⟩ := happly
      by_cases hkey : request.key = key
      · obtain ⟨hdelta, hpositive⟩ := hadds hinput hkey
        have hupdate : (memcachedUpdate n request.delta64).val =
            n.val + delta name := by
          refine memcachedUpdate_val hdelta ?_
          have htotal := htallied.total
          rw [if_pos (by rw [← hkey]; rfl)] at hroom
          omega
        rw [hkey, hn] at hroom' ⊢
        refine ⟨memcachedUpdate n request.delta64, ?_, ?_⟩
        · rw [Function.update_self]
          rfl
        · exact htallied.add (by simp [numberAt, refArithmetic, counterTerm,
            CounterRules.memcached]) hupdate hpositive
      · refine ⟨n, ?_, htallied.other ?_⟩
        · rw [Function.update_of_ne (Ne.symm hkey), hn]
        · simpa [Api.responseKey] using hkey

end Cberl.Store

namespace Cberl.System

open Cberl Cberl.Store Cberl.Support

section Runs

variable [LcbTypes]

/-! ## Calls on counters -/

/-- The call has returned the numbers under the key, in this order. -/
def Counted (key : Bytes) (history : List (Action Ref CounterCall Term))
    (ref : Ref) (numbers : List ℤ) : Prop :=
  ∃ call body result, .invoke ref call ∈ history ∧ .respond ref body ∈ history ∧
    call.returned body = .ok result ∧ numbers = call.numbers key result

variable {rules : CounterRules} {codec : Codec} {bucket : Bucket}
  {trace : List (SharedEvent (counting rules codec))}
  {s : SharedState (counting rules codec)} {counters : RefCounters} {key : Bytes}
  {ref ref' : Ref} {numbers numbers' : List ℤ}

/-- The commands of a call for one key take effect in its order. -/
theorem effects_inCallOrder
    (hcounts : ∀ key, CountsAt rules (bucket key) (counters key))
    (hrun : Run (sharedMachine (counting rules codec) bucket) trace s)
    (hrefs : RefsUnique (events trace)) :
    (trace.filterMap SharedEvent.effect).Pairwise fun a b =>
      a.1.1 = b.1.1 → Api.responseKey a.2 = Api.responseKey b.2 →
        a.1.2 < b.1.2 := by
  have horder := (List.pairwise_append.mp (ledger_inCallOrder hrun hrefs)).1
  rw [List.pairwise_map] at horder
  rw [effects_eq hrun, List.pairwise_map]
  refine horder.imp_of_mem ?_
  intro a b ha hb h href hkey
  have ha' := (entry_of_answered hcounts hrun a ha).1
  have hb' := (entry_of_answered hcounts hrun b hb).1
  refine h href ?_
  rw [← ha', ← hb']
  exact Option.some.inj hkey

/-- The numbers that a call returns are those of its commands. -/
theorem entries_of_counted
    (hcounts : ∀ key, CountsAt rules (bucket key) (counters key))
    (hrun : Run (sharedMachine (counting rules codec) bucket) trace s)
    (hrefs : RefsUnique (events trace)) (hids : IdsDistinct (events trace))
    (h : Counted key (trace.filterMap SharedEvent.action) ref numbers) :
    ∃ call entries, .invoke ref call ∈ trace.filterMap SharedEvent.action ∧
      numbers = entries.filterMap (numberAt key) ∧
      List.Forall₂ (fun entry request => ∃ answer,
        entry = .tuple [.binary request.key, answer]) entries call.requests ∧
      ∀ i entry, entries[i]? = some entry →
        ((ref, i), entry) ∈ trace.filterMap SharedEvent.effect := by
  obtain ⟨call, body, result, hcall, hbody, hreturned, rfl⟩ := h
  obtain ⟨counters', -, hlegal⟩ := shared_legal hcounts hrun
  obtain ⟨call', entries, hcall', hanswers, hlength, heffects⟩ :=
    Fulfilled.answered (fulfilled hcounts hrun hrefs hids)
      (List.append_nil trace).symm hbody
  obtain rfl := call_unique (invokedNames_nodup hrefs) hcall hcall'
  have hentries : List.Forall₂ (fun entry (request : CounterRequest) =>
      ∃ answer, entry = .tuple [.binary request.key, answer] ∧
        Api.ResultShape.okCasValue.accepts answer = true)
      entries call.requests := by
    rw [List.forall₂_iff_get]
    refine ⟨hlength, ?_⟩
    intro i hi hi'
    obtain ⟨request, answer, ⟨call', hcall', hrequest⟩, hentry, haccepts⟩ :=
      entry_of_legal hlegal (heffects i _ (List.getElem?_eq_getElem hi))
    obtain rfl := call_unique (invokedNames_nodup hrefs) hcall hcall'
    obtain ⟨_, rfl⟩ := List.getElem?_eq_some_iff.mp hrequest
    exact ⟨answer, hentry, haccepts⟩
  refine ⟨call, entries, hcall,
    CounterCall.numbers_eq hreturned hanswers hentries, ?_, heffects⟩
  exact hentries.imp fun _ _ ⟨answer, hentry, _⟩ => ⟨answer, hentry⟩

/-- A number that a call has returned is that of a command. -/
theorem effect_of_number
    (hcounts : ∀ key, CountsAt rules (bucket key) (counters key))
    (hrun : Run (sharedMachine (counting rules codec) bucket) trace s)
    (hrefs : RefsUnique (events trace)) (hids : IdsDistinct (events trace))
    (h : Counted key (trace.filterMap SharedEvent.action) ref numbers) {n : ℤ}
    (hn : n ∈ numbers) :
    ∃ k entry, ((ref, k), entry) ∈ trace.filterMap SharedEvent.effect ∧
      n ∈ numberAt key entry := by
  obtain ⟨call, entries, -, rfl, -, heffects⟩ :=
    entries_of_counted hcounts hrun hrefs hids h
  obtain ⟨entry, hentry, hnumber⟩ := List.mem_filterMap.mp hn
  obtain ⟨k, hk⟩ := List.mem_iff_getElem?.mp hentry
  exact ⟨k, entry, heffects k entry hk, hnumber⟩

/-- A call gets one number for each of its requests for the key. -/
theorem length_numbers {entries : List Term} {requests : List CounterRequest}
    (hentries : List.Forall₂ (fun entry request => ∃ answer,
      entry = .tuple [.binary request.key, answer]) entries requests)
    (hnumbered : ∀ entry ∈ entries, Api.responseKey entry = some key →
      ∃ i, numberAt key entry = some i) :
    (entries.filterMap (numberAt key)).length =
      (requests.filter fun request => request.key = key).length := by
  induction hentries with
  | nil => rfl
  | @cons entry request entries requests hentry _ ih =>
      have hrest := ih fun other hother =>
        hnumbered other (List.mem_cons_of_mem _ hother)
      obtain ⟨answer, rfl⟩ := hentry
      by_cases hkey : request.key = key
      · obtain ⟨i, hi⟩ := hnumbered _ List.mem_cons_self (by
          rw [← hkey]
          rfl)
        rw [List.filterMap_cons_some hi,
          List.filter_cons_of_pos (by simpa using hkey), List.length_cons,
          List.length_cons, hrest]
      · have hnone := @numberAt_eq_none key
          (.tuple [.binary request.key, answer]) (by
            simpa [Api.responseKey] using hkey)
        rw [List.filterMap_cons_none hnone,
          List.filter_cons_of_neg (by simpa using hkey), hrest]

end Runs

section Numbers

variable [LcbTypes]

/-- What callers can rely on who number things with a counter. -/
structure Numbering {codec : Codec} (key : Bytes) (delta : Ref × ℕ → ℕ)
    (start : IntType.uint64.Val)
    (trace : List (SharedEvent (counting .memcached codec)))
    (s : SharedState (counting .memcached codec)) : Prop where
  /-- No increment is lost. -/
  value : ∃ n, CountsAt .memcached (s.bucket key) (some n) ∧
    n.val = start.val + total key delta (trace.filterMap SharedEvent.effect)
  complete : ∀ {ref call numbers},
    .invoke ref call ∈ trace.filterMap SharedEvent.action →
    Counted key (trace.filterMap SharedEvent.action) ref numbers →
    numbers.length =
      (call.requests.filter fun request => request.key = key).length
  increasing : ∀ {ref numbers},
    Counted key (trace.filterMap SharedEvent.action) ref numbers →
    numbers.Pairwise (· < ·)
  /-- No number is given to two calls. -/
  distinct : ∀ {ref ref' numbers numbers'},
    Counted key (trace.filterMap SharedEvent.action) ref numbers →
    Counted key (trace.filterMap SharedEvent.action) ref' numbers' →
    ref ≠ ref' → numbers.Disjoint numbers'
  realTime : ∀ {before between after ref body ref' call' numbers numbers'},
    trace.filterMap SharedEvent.action =
      before ++ .respond ref body :: between ++ .invoke ref' call' :: after →
    Counted key (trace.filterMap SharedEvent.action) ref numbers →
    Counted key (trace.filterMap SharedEvent.action) ref' numbers' →
    ∀ i ∈ numbers, ∀ j ∈ numbers', i < j

variable {codec : Codec} {bucket : Bucket}
  {trace : List (SharedEvent (counting .memcached codec))}
  {s : SharedState (counting .memcached codec)} {counters : RefCounters}
  {key : Bytes} {delta : Ref × ℕ → ℕ} {start : IntType.uint64.Val}

/-- An increment by 1 under the key `[1]`. -/
def countUp : CounterRequest :=
  countOne 1 none (by decide) no_default

/-- The bucket with a counter under the key `[1]`. -/
def countBucket (n : IntType.uint64.Val) : Bucket :=
  Function.update (fun _ => none) [1] (some
    { bytes := CounterRules.memcached.write n
      flags := Api.encoderFlags .raw
      cas := sevenCas })

def countStart : RefCounters :=
  Function.update (fun _ => none) [1] (some ⟨41, by decide⟩)

def sevenCast (ref : Ref) (sender : Pid) (call : CounterCall) : Cast where
  ref := ref
  sender := sender
  request := call.request

def countJob (ref : Ref) (sender : Pid) (call : CounterCall) : Job where
  ctx := { reqPid := sender, reqId := (ref, 0, 0) }
  connection := 0
  operation := .arithmetic (call.requests.map CounterRequest.carried)

/-- `{Key, {ok, Cas, N}}` -/
def countEntry (n : ℤ) : Term :=
  .tuple [.binary [1], .tuple [.atom "ok", .int 7, .int n]]

def countLcb : Lcb :=
  { Lcb.silent with
    arithmetic := fun _ =>
      { schedule := none
        callbacks := [⟨[1], .ok { cas := sevenCas, value := ⟨43, by decide⟩ }⟩]
        wait := none } }

def countBody : Term :=
  (countJob 1 0 (.single countUp)).operation.execute countLcb

/-- Process 0 increments once and process 1 twice in one call; the increment of
process 0 comes between the other two. -/
def countTrace : List (SharedEvent (counting .memcached Codec.digits)) :=
  let single := CounterCall.single countUp
  let bulk := CounterCall.bulk [countUp, countUp]
  [.called 0 0 1 single single.request,
    .called 1 1 2 bulk bulk.request,
    .quiet (.arrived 0 0 (sevenCast 1 0 single)),
    .quiet (.arrived 1 1 (sevenCast 2 1 bulk)),
    .quiet (.accepted 0 (sevenCast 1 0 single) (countJob 1 0 single)),
    .quiet (.accepted 1 (sevenCast 2 1 bulk) (countJob 2 1 bulk)),
    .started 0 1 (countJob 1 0 single),
    .started 1 2 (countJob 2 1 bulk),
    .served 2 0 (countEntry 42),
    .served 1 0 (countEntry 43),
    .served 2 1 (countEntry 44),
    .executed 0 1 (countJob 1 0 single) countBody,
    .quiet (.responded 0 1 (countJob 1 0 single) countBody),
    .quiet (.delivered 0 (.accepted 1 (1, 0, 0))),
    .quiet (.delivered 0 (.response (1, 0, 0) countBody 1)),
    .quiet (.resumed 0 1 (1, 0, 0)),
    .quiet (.returned 0 1 (1, 0, 0) 1 countBody)]

end Numbers

theorem served_countUp [LcbTypes]
    {s : SharedState (counting .memcached Codec.digits)} {ref : Ref} {i : ℕ}
    {before after : List ((Ref × ℕ) × ArithmeticCmd)}
    {n n' : IntType.uint64.Val}
    (hpending : s.pending =
      before ++ ((ref, i), ArithmeticCmd.ofRequest countUp.carried) :: after)
    (hfirst : ∀ entry ∈ before, entry.1.1 ≠ ref)
    (hbucket : s.bucket = countBucket n)
    (hn : memcachedUpdate n countUp.delta64 = n') :
    SharedStep (counting .memcached Codec.digits) s
      (.served ref i (countEntry n'.val))
      { s with
        bucket := countBucket n'
        pending := before ++ after
        answered := s.answered ++
          [((ref, i), ArithmeticCmd.ofRequest countUp.carried,
            { key := [1]
              result := .ok (.tuple [.atom "ok", .int 7, .int n'.val]) })] } := by
  have hact : actArithmetic .memcached sevenCas (s.bucket [1])
      (ArithmeticCmd.ofRequest countUp.carried) =
        (countBucket n' [1], .ok (counterTerm sevenCas n')) := by
    rw [hbucket, countBucket, Function.update_self, actArithmetic]
    simp only [arithmeticStep, CounterRules.memcached.read_write]
    subst hn
    rfl
  have hcallback : (counting .memcached Codec.digits).callback sevenCas
      (s.bucket [1]) (ArithmeticCmd.ofRequest countUp.carried) =
        ⟨[1], .ok (counterTerm sevenCas n')⟩ :=
    congrArg (fun acted => Callback.mk [1] acted.2) hact
  have hexecute : (counting .memcached Codec.digits).execute sevenCas s.bucket
      (ArithmeticCmd.ofRequest countUp.carried) = countBucket n' := by
    have hupdate := congrArg
      (fun acted => Function.update s.bucket [1] acted.1) hact
    refine Eq.trans hupdate ?_
    rw [hbucket, countBucket, countBucket, Function.update_idem,
      Function.update_self]
  exact served_to sevenCas hpending
    (fun entry hentry href => absurd href (hfirst entry hentry))
    hexecute hcallback rfl

theorem countRun :
    let _ : LcbTypes := ⟨.uint32⟩
    ∃ s, Run (sharedMachine (counting .memcached Codec.digits)
        (countBucket ⟨41, by decide⟩))
      countTrace s := by
  intro _
  have h₀ : Run (sharedMachine (counting .memcached Codec.digits)
        (countBucket ⟨41, by decide⟩)) []
      { base := quietState, bucket := countBucket ⟨41, by decide⟩, pending := []
        answered := [] } :=
    .start ⟨initial_quietState, rfl, rfl, rfl⟩
  have h₁ : Run _ (countTrace.take 1) _ :=
    h₀.step (.called trivial rfl (.called rfl))
  have h₂ : Run _ (countTrace.take 2) _ :=
    h₁.step (.called trivial rfl (.called rfl))
  have h₃ : Run _ (countTrace.take 3) _ :=
    h₂.step (.quiet trivial (.arrived rfl rfl))
  have h₄ : Run _ (countTrace.take 4) _ :=
    h₃.step (.quiet trivial (.arrived rfl rfl))
  have h₅ : Run _ (countTrace.take 5) _ :=
    h₄.step (.quiet trivial (.accepted rfl rfl rfl))
  have h₆ : Run _ (countTrace.take 6) _ :=
    h₅.step (.quiet trivial (.accepted rfl rfl rfl))
  have h₇ : Run _ (countTrace.take 7) _ := h₆.step (.started (.started rfl rfl))
  have h₈ : Run _ (countTrace.take 8) _ := h₇.step (.started (.started rfl rfl))
  have h₉ : Run _ (countTrace.take 9) _ :=
    h₈.step
      (@served_countUp _ _ _ _ [_] _ _ ⟨42, by decide⟩ rfl (by simp) rfl rfl)
  have h₁₀ : Run _ (countTrace.take 10) _ :=
    h₉.step
      (@served_countUp _ _ _ _ [] _ _ ⟨43, by decide⟩ rfl (by simp) rfl rfl)
  have h₁₁ : Run _ (countTrace.take 11) _ :=
    h₁₀.step
      (@served_countUp _ _ _ _ [] _ _ ⟨44, by decide⟩ rfl (by simp) rfl rfl)
  have h₁₂ : Run _ (countTrace.take 12) _ :=
    h₁₁.step (.executed countLcb (.executed countLcb rfl)
      (reports_of_callbacks rfl rfl rfl))
  have h₁₃ : Run _ (countTrace.take 13) _ :=
    h₁₂.step (.quiet trivial (.responded rfl))
  have h₁₄ : Run _ (countTrace.take 14) _ :=
    h₁₃.step (.quiet trivial (@Step.delivered _ _ _ _ [] [_, _] rfl))
  have h₁₅ : Run _ (countTrace.take 15) _ :=
    h₁₄.step (.quiet trivial (@Step.delivered _ _ _ _ [_] [] rfl))
  have h₁₆ : Run _ (countTrace.take 16) _ :=
    h₁₅.step (.quiet trivial (.resumed rfl rfl))
  exact ⟨_, h₁₆.step (.quiet trivial (.returned rfl rfl))⟩

theorem countTrace_adds :
    let _ : LcbTypes := ⟨.uint32⟩
    Adds [1] (fun _ => 1) (Requested CounterCall.requests
      (countTrace.filterMap SharedEvent.action)) := by
  intro _ name request hrequest _
  obtain ⟨call, hcall, hrequest⟩ := hrequest
  have hhistory : countTrace.filterMap SharedEvent.action =
      [.invoke 1 (.single countUp), .invoke 2 (.bulk [countUp, countUp]),
        .respond 1 countBody] := rfl
  have hmem := List.mem_of_getElem? hrequest
  rw [hhistory] at hcall
  simp only [List.mem_cons, Action.invoke.injEq, reduceCtorEq, or_false,
    List.not_mem_nil] at hcall
  obtain rfl : request = countUp := by
    rcases hcall with ⟨-, rfl⟩ | ⟨-, rfl⟩
    · exact List.mem_singleton.mp hmem
    · simpa [CounterCall.requests] using hmem
  exact ⟨rfl, Nat.one_pos⟩

end Cberl.System
