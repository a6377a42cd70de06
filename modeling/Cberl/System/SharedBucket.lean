import Cberl.Store.Service
import Cberl.Support.Linearization
import Cberl.System.Order

/-!
# Any number of callers and servers on one bucket

The connection servers of a cluster share one bucket.  Callers make the calls
of a service, and the commands of an operation reach the bucket one by one while
its worker is inside it, between the commands of other workers.  Everything else
happens as before: messages are delayed, calls time out, and a request that the
NIF rejects brings its server down, with the calls of others in its mailbox and
its queue.  When an operation fails as a whole, some of its commands may have
been executed and others may still be, at any time.
-/

namespace Cberl.System

open Cberl Cberl.Store Cberl.Support

section Runs

variable [LcbTypes]

/-! ## The shared machine -/

structure SharedState (σ : Service) where
  base : State
  bucket : Bucket
  /-- The commands that were handed to libcouchbase and not executed yet, named
  by their call and their position in it. -/
  pending : List ((Ref × ℕ) × σ.Command)
  /-- The executed commands with their callbacks, oldest first. -/
  answered : List ((Ref × ℕ) × σ.Command × Callback Term)

/-- A call is labelled with what the caller asked for, before encoding, and an
executed command with its entry in the reply. -/
inductive SharedEvent (σ : Service) where
  | called (p : Pid) (v : ServerId) (ref : Ref) (call : σ.Call)
      (request : Request)
  | malformed (p : Pid) (v : ServerId) (ref : Ref) (request : Request)
  | started (v : ServerId) (ref : Ref) (job : Job)
  | served (ref : Ref) (i : ℕ) (entry : Term)
  | executed (v : ServerId) (ref : Ref) (job : Job) (body : Term)
  | quiet (event : Event)

variable {σ : Service}

/-- The commands of an operation, by name. -/
def issuedBy (σ : Service) (ref : Ref) (job : Job) :
    List ((Ref × ℕ) × σ.Command) :=
  (σ.commandsOf job.operation).zipIdx.map fun entry => ((ref, entry.2), entry.1)

/-- A body `{ok, Responses}`, in contrast to `{error, Reason}`. -/
def succeeded : Term → Bool
  | .tuple [.atom "ok", _] => true
  | _ => false

namespace SharedEvent

def event : SharedEvent σ → Option Event
  | called p v ref _ request => some (.called p v ref request)
  | malformed p v ref request => some (.called p v ref request)
  | started v ref job => some (.started v ref job)
  | served _ _ _ => none
  | executed v ref job body => some (.executed v ref job body)
  | quiet event => some event

/-- What the caller sees: it makes a call, or `call/3` hands it a body that is
not an error. -/
def action : SharedEvent σ → Option (Action Ref σ.Call Term)
  | called _ _ ref call _ => some (.invoke ref call)
  | quiet (.returned _ ref _ _ body) =>
      if succeeded body then some (.respond ref body) else none
  | _ => none

/-- The command that takes effect, with its entry. -/
def effect : SharedEvent σ → Option ((Ref × ℕ) × Term)
  | served ref i entry => some ((ref, i), entry)
  | _ => none

/-- The commands that an event hands to libcouchbase. -/
def issued : SharedEvent σ → List ((Ref × ℕ) × σ.Command)
  | started _ ref job => issuedBy σ ref job
  | _ => []

end SharedEvent

/-- Not an event of which the shared machine says more. -/
def Event.Quiet : Event → Prop
  | called _ _ _ _ => False
  | started _ _ _ => False
  | executed _ _ _ _ => False
  | _ => True

/-- The callbacks of the commands of one call. -/
def SharedState.callbacks (s : SharedState σ) (ref : Ref) :
    List (Callback Term) :=
  (s.answered.filter fun entry => entry.1.1 = ref).map fun entry => entry.2.2

/-- An operation that does not fail waits for all of its commands and runs
their callbacks, in any order of the keys. -/
structure Reports (s : SharedState σ) (ref : Ref) (outcome : Outcome Term) :
    Prop where
  none_pending : ∀ entry ∈ s.pending, entry.1.1 ≠ ref
  callbacks : KeyEquiv Callback.key outcome.callbacks (s.callbacks ref)

inductive SharedStep (σ : Service) :
    SharedState σ → SharedEvent σ → SharedState σ → Prop
  | called {s : SharedState σ} {p : Pid} {v : ServerId} {ref : Ref}
      {call : σ.Call} {request : Request} {base : State}
      (hplain : σ.Plain call)
      (hrequest : (σ.bulk call).request σ.codec = .ok request)
      (hstep : Step s.base (.called p v ref request) base) :
      SharedStep σ s (.called p v ref call request) { s with base }
  /-- A call whose request the NIF will reject, to the end of the server. -/
  | malformed {s : SharedState σ} {p : Pid} {v : ServerId} {ref : Ref}
      {request : Request} {base : State}
      (hrequest : request.operation = none)
      (hstep : Step s.base (.called p v ref request) base) :
      SharedStep σ s (.malformed p v ref request) { s with base }
  | started {s : SharedState σ} {v : ServerId} {ref : Ref} {job : Job}
      {base : State} (hstep : Step s.base (.started v ref job) base) :
      SharedStep σ s (.started v ref job)
        { s with base, pending := s.pending ++ issuedBy σ ref job }
  /-- Commands of one call for one key are executed in their order. -/
  | served {s : SharedState σ} {ref : Ref} {i : ℕ} {command : σ.Command}
      {before after : List ((Ref × ℕ) × σ.Command)} (fresh : LcbCas)
      (hpending : s.pending = before ++ ((ref, i), command) :: after)
      (hfirst : ∀ entry ∈ before, entry.1.1 = ref →
        σ.key entry.2 ≠ σ.key command) :
      SharedStep σ s
        (.served ref i
          (σ.entry command
            (σ.callback fresh (s.bucket (σ.key command)) command)))
        { s with
          bucket := σ.execute fresh s.bucket command
          pending := before ++ after
          answered := s.answered ++
            [((ref, i), command,
              σ.callback fresh (s.bucket (σ.key command)) command)] }
  | executed {s : SharedState σ} {v : ServerId} {ref : Ref} {job : Job}
      {base : State} (lcb : Lcb)
      (hstep : Step s.base (.executed v ref job (job.operation.execute lcb)) base)
      (hreports : ∀ outcome, job.operation.batchOutcome lcb = some outcome →
        outcome.schedule.or outcome.wait = none → Reports s ref outcome) :
      SharedStep σ s (.executed v ref job (job.operation.execute lcb))
        { s with base }
  | quiet {s : SharedState σ} {event : Event} {base : State}
      (hquiet : event.Quiet) (hstep : Step s.base event base) :
      SharedStep σ s (.quiet event) { s with base }

def sharedMachine (σ : Service) (bucket : Bucket) :
    TransitionSystem (SharedState σ) (SharedEvent σ) where
  Initial s :=
    Initial s.base ∧ s.bucket = bucket ∧ s.pending = [] ∧ s.answered = []
  Step := SharedStep σ

/-! ## The run of the system -/

variable {bucket : Bucket} {trace : List (SharedEvent σ)}
  {s s' : SharedState σ} {label : SharedEvent σ} {p : Pid} {v : ServerId}
  {ref : Ref} {job : Job} {body : Term}

/-- The events of the system in a shared run. -/
def events (trace : List (SharedEvent σ)) : List Event :=
  trace.filterMap SharedEvent.event

theorem SharedStep.base (hstep : SharedStep σ s label s') {event : Event}
    (hevent : label.event = some event) : Step s.base event s'.base := by
  cases hstep with
  | served fresh hpending hfirst => cases hevent
  | called hplain hrequest hstep =>
      obtain rfl := Option.some.inj hevent
      exact hstep
  | malformed hrequest hstep =>
      obtain rfl := Option.some.inj hevent
      exact hstep
  | started hstep =>
      obtain rfl := Option.some.inj hevent
      exact hstep
  | executed lcb hstep hreports =>
      obtain rfl := Option.some.inj hevent
      exact hstep
  | quiet hquiet hstep =>
      obtain rfl := Option.some.inj hevent
      exact hstep

/-- Forgetting the bucket leaves a run of the system. -/
theorem run_events (hrun : Run (sharedMachine σ bucket) trace s) :
    Run machine (events trace) s.base := by
  have hsimulated : ∃ base, Run machine (events trace) base ∧ base = s.base := by
    refine Run.simulate_stutter (M := sharedMachine σ bucket) machine
      SharedEvent.event (fun s base => base = s.base) ?_ ?_ ?_ hrun
    · intro s hs
      exact ⟨_, hs.1, rfl⟩
    · rintro s₁ label s₂ _ event hstep rfl hevent
      exact ⟨_, hstep.base hevent, rfl⟩
    · rintro s₁ label s₂ _ hstep rfl hevent
      cases hstep with
      | served fresh hpending hfirst => rfl
      | _ => cases hevent
  obtain ⟨_, hbase, rfl⟩ := hsimulated
  exact hbase

theorem mem_events {event : Event} :
    event ∈ events trace ↔ ∃ label ∈ trace, label.event = some event :=
  List.mem_filterMap

/-- An event of the base is one of a label, and the label that of a step. -/
theorem exists_step_of_event (hrun : Run (sharedMachine σ bucket) trace s)
    {event : Event} (h : event ∈ events trace) :
    ∃ label ∈ trace, label.event = some event ∧
      ∃ s₁ s₂, SharedStep σ s₁ label s₂ := by
  obtain ⟨label, hlabel, hevent⟩ := mem_events.mp h
  obtain ⟨before, after, rfl⟩ := List.append_of_mem hlabel
  obtain ⟨s₁, s₂, -, hstep⟩ := hrun.exists_step
  exact ⟨label, hlabel, hevent, s₁, s₂, hstep⟩

/-- Every cast that the NIF can convert comes from a plain call. -/
theorem call_of_called (hrun : Run (sharedMachine σ bucket) trace s)
    {request : Request} (h : .called p v ref request ∈ events trace)
    (hoperation : request.operation ≠ none) :
    ∃ call, .called p v ref call request ∈ trace ∧ σ.Plain call ∧
      (σ.bulk call).request σ.codec = .ok request := by
  obtain ⟨label, hlabel, hevent, s₁, s₂, hstep⟩ := exists_step_of_event hrun h
  cases hstep with
  | called hplain hrequest hstep =>
      cases hevent
      exact ⟨_, hlabel, hplain, hrequest⟩
  | malformed hrequest hstep =>
      cases hevent
      exact absurd hrequest hoperation
  | quiet hquiet hstep =>
      obtain rfl := Option.some.inj hevent
      exact hquiet.elim
  | _ => cases hevent

/-- What a worker starts was called before, and its operation is what becomes of
the call. -/
theorem call_of_started (hrun : Run (sharedMachine σ bucket) trace s)
    (h : .started v ref job ∈ events trace) :
    ∃ p call request, .called p v ref call request ∈ trace ∧
      σ.Becomes call job.operation := by
  have hbase := run_events hrun
  obtain ⟨cast, rfl, haccepted⟩ := accepted_of_started hbase h
  have hoperation := (job_of_accepted hbase haccepted).2
  obtain ⟨call, hcalled, hplain, hrequest⟩ :=
    call_of_called hrun (called_of_accepted hbase haccepted)
      (by simp [hoperation])
  obtain ⟨request, operation, hrequest', hoperation', hbecomes⟩ :=
    σ.carried hplain
  obtain rfl := Except.ok.inj (hrequest.symm.trans hrequest')
  obtain rfl := Option.some.inj (hoperation.symm.trans hoperation')
  exact ⟨_, call, _, hcalled, hbecomes⟩

/-- A start is never quiet. -/
theorem started_of_events (hrun : Run (sharedMachine σ bucket) trace s)
    (h : .started v ref job ∈ events trace) :
    SharedEvent.started v ref job ∈ trace := by
  obtain ⟨label, hlabel, hevent, s₁, s₂, hstep⟩ := exists_step_of_event hrun h
  cases hstep with
  | started hstep =>
      cases hevent
      exact hlabel
  | quiet hquiet hstep =>
      obtain rfl := Option.some.inj hevent
      exact hquiet.elim
  | _ => cases hevent

/-! ## Names -/

def startedRef : Event → Option Ref
  | .started _ ref _ => some ref
  | _ => none

theorem started_nodup {trace : List Event} {s : State}
    (hrun : Run machine trace s) (hrefs : RefsUnique trace) (v : ServerId) :
    ((trace.filterMap (startedOn v)).map Prod.fst).Nodup := by
  have hposted := posted_nodup hrun hrefs v
  obtain ⟨dropped, hqueue, -⟩ := queueLaw hrun v
  rw [hqueue, List.append_assoc, List.map_append] at hposted
  exact hposted.of_append_left

/-- A call is started at most once, by whichever worker. -/
theorem startedRef_nodup {trace : List Event} {s : State}
    (hrun : Run machine trace s) (hrefs : RefsUnique trace) :
    (trace.filterMap startedRef).Nodup := by
  revert hrefs
  refine @Run.invariant _ _ machine (fun trace _ => RefsUnique trace →
    (trace.filterMap startedRef).Nodup) ?_ ?_ _ _ hrun
  · intro s hs _
    exact List.nodup_nil
  · intro trace s label s' hrun ih hstep hrefs
    have hrun' : Run machine (trace ++ [label]) s' := .step hrun hstep
    apply nodup_filterMap_concat (ih hrefs.of_append)
    intro ref hnew hold
    obtain ⟨event, hevent, href⟩ := List.mem_filterMap.mp hold
    cases label with
    | started v ref' job =>
        obtain rfl := Option.some.inj hnew
        cases event with
        | started v' ref' job' =>
            obtain rfl := Option.some.inj href
            have hlast : .started v ref' job ∈
                trace ++ [.started v ref' job] := by simp
            obtain ⟨cast, hcast, haccepted⟩ := accepted_of_started hrun' hlast
            obtain ⟨cast', hcast', haccepted'⟩ :=
              accepted_of_started hrun' (List.mem_append_left _ hevent)
            obtain ⟨rfl, -, -⟩ := hrefs.accepted_inj hrun' haccepted
              haccepted' (hcast.trans hcast'.symm)
            have honce := started_nodup hrun' hrefs v
            rw [List.filterMap_append, List.map_append] at honce
            refine List.disjoint_of_nodup_append honce
              (List.mem_map.mpr ⟨_, mem_startedOn.mpr hevent, rfl⟩) ?_
            simp [startedOn]
        | _ => cases href
    | _ => cases hnew

theorem mem_issuedBy {name : Ref × ℕ} {command : σ.Command} :
    (name, command) ∈ issuedBy σ ref job ↔
      name.1 = ref ∧ (σ.commandsOf job.operation)[name.2]? = some command := by
  simp only [issuedBy, List.mem_map, List.mem_zipIdx_iff_getElem?]
  constructor
  · rintro ⟨entry, hentry, h⟩
    cases h
    exact ⟨rfl, hentry⟩
  · rintro ⟨rfl, hcommand⟩
    exact ⟨(command, name.2), hcommand, rfl⟩

theorem issuedBy_nodup (ref : Ref) (job : Job) :
    ((issuedBy σ ref job).map Prod.fst).Nodup := by
  have hnames : (issuedBy σ ref job).map Prod.fst =
      ((σ.commandsOf job.operation).zipIdx.map Prod.snd).map (Prod.mk ref) := by
    rw [issuedBy, List.map_map, List.map_map]
    rfl
  rw [hnames, List.zipIdx_map_snd]
  exact List.Nodup.map (fun i j h => (Prod.mk.inj h).2) List.nodup_range'

/-- The commands handed to libcouchbase so far. -/
def issued (trace : List (SharedEvent σ)) : List ((Ref × ℕ) × σ.Command) :=
  trace.flatMap SharedEvent.issued

theorem mem_issued {name : Ref × ℕ} {command : σ.Command} :
    (name, command) ∈ issued trace ↔ ∃ v job,
      SharedEvent.started v name.1 job ∈ trace ∧
        (σ.commandsOf job.operation)[name.2]? = some command := by
  rw [issued, List.mem_flatMap]
  constructor
  · rintro ⟨label, hlabel, hissued⟩
    cases label with
    | started v ref job =>
        obtain ⟨rfl, hcommand⟩ := mem_issuedBy.mp hissued
        exact ⟨v, job, hlabel, hcommand⟩
    | _ => cases hissued
  · rintro ⟨v, job, hlabel, hcommand⟩
    exact ⟨_, hlabel, mem_issuedBy.mpr ⟨rfl, hcommand⟩⟩

theorem nodup_issued (hrun : Run (sharedMachine σ bucket) trace s)
    (hrefs : RefsUnique (events trace)) :
    ((issued trace).map Prod.fst).Nodup := by
  have hstarted := startedRef_nodup (run_events hrun) hrefs
  rw [events, List.filterMap_filterMap] at hstarted
  have hpairwise := List.pairwise_filterMap.mp hstarted
  rw [issued, List.map_flatMap, List.nodup_flatMap]
  constructor
  · intro label _
    cases label with
    | started v ref job => exact issuedBy_nodup ref job
    | _ => exact List.nodup_nil
  · refine hpairwise.imp ?_
    intro label label' hne name h h'
    obtain ⟨⟨_, command⟩, hissued, rfl⟩ := List.mem_map.mp h
    obtain ⟨⟨name, command'⟩, hissued', hname⟩ := List.mem_map.mp h'
    obtain rfl : name = _ := hname
    cases label with
    | started v ref job =>
        cases label' with
        | started v' ref' job' =>
            have href := (mem_issuedBy.mp hissued).1
            have href' := (mem_issuedBy.mp hissued').1
            exact hne _ rfl _ rfl (href.symm.trans href')
        | _ => cases hissued'
    | _ => cases hissued

/-! ## What becomes of the commands -/

/-- The executed and the pending commands. -/
def SharedState.ledger (s : SharedState σ) : List ((Ref × ℕ) × σ.Command) :=
  s.answered.map (fun entry => (entry.1, entry.2.1)) ++ s.pending

theorem SharedStep.ledger (hstep : SharedStep σ s label s') :
    s'.ledger.Perm (s.ledger ++ label.issued) := by
  cases hstep with
  | started hstep =>
      rw [SharedState.ledger, SharedState.ledger, List.append_assoc]
      exact List.Perm.refl _
  | served fresh hpending hfirst =>
      simp only [SharedState.ledger, SharedEvent.issued, hpending,
        List.map_append, List.map_singleton, List.append_nil,
        List.append_assoc, List.singleton_append]
      exact List.Perm.append_left _ List.perm_middle.symm
  | called hplain hrequest hstep =>
      exact List.Perm.of_eq (List.append_nil _).symm
  | malformed hrequest hstep =>
      exact List.Perm.of_eq (List.append_nil _).symm
  | executed lcb hstep hreports =>
      exact List.Perm.of_eq (List.append_nil _).symm
  | quiet hquiet hstep => exact List.Perm.of_eq (List.append_nil _).symm

/-- Every command is executed or still pending, and nothing else is. -/
theorem ledger_perm (hrun : Run (sharedMachine σ bucket) trace s) :
    s.ledger.Perm (issued trace) := by
  refine @Run.invariant _ _ (sharedMachine σ bucket)
    (fun trace s => s.ledger.Perm (issued trace)) ?_ ?_ _ _ hrun
  · rintro s ⟨-, -, hpending, hanswered⟩
    simp [SharedState.ledger, hpending, hanswered, issued]
  · intro trace s label s' _ ih hstep
    rw [issued, List.flatMap_append, List.flatMap_singleton]
    exact (SharedStep.ledger hstep).trans (ih.append_right _)

theorem SharedStep.effects (hstep : SharedStep σ s label s') :
    s'.answered.map (fun answer => (answer.1, σ.entry answer.2.1 answer.2.2)) =
      s.answered.map (fun answer => (answer.1, σ.entry answer.2.1 answer.2.2)) ++
        label.effect.toList := by
  cases hstep with
  | served fresh hpending hfirst => simp [SharedEvent.effect]
  | _ => simp [SharedEvent.effect]

/-- The executed commands are those that have taken effect, each with the entry
of its callback. -/
theorem effects_eq (hrun : Run (sharedMachine σ bucket) trace s) :
    trace.filterMap SharedEvent.effect =
      s.answered.map fun answer =>
        (answer.1, σ.entry answer.2.1 answer.2.2) := by
  refine @Run.invariant _ _ (sharedMachine σ bucket) (fun trace s =>
    trace.filterMap SharedEvent.effect =
      s.answered.map fun answer =>
        (answer.1, σ.entry answer.2.1 answer.2.2)) ?_ ?_ _ _ hrun
  · rintro s ⟨-, -, -, hanswered⟩
    rw [hanswered]
    rfl
  · intro trace s label s' _ ih hstep
    rw [List.filterMap_append, filterMap_singleton, ih,
      SharedStep.effects hstep]

theorem effects_nodup (hrun : Run (sharedMachine σ bucket) trace s)
    (hrefs : RefsUnique (events trace)) :
    ((trace.filterMap SharedEvent.effect).map Prod.fst).Nodup := by
  have hnodup := nodup_issued hrun hrefs
  rw [← ((ledger_perm hrun).map Prod.fst).nodup_iff, SharedState.ledger,
    List.map_append, List.map_map] at hnodup
  rw [effects_eq hrun, List.map_map]
  exact hnodup.of_append_left

/-- In the order of execution followed by the order of handing over, the
commands of one call for one key are in the order of the call. -/
def InCallOrder (entries : List ((Ref × ℕ) × σ.Command)) : Prop :=
  entries.Pairwise fun a b =>
    a.1.1 = b.1.1 → σ.key a.2 = σ.key b.2 → a.1.2 < b.1.2

theorem issuedBy_inCallOrder (ref : Ref) (job : Job) :
    InCallOrder (issuedBy σ ref job) := by
  rw [InCallOrder, issuedBy, List.pairwise_map, List.zipIdx_eq_zip_range']
  have hsorted : (List.range' 0 (σ.commandsOf job.operation).length).Pairwise
      (· < ·) := List.pairwise_lt_range'
  rw [List.pairwise_iff_getElem] at hsorted ⊢
  intro i j hi hj hij _ _
  simp only [List.getElem_zip]
  exact hsorted i j _ _ hij

/-- Bringing an entry forward over entries of other keys or calls. -/
theorem InCallOrder.bring_forward
    {front before after : List ((Ref × ℕ) × σ.Command)}
    {entry : (Ref × ℕ) × σ.Command}
    (h : InCallOrder (front ++ (before ++ entry :: after)))
    (hfirst : ∀ other ∈ before, other.1.1 = entry.1.1 →
      σ.key other.2 ≠ σ.key entry.2) :
    InCallOrder (front ++ entry :: (before ++ after)) := by
  have hmoved : (before ++ entry :: after).Pairwise (fun a b =>
      a.1.1 = b.1.1 → σ.key a.2 = σ.key b.2 → a.1.2 < b.1.2) →
      (entry :: (before ++ after)).Pairwise fun a b =>
        a.1.1 = b.1.1 → σ.key a.2 = σ.key b.2 → a.1.2 < b.1.2 := by
    intro hpairwise
    rw [List.pairwise_append, List.pairwise_cons] at hpairwise
    obtain ⟨hbefore, ⟨hentry, hafter⟩, hcross⟩ := hpairwise
    rw [List.pairwise_cons, List.pairwise_append]
    refine ⟨?_, hbefore, hafter, fun a ha b hb =>
      hcross a ha b (List.mem_cons_of_mem _ hb)⟩
    intro other hother href hkey
    rcases List.mem_append.mp hother with hbefore' | hafter'
    · exact absurd hkey.symm (hfirst other hbefore' href.symm)
    · exact hentry other hafter' href hkey
  rw [InCallOrder, List.pairwise_append] at h ⊢
  refine ⟨h.1, hmoved h.2.1, fun a ha b hb => h.2.2 a ha b ?_⟩
  simp only [List.mem_cons, List.mem_append] at hb ⊢
  tauto

theorem ledger_inCallOrder (hrun : Run (sharedMachine σ bucket) trace s)
    (hrefs : RefsUnique (events trace)) : InCallOrder s.ledger := by
  revert hrefs
  refine @Run.invariant _ _ (sharedMachine σ bucket) (fun trace s =>
    RefsUnique (events trace) → InCallOrder s.ledger) ?_ ?_ _ _ hrun
  · rintro s ⟨-, -, hpending, hanswered⟩ _
    rw [SharedState.ledger, hpending, hanswered]
    exact List.Pairwise.nil
  · intro trace s label s' hrun ih hstep hrefs
    have hrun' : Run (sharedMachine σ bucket) (trace ++ [label]) s' :=
      .step hrun hstep
    have horder : InCallOrder s.ledger := by
      rw [events, List.filterMap_append] at hrefs
      exact ih hrefs.of_append
    cases hstep with
    | @started v ref job base hstep =>
        rw [SharedState.ledger, ← List.append_assoc, InCallOrder,
          List.pairwise_append]
        refine ⟨horder, issuedBy_inCallOrder ref job, ?_⟩
        -- The calls of the ledger were started before this one.
        intro a ha b hb href
        have hstarted := (ledger_perm hrun).mem_iff.mp ha
        obtain ⟨v', job', hlabel, -⟩ := mem_issued.mp hstarted
        have hrefnodup := startedRef_nodup (run_events hrun') hrefs
        rw [events, List.filterMap_append, List.filterMap_append] at hrefnodup
        refine (List.disjoint_of_nodup_append hrefnodup
          (a := a.1.1) ?_ ?_).elim
        · refine List.mem_filterMap.mpr ⟨.started v' a.1.1 job', ?_, rfl⟩
          exact mem_events.mpr ⟨_, hlabel, rfl⟩
        · rw [href, (mem_issuedBy.mp hb).1]
          simp [SharedEvent.event, startedRef]
    | served fresh hpending hfirst =>
        rw [SharedState.ledger, hpending] at horder
        have hmoved := horder.bring_forward hfirst
        rw [SharedState.ledger, List.map_append, List.append_assoc]
        exact hmoved
    | _ => exact horder

end Runs

end Cberl.System
