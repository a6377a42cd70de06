import Cberl.System.Correlation

/-!
# The order of executions on one client

Between a call and its execution lie three queues: the signals from the caller
to the server, the server's inbox, and the queue of the worker.  Each is first
in, first out, so as long as the server lives, what has been executed is an
initial segment of what was posted, and for each caller an initial segment of
what it called.  A timeout changes none of the queues.
-/

namespace Cberl.System

open Cberl Cberl.Support

section Runs

variable [LcbTypes]

/-! ## Readings by reference -/

/-- The calls of `p` to `v`, in program order. -/
def callRefs (p : Pid) (v : ServerId) (trace : List Event) : List Ref :=
  (trace.filterMap (callTo p v)).map Cast.ref

def postedRefs (v : ServerId) (trace : List Event) : List Ref :=
  (trace.filterMap (postedTo v)).map Prod.fst

/-- The executions on the client of `v`, in execution order. -/
def executedRefs (v : ServerId) (trace : List Event) : List Ref :=
  (trace.filterMap (executedOn v)).map Prod.fst

def respondedRefs (v : ServerId) (trace : List Event) : List Ref :=
  (trace.filterMap (respondedOn v)).map Prod.fst

/-- The executions on the client of `v` for calls of `p`. -/
def executedRefsOf (p : Pid) (v : ServerId) (trace : List Event) : List Ref :=
  ((trace.filterMap (executedOn v)).filter fun entry =>
    entry.2.1.ctx.reqPid = p).map Prod.fst

/-- The calls of `p` posted to the client of `v`. -/
def postedRefsOf (p : Pid) (v : ServerId) (trace : List Event) : List Ref :=
  ((trace.filterMap (postedTo v)).filter fun entry =>
    entry.2.ctx.reqPid = p).map Prod.fst

/-- What a worker does with one handler. -/
inductive WorkerEvent where
  | start (ref : Ref)
  | execute (ref : Ref)
  | respond (ref : Ref)

def workerEvent (v : ServerId) : Event → Option WorkerEvent
  | .started v' ref _ => if v' = v then some (.start ref) else none
  | .executed v' ref _ _ => if v' = v then some (.execute ref) else none
  | .responded v' ref _ _ => if v' = v then some (.respond ref) else none
  | _ => none

/-- The handlers of the given calls, one after the other. -/
def serial (refs : List Ref) : List WorkerEvent :=
  refs.flatMap fun ref => [.start ref, .execute ref, .respond ref]

/-- The server is alive throughout: it rejects no request. -/
def Live (v : ServerId) (trace : List Event) : Prop :=
  ∀ cast id, .crashed v cast id ∉ trace

/-- Execution on the client of `v` is serial, happens at most once for each
call, and follows program order and real time. -/
structure Ordered (v : ServerId) (trace : List Event) : Prop where
  executedOnce : (executedRefs v trace).Nodup
  respondedOnce : (respondedRefs v trace).Nodup
  respondedAfter : respondedRefs v trace <+: executedRefs v trace
  /-- Executions do not overlap. -/
  serial : ∃ refs, trace.filterMap (workerEvent v) <+: serial refs
  /-- The executed calls of a caller are its first calls, in its order. -/
  programOrder : ∀ p, executedRefsOf p v trace <+: callRefs p v trace
  /-- A call that returned before another began is executed before it. -/
  realTime : ∀ {before between after p q ref ref' id tag body request request'},
    trace = before ++ .returned p ref id tag body :: between ++
      .called q v ref' request' :: after →
    .called p v ref request ∈ trace → ref' ∈ executedRefs v trace →
    [ref, ref'].Sublist (executedRefs v trace)

variable {trace : List Event} {s : State} {v : ServerId}

/-! ## One handler at a time -/

/-- What the worker has done with the handler it is at. -/
def Worker.progress : Worker → List WorkerEvent
  | idle => []
  | running ref _ => [.start ref]
  | finished ref _ _ => [.start ref, .execute ref]

theorem workerEvent_eq_none {event : Event} (hstarted : startedOn v event = none)
    (hexecuted : executedOn v event = none)
    (hresponded : respondedOn v event = none) : workerEvent v event = none := by
  cases event with
  | started v' ref job => simpa [startedOn, workerEvent] using hstarted
  | executed v' ref job body => simpa [executedOn, workerEvent] using hexecuted
  | responded v' ref job body =>
      simpa [respondedOn, workerEvent] using hresponded
  | _ => rfl

theorem workerEvents_eq (hrun : Run machine trace s) (v : ServerId) :
    trace.filterMap (workerEvent v) =
      serial (respondedRefs v trace) ++ (s.worker v).progress := by
  refine @Run.invariant _ _ machine (fun trace s =>
    trace.filterMap (workerEvent v) =
      serial (respondedRefs v trace) ++ (s.worker v).progress) ?_ ?_ _ _ hrun
  · intro s hs
    simp [hs.worker v, serial, respondedRefs, Worker.progress]
  · intro trace s label s' _ ih hstep
    rcases Step.worker hstep v with ⟨hsame, hstarted, hexecuted, hresponded⟩ |
      ⟨ref, job, rfl, hold, hnew⟩ | ⟨ref, job, body, rfl, hold, hnew⟩ |
      ⟨ref, job, body, rfl, hold, hnew⟩
    · have hnone := workerEvent_eq_none hstarted hexecuted hresponded
      simp [ih, hnone, hsame, hresponded, respondedRefs]
    all_goals
      rw [hold] at ih
      simp [ih, hnew, workerEvent, respondedRefs, respondedOn, serial,
        Worker.progress]

theorem workerEvents_isPrefix_serial (hrun : Run machine trace s)
    (v : ServerId) :
    ∃ refs, trace.filterMap (workerEvent v) <+: serial refs := by
  have hevents := workerEvents_eq hrun v
  cases hworker : s.worker v with
  | idle =>
      refine ⟨respondedRefs v trace, ?_⟩
      simp [hevents, hworker, Worker.progress]
  | running ref job =>
      refine ⟨respondedRefs v trace ++ [ref], ?_⟩
      simp [hevents, hworker, Worker.progress, serial]
  | finished ref job body =>
      refine ⟨respondedRefs v trace ++ [ref], ?_⟩
      simp [hevents, hworker, Worker.progress, serial]

/-! ## Program order -/

/-- What a server posted for `p` it took from the casts of `p`. -/
theorem postedRefsOf_sublist_handled (hrun : Run machine trace s) (p : Pid)
    (v : ServerId) :
    (postedRefsOf p v trace).Sublist
      ((trace.filterMap (handledBy v p)).map Cast.ref) := by
  rw [postedRefsOf, List.filter_filterMap, List.map_filterMap,
    List.map_filterMap]
  apply filterMap_sublist_of_imp
  intro event hevent ref hposted
  cases event with
  | accepted v' cast job =>
      have hpid := (job_of_accepted hrun hevent).1
      by_cases hv : v' = v
      · by_cases hp : cast.sender = p
        · simpa [postedTo, handledBy, hv, hp, hpid] using hposted
        · simp [postedTo, hv, hp, hpid] at hposted
      · simp [postedTo, hv] at hposted
  | _ => cases hposted

/-- Without a crash, what a server took from `p` is what it posted for `p`. -/
theorem postedRefsOf_eq_handled (hrun : Run machine trace s)
    (hlive : Live v trace) (p : Pid) :
    postedRefsOf p v trace = (trace.filterMap (handledBy v p)).map Cast.ref := by
  rw [postedRefsOf, List.filter_filterMap, List.map_filterMap,
    List.map_filterMap]
  apply List.filterMap_congr
  intro event hevent
  cases event with
  | accepted v' cast job =>
      have hpid := (job_of_accepted hrun hevent).1
      by_cases hv : v' = v
      · by_cases hp : cast.sender = p
        · simp [postedTo, handledBy, hv, hp, hpid]
        · simp [postedTo, handledBy, hv, hp, hpid]
      · simp [postedTo, handledBy, hv]
  | crashed v' cast id =>
      have hv : v' ≠ v := by
        rintro rfl
        exact hlive cast id hevent
      simp [postedTo, handledBy, hv]
  | _ => rfl

theorem handled_isPrefix_callRefs (hrun : Run machine trace s) (p : Pid)
    (v : ServerId) :
    (trace.filterMap (handledBy v p)).map Cast.ref <+: callRefs p v trace := by
  obtain ⟨lost, hcalls, -⟩ := castLaw hrun p v
  rw [callRefs, hcalls]
  simp only [List.append_assoc, List.map_append]
  exact List.prefix_append _ _

theorem executedRefsOf_isPrefix_posted (hrun : Run machine trace s) (p : Pid)
    (v : ServerId) : executedRefsOf p v trace <+: postedRefsOf p v trace := by
  have hexecuted := ((executed_isPrefix_posted hrun v).filter fun entry =>
    entry.2.ctx.reqPid = p).map Prod.fst
  simpa [executedRefsOf, postedRefsOf, List.filter_map, Function.comp_def]
    using hexecuted

theorem executedRefsOf_isPrefix (hrun : Run machine trace s)
    (hlive : Live v trace) (p : Pid) :
    executedRefsOf p v trace <+: callRefs p v trace := by
  apply List.IsPrefix.trans _ (handled_isPrefix_callRefs hrun p v)
  rw [← postedRefsOf_eq_handled hrun hlive p]
  exact executedRefsOf_isPrefix_posted hrun p v

/-! ## Real time -/

theorem mem_postedRefs {ref : Ref} :
    ref ∈ postedRefs v trace ↔
      ∃ cast job, cast.ref = ref ∧ .accepted v cast job ∈ trace := by
  simp only [postedRefs, List.mem_map, Prod.exists, mem_postedTo]
  constructor
  · rintro ⟨_, job, ⟨cast, rfl, haccepted⟩, rfl⟩
    exact ⟨cast, job, rfl, haccepted⟩
  · rintro ⟨cast, job, rfl, haccepted⟩
    exact ⟨_, job, ⟨cast, rfl, haccepted⟩, rfl⟩

theorem postedRefs_append (front back : List Event) :
    postedRefs v (front ++ back) = postedRefs v front ++ postedRefs v back := by
  simp [postedRefs]

theorem executedRefs_isPrefix_postedRefs (hrun : Run machine trace s)
    (v : ServerId) : executedRefs v trace <+: postedRefs v trace := by
  simpa [executedRefs, postedRefs, Function.comp_def] using
    (executed_isPrefix_posted hrun v).map Prod.fst

/-- A call that returned a response was posted before. -/
theorem mem_postedRefs_of_returned {s' : State} {p : Pid} {ref tag : Ref}
    {id : RequestId} {body : Term} (hrun : Run machine trace s)
    (hstep : Step s (.returned p ref id tag body) s') :
    ∃ v request, .called p v ref request ∈ trace ∧ ref ∈ postedRefs v trace := by
  cases hstep with
  | returned hphase hreceive =>
      have hresumed := resumed_of_awaitResponse hrun hphase
      have hack := sentTo_of_consumedBy hrun (mem_consumedBy_of_resumed hresumed)
      obtain ⟨v, cast, job, haccepted, rfl, rfl, -⟩ := mem_sentTo_accepted hack
      exact ⟨v, cast.request, called_of_accepted hrun haccepted,
        mem_postedRefs.mpr ⟨cast, job, rfl, haccepted⟩⟩

/-- What was posted before a call began is not that call. -/
theorem not_mem_postedRefs_of_called {front after : List Event} {q : Pid}
    {v' : ServerId} {ref : Ref} {request : Request}
    (hrun : Run machine (front ++ .called q v' ref request :: after) s)
    (hrefs : RefsUnique (front ++ .called q v' ref request :: after)) :
    ref ∉ postedRefs v front := by
  intro hposted
  obtain ⟨cast, job, rfl, haccepted⟩ := mem_postedRefs.mp hposted
  obtain ⟨s₁, hrun₁⟩ := hrun.exists_of_append
  have hcalled := called_of_accepted hrun₁ haccepted
  rw [RefsUnique, List.filterMap_append] at hrefs
  refine List.disjoint_of_nodup_append hrefs
    (List.mem_filterMap.mpr ⟨_, hcalled, rfl⟩) ?_
  simp [calledRef]

theorem executed_after_returned (hrun : Run machine trace s)
    (hrefs : RefsUnique trace)
    {before between after : List Event} {p q : Pid} {ref ref' tag : Ref}
    {id : RequestId} {body : Term} {request request' : Request}
    (htrace : trace = before ++ .returned p ref id tag body :: between ++
      .called q v ref' request' :: after)
    (hcalled : .called p v ref request ∈ trace)
    (hexecuted : ref' ∈ executedRefs v trace) :
    [ref, ref'].Sublist (executedRefs v trace) := by
  subst htrace
  have hfront : ref ∈ postedRefs v
      (before ++ .returned p ref id tag body :: between) := by
    obtain ⟨s₁, hrun₁⟩ := hrun.exists_of_append
    obtain ⟨s₂, s₃, hrun₂, hstep⟩ := hrun₁.exists_step
    obtain ⟨v', request'', hcalled', hposted⟩ :=
      mem_postedRefs_of_returned hrun₂ hstep
    have hcalled'' := List.mem_append_left
      (.called q v ref' request' :: after) (List.mem_append_left
        (.returned p ref id tag body :: between) hcalled')
    obtain ⟨-, rfl, -⟩ := hrefs.called_inj hcalled hcalled''
    rw [postedRefs_append]
    exact List.mem_append_left _ hposted
  have hprefix := executedRefs_isPrefix_postedRefs hrun v
  have hnodup : (postedRefs v _).Nodup := posted_nodup hrun hrefs v
  have hposted := hprefix.subset hexecuted
  rw [postedRefs_append] at hprefix hnodup hposted
  have hback := (List.mem_append.mp hposted).resolve_left
    (not_mem_postedRefs_of_called hrun hrefs)
  exact pair_sublist_of_prefix hnodup hprefix hfront hback hexecuted

/-- The order of executions, for every interleaving and with any timeouts. -/
theorem ordered_of_run (hrun : Run machine trace s)
    (hrefs : RefsUnique trace) (hlive : Live v trace) :
    Ordered v trace where
  executedOnce := executed_nodup hrun hrefs v
  respondedOnce := responded_nodup hrun hrefs v
  respondedAfter := (responded_isPrefix_executed hrun v).map Prod.fst
  serial := workerEvents_isPrefix_serial hrun v
  programOrder := executedRefsOf_isPrefix hrun hlive
  realTime := executed_after_returned hrun hrefs

end Runs

theorem staleTrace_ordered :
    let _ : LcbTypes := ⟨.uint32⟩
    (∃ s, Run machine staleTrace s) ∧ Ordered 0 staleTrace := by
  intro _
  obtain ⟨s, hrun⟩ := staleRun
  have hlive : Live 0 staleTrace := by
    intro cast id
    simp [staleTrace]
  exact ⟨⟨s, hrun⟩, ordered_of_run hrun staleTrace_refsUnique hlive⟩

end Cberl.System
