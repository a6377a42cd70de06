import Cberl.System.Conservation

/-!
# Where calls, jobs and messages come from

Read backwards along the conservation laws, a response leads to the execution
of one job, the job to one cast, and the cast to one call.  With unique
references nothing on this way happens twice for one call.
-/

namespace Cberl.System

open Cberl Cberl.Support

variable [LcbTypes]

/-! ## Membership in the readings of a trace -/

section Membership

variable {trace : List Event} {v : ServerId} {p : Pid} {ref : Ref} {job : Job}
  {body : Term} {id : RequestId} {event : Event}

theorem startedOn_eq_some_iff :
    startedOn v event = some (ref, job) ↔ event = .started v ref job := by
  cases event <;> simp [startedOn]

theorem executedOn_eq_some_iff :
    executedOn v event = some (ref, job, body) ↔
      event = .executed v ref job body := by
  cases event <;> simp [executedOn]

theorem respondedOn_eq_some_iff :
    respondedOn v event = some (ref, job, body) ↔
      event = .responded v ref job body := by
  cases event <;> simp [respondedOn]

theorem postedTo_eq_some_iff :
    postedTo v event = some (ref, job) ↔
      ∃ cast, cast.ref = ref ∧ event = .accepted v cast job := by
  cases event with
  | accepted v' cast job' =>
      simp only [postedTo, Option.ite_none_right_eq_some, Option.some.injEq,
        Prod.mk.injEq, Event.accepted.injEq]
      constructor
      · rintro ⟨rfl, rfl, rfl⟩
        exact ⟨cast, rfl, rfl, rfl, rfl⟩
      · rintro ⟨_, rfl, rfl, rfl, rfl⟩
        exact ⟨rfl, rfl, rfl⟩
  | _ => simp [postedTo]

theorem mem_startedOn :
    (ref, job) ∈ trace.filterMap (startedOn v) ↔
      .started v ref job ∈ trace := by
  simp [List.mem_filterMap, startedOn_eq_some_iff]

theorem mem_executedOn :
    (ref, job, body) ∈ trace.filterMap (executedOn v) ↔
      .executed v ref job body ∈ trace := by
  simp [List.mem_filterMap, executedOn_eq_some_iff]

theorem mem_respondedOn :
    (ref, job, body) ∈ trace.filterMap (respondedOn v) ↔
      .responded v ref job body ∈ trace := by
  simp [List.mem_filterMap, respondedOn_eq_some_iff]

theorem mem_postedTo :
    (ref, job) ∈ trace.filterMap (postedTo v) ↔
      ∃ cast, cast.ref = ref ∧ .accepted v cast job ∈ trace := by
  simp only [List.mem_filterMap, postedTo_eq_some_iff]
  constructor
  · rintro ⟨_, hevent, cast, hcast, rfl⟩
    exact ⟨cast, hcast, hevent⟩
  · rintro ⟨cast, hcast, hevent⟩
    exact ⟨_, hevent, cast, hcast, rfl⟩

/-- A server's message to `p` is the acknowledgement of a cast of `p`. -/
theorem mem_sentTo_accepted
    (h : .accepted ref id ∈ trace.filterMap (sentTo p)) :
    ∃ v cast job, .accepted v cast job ∈ trace ∧
      cast.sender = p ∧ cast.ref = ref ∧ job.ctx.reqId = id := by
  obtain ⟨event, hevent, hsent⟩ := List.mem_filterMap.mp h
  cases event with
  | accepted v cast job =>
      simp only [sentTo, Option.ite_none_right_eq_some, Option.some.injEq,
        Message.accepted.injEq] at hsent
      exact ⟨v, cast, job, hevent, hsent⟩
  | _ => simp [sentTo] at hsent

theorem eq_responded_of_sentTo
    (h : sentTo p event = some (.response id body ref)) :
    ∃ v job, event = .responded v ref job body ∧ job.ctx = ⟨p, id⟩ := by
  cases event with
  | responded v ref' job body' =>
      simp only [sentTo, Option.ite_none_right_eq_some, Option.some.injEq,
        Message.response.injEq] at h
      obtain ⟨rfl, rfl, rfl, rfl⟩ := h
      exact ⟨v, job, rfl, rfl⟩
  | _ => simp [sentTo] at h

/-- A response sent to `p` is the response to a job with the context of `p`. -/
theorem mem_sentTo_response
    (h : .response id body ref ∈ trace.filterMap (sentTo p)) :
    ∃ v job, .responded v ref job body ∈ trace ∧ job.ctx = ⟨p, id⟩ := by
  obtain ⟨event, hevent, hsent⟩ := List.mem_filterMap.mp h
  obtain ⟨v, job, rfl, hctx⟩ := eq_responded_of_sentTo hsent
  exact ⟨v, job, hevent, hctx⟩

theorem mem_consumedBy_of_resumed (h : .resumed p ref id ∈ trace) :
    .accepted ref id ∈ trace.filterMap (consumedBy p) :=
  List.mem_filterMap.mpr ⟨_, h, by simp [consumedBy]⟩

theorem mem_consumedBy_of_returned {tag : Ref}
    (h : .returned p ref id tag body ∈ trace) :
    .response id body tag ∈ trace.filterMap (consumedBy p) :=
  List.mem_filterMap.mpr ⟨_, h, by simp [consumedBy]⟩

end Membership

/-! ## Tracing back -/

section Back

variable {trace : List Event} {s : State} {v : ServerId} {p : Pid} {ref : Ref}
  {job : Job} {body : Term} {id : RequestId} {cast : Cast}

theorem called_of_accepted (hrun : Run machine trace s)
    (h : .accepted v cast job ∈ trace) :
    .called cast.sender v cast.ref cast.request ∈ trace := by
  obtain ⟨lost, hcalls, -⟩ := castLaw hrun cast.sender v
  have hhandled : cast ∈ trace.filterMap (handledBy v cast.sender) :=
    List.mem_filterMap.mpr ⟨_, h, by simp [handledBy]⟩
  refine (mem_callTo.mp ?_).2
  rw [hcalls]
  simp [hhandled]

/-- The job of an accepted cast answers the caller and carries the converted
request. -/
theorem job_of_accepted (hrun : Run machine trace s)
    (h : .accepted v cast job ∈ trace) :
    job.ctx.reqPid = cast.sender ∧
      cast.request.operation = some job.operation := by
  obtain ⟨before, after, rfl⟩ := List.append_of_mem h
  obtain ⟨s₁, s₂, -, hstep⟩ := hrun.exists_step
  cases hstep with
  | accepted halive hinbox hhandle =>
      obtain ⟨-, -, hctx, -, hoperation⟩ := handleCast_eq_ok hhandle
      exact ⟨by rw [hctx], hoperation⟩

theorem accepted_of_started (hrun : Run machine trace s)
    (h : .started v ref job ∈ trace) :
    ∃ cast, cast.ref = ref ∧ .accepted v cast job ∈ trace := by
  obtain ⟨dropped, hposted, -⟩ := queueLaw hrun v
  apply mem_postedTo.mp
  rw [hposted]
  simp [mem_startedOn.mpr h]

theorem started_of_executed (hrun : Run machine trace s)
    (h : .executed v ref job body ∈ trace) : .started v ref job ∈ trace := by
  apply mem_startedOn.mp
  rw [startLaw hrun v, List.mem_append, List.mem_map]
  exact Or.inl ⟨_, mem_executedOn.mpr h, rfl⟩

theorem executed_of_responded (hrun : Run machine trace s)
    (h : .responded v ref job body ∈ trace) :
    .executed v ref job body ∈ trace := by
  apply mem_executedOn.mp
  rw [responseLaw hrun v, List.mem_append]
  exact Or.inl (mem_respondedOn.mpr h)

theorem accepted_of_responded (hrun : Run machine trace s)
    (h : .responded v ref job body ∈ trace) :
    ∃ cast, cast.ref = ref ∧ .accepted v cast job ∈ trace :=
  accepted_of_started hrun
    (started_of_executed hrun (executed_of_responded hrun h))

theorem execute_of_executed (hrun : Run machine trace s)
    (h : .executed v ref job body ∈ trace) :
    ∃ lcb, body = job.operation.execute lcb := by
  obtain ⟨before, after, rfl⟩ := List.append_of_mem h
  obtain ⟨s₁, s₂, -, hstep⟩ := hrun.exists_step
  cases hstep with
  | executed lcb hworker => exact ⟨lcb, rfl⟩

theorem sentTo_of_mailbox (hrun : Run machine trace s) {message : Message}
    (h : message ∈ s.mailbox p) : message ∈ trace.filterMap (sentTo p) := by
  rw [(flightLaw hrun p).mem_iff, List.mem_append,
    (mailboxLaw hrun p).mem_iff, List.mem_append]
  exact Or.inr (Or.inl h)

theorem sentTo_of_consumedBy (hrun : Run machine trace s) {message : Message}
    (h : message ∈ trace.filterMap (consumedBy p)) :
    message ∈ trace.filterMap (sentTo p) := by
  rw [(flightLaw hrun p).mem_iff, List.mem_append,
    (mailboxLaw hrun p).mem_iff, List.mem_append]
  exact Or.inr (Or.inr h)

end Back

/-! ## The two waits of a call -/

section Waits

variable {trace : List Event} {s : State} {v : ServerId} {p : Pid} {ref : Ref}
  {id : RequestId}

/-- A step leaves the phase of `p` alone, ends its call, or is the step of `p`
that enters the new phase. -/
theorem Step.phase {s s' : State} {event : Event} (hstep : Step s event s')
    (p : Pid) :
    s'.phase p = s.phase p ∨ s'.phase p = .idle ∨
      (∃ v ref request, event = .called p v ref request ∧
        s'.phase p = .awaitRef v ref) ∨
      ∃ ref id, event = .resumed p ref id ∧
        s'.phase p = .awaitResponse ref id := by
  cases hstep with
  | @called p' v ref request hphase =>
      by_cases hp : p' = p
      · subst hp
        exact Or.inr (Or.inr (Or.inl ⟨v, ref, request, rfl, by simp⟩))
      · exact Or.inl (by simp [Ne.symm hp])
  | @resumed p' v ref id rest hphase hreceive =>
      by_cases hp : p' = p
      · subst hp
        exact Or.inr (Or.inr (Or.inr ⟨ref, id, rfl, by simp⟩))
      · exact Or.inl (by simp [Ne.symm hp])
  | @returned p' ref tag id body rest hphase hreceive =>
      by_cases hp : p' = p
      · exact Or.inr (Or.inl (by simp [hp]))
      · exact Or.inl (by simp [Ne.symm hp])
  | @refTimedOut p' v ref hphase hreceive =>
      by_cases hp : p' = p
      · exact Or.inr (Or.inl (by simp [hp]))
      · exact Or.inl (by simp [Ne.symm hp])
  | @responseTimedOut p' ref id hphase hreceive =>
      by_cases hp : p' = p
      · exact Or.inr (Or.inl (by simp [hp]))
      · exact Or.inl (by simp [Ne.symm hp])
  | _ => exact Or.inl rfl

/-- A caller in the first receive has made the call it is in, and one in the
second has taken the acknowledgement. -/
def PhaseLaw (trace : List Event) (s : State) : Prop :=
  ∀ p, match s.phase p with
    | .idle => True
    | .awaitRef v ref => ∃ request, .called p v ref request ∈ trace
    | .awaitResponse ref id => .resumed p ref id ∈ trace

theorem phaseLaw (hrun : Run machine trace s) : PhaseLaw trace s := by
  refine hrun.invariant ?_ ?_
  · intro s hs p
    rw [hs.phase p]
    trivial
  · intro trace s label s' _ ih hstep p
    have hp := ih p
    rcases Step.phase hstep p with
      hsame | hidle | ⟨v, ref, request, rfl, hnew⟩ | ⟨ref, id, rfl, hnew⟩
    · rw [hsame]
      cases hphase : s.phase p with
      | idle => trivial
      | awaitRef v ref =>
          rw [hphase] at hp
          obtain ⟨request, hcalled⟩ := hp
          exact ⟨request, List.mem_append_left _ hcalled⟩
      | awaitResponse ref id =>
          rw [hphase] at hp
          exact List.mem_append_left _ hp
    · rw [hidle]
      trivial
    · rw [hnew]
      exact ⟨request, by simp⟩
    · rw [hnew]
      simp

theorem resumed_of_awaitResponse (hrun : Run machine trace s)
    (h : s.phase p = .awaitResponse ref id) : .resumed p ref id ∈ trace := by
  have hlaw := phaseLaw hrun p
  rwa [h] at hlaw

end Waits

end Cberl.System
