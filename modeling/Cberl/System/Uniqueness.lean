import Cberl.System.Lineage

/-!
# Nothing happens twice

References name calls, and request ids name the calls of one caller, as long as
neither is issued twice.  From unique references alone, every call is posted,
executed and answered at most once.
-/

namespace Cberl.System

open Cberl Cberl.Support

variable [LcbTypes]

def calledRef : Event → Option Ref
  | .called _ _ ref _ => some ref
  | _ => none

/-- The request id that the NIF issues for a call of `p`. -/
def issuedTo (p : Pid) : Event → Option RequestId
  | .accepted _ cast job =>
      if cast.sender = p then some job.ctx.reqId else none
  | _ => none

/-- `make_ref()` never returns the same reference twice. -/
def RefsUnique (trace : List Event) : Prop :=
  (trace.filterMap calledRef).Nodup

/-- The ids issued for `p` are pairwise distinct. -/
def IdsDistinctTo (p : Pid) (trace : List Event) : Prop :=
  (trace.filterMap (issuedTo p)).Nodup

/-- The ids issued for one caller are pairwise distinct. -/
def IdsDistinct (trace : List Event) : Prop :=
  ∀ p, (trace.filterMap (issuedTo p)).Nodup

variable {trace trace₁ trace₂ : List Event} {s : State}
  {v v' : ServerId} {p p' : Pid} {ref : Ref} {request request' : Request}
  {cast cast' : Cast} {job job' : Job} {body body' : Term}

theorem RefsUnique.of_append (h : RefsUnique (trace₁ ++ trace₂)) :
    RefsUnique trace₁ :=
  h.sublist ((List.sublist_append_left trace₁ trace₂).filterMap calledRef)

theorem IdsDistinctTo.of_append (h : IdsDistinctTo p (trace₁ ++ trace₂)) :
    IdsDistinctTo p trace₁ :=
  h.sublist ((List.sublist_append_left trace₁ trace₂).filterMap (issuedTo p))

theorem IdsDistinct.of_append (h : IdsDistinct (trace₁ ++ trace₂)) :
    IdsDistinct trace₁ :=
  fun p => IdsDistinctTo.of_append (h p)

theorem RefsUnique.called_inj (hrefs : RefsUnique trace)
    (h : .called p v ref request ∈ trace)
    (h' : .called p' v' ref request' ∈ trace) :
    p = p' ∧ v = v' ∧ request = request' := by
  have heq := eq_of_observe_eq hrefs h h' rfl rfl
  simpa using heq

theorem RefsUnique.callTo_nodup (hrefs : RefsUnique trace)
    (p : Pid) (v : ServerId) :
    ((trace.filterMap (callTo p v)).map Cast.ref).Nodup := by
  refine List.Nodup.sublist ?_ hrefs
  rw [List.map_filterMap]
  apply filterMap_sublist_of_imp
  intro event _ ref h
  cases event with
  | called p' v' ref' request =>
      simp only [callTo] at h
      split at h
      next => exact h
      next => cases h
  | _ => cases h

/-! ## At most once -/

/-- What waits in an inbox has not been accepted. -/
theorem ref_ne_of_mem_inbox (hrun : Run machine trace s)
    (hrefs : RefsUnique trace) (hinbox : cast ∈ s.inbox v)
    (haccepted : .accepted v cast' job ∈ trace) : cast'.ref ≠ cast.ref := by
  intro hrefeq
  obtain ⟨lost, hcalls, -⟩ := castLaw hrun cast.sender v
  have hcalled : .called cast.sender v cast.ref cast.request ∈ trace := by
    refine (mem_callTo.mp ?_).2
    rw [hcalls]
    simp [hinbox]
  have hcalled' := called_of_accepted hrun haccepted
  rw [hrefeq] at hcalled'
  obtain ⟨hsender, -, -⟩ := hrefs.called_inj hcalled' hcalled
  have hhandled : cast' ∈ trace.filterMap (handledBy v cast.sender) :=
    List.mem_filterMap.mpr ⟨_, haccepted, by simp [handledBy, hsender]⟩
  have hnodup := hrefs.callTo_nodup cast.sender v
  rw [hcalls, List.append_assoc, List.append_assoc, List.map_append] at hnodup
  refine List.disjoint_of_nodup_append hnodup
    (List.mem_map.mpr ⟨cast', hhandled, hrefeq⟩) ?_
  refine List.mem_map.mpr ⟨cast, ?_, rfl⟩
  simp [hinbox]

theorem posted_nodup (hrun : Run machine trace s) (hrefs : RefsUnique trace)
    (v : ServerId) :
    ((trace.filterMap (postedTo v)).map Prod.fst).Nodup := by
  revert hrefs
  refine @Run.invariant _ _ machine (fun trace _ => RefsUnique trace →
    ((trace.filterMap (postedTo v)).map Prod.fst).Nodup) ?_ ?_ _ _ hrun
  · intro s hs _
    exact List.nodup_nil
  · intro trace s label s' hrun ih hstep hrefs
    rw [List.map_filterMap] at ih ⊢
    apply nodup_filterMap_concat (ih hrefs.of_append)
    intro ref hnew hold
    obtain ⟨event, hevent, href⟩ := List.mem_filterMap.mp hold
    obtain ⟨⟨_, job'⟩, hposted, rfl⟩ := Option.map_eq_some_iff.mp href
    obtain ⟨cast', rfl, rfl⟩ := postedTo_eq_some_iff.mp hposted
    obtain ⟨⟨_, job⟩, hposted', hrefeq⟩ := Option.map_eq_some_iff.mp hnew
    obtain ⟨cast, rfl, rfl⟩ := postedTo_eq_some_iff.mp hposted'
    cases hstep with
    | accepted halive hinbox hhandle =>
        have hwaiting : cast ∈ s.inbox v := by simp [hinbox]
        exact ref_ne_of_mem_inbox hrun hrefs.of_append hwaiting hevent
          hrefeq.symm

/-- Executions follow the order of posting. -/
theorem executed_isPrefix_posted (hrun : Run machine trace s) (v : ServerId) :
    (trace.filterMap (executedOn v)).map (fun entry => (entry.1, entry.2.1)) <+:
      trace.filterMap (postedTo v) := by
  obtain ⟨dropped, hposted, -⟩ := queueLaw hrun v
  rw [hposted, startLaw hrun v]
  simp only [List.append_assoc]
  exact List.prefix_append _ _

theorem responded_isPrefix_executed (hrun : Run machine trace s)
    (v : ServerId) :
    trace.filterMap (respondedOn v) <+: trace.filterMap (executedOn v) := by
  rw [responseLaw hrun v]
  exact List.prefix_append _ _

theorem executed_nodup (hrun : Run machine trace s) (hrefs : RefsUnique trace)
    (v : ServerId) :
    ((trace.filterMap (executedOn v)).map Prod.fst).Nodup := by
  have hsublist := (executed_isPrefix_posted hrun v).sublist.map Prod.fst
  rw [List.map_map] at hsublist
  exact (posted_nodup hrun hrefs v).sublist hsublist

theorem responded_nodup (hrun : Run machine trace s) (hrefs : RefsUnique trace)
    (v : ServerId) :
    ((trace.filterMap (respondedOn v)).map Prod.fst).Nodup :=
  (executed_nodup hrun hrefs v).sublist
    ((responded_isPrefix_executed hrun v).sublist.map Prod.fst)

/-! ## Names -/

/-- A reference names the cast that was accepted for it. -/
theorem RefsUnique.accepted_inj (hrefs : RefsUnique trace)
    (hrun : Run machine trace s)
    (h : .accepted v cast job ∈ trace) (h' : .accepted v' cast' job' ∈ trace)
    (hrefeq : cast.ref = cast'.ref) :
    v = v' ∧ cast.sender = cast'.sender ∧ cast.request = cast'.request := by
  have hcalled := called_of_accepted hrun h
  rw [hrefeq] at hcalled
  obtain ⟨hsender, hv, hrequest⟩ :=
    hrefs.called_inj hcalled (called_of_accepted hrun h')
  exact ⟨hv, hsender, hrequest⟩

/-- A reference names its response. -/
theorem RefsUnique.responded_inj (hrefs : RefsUnique trace)
    (hrun : Run machine trace s)
    (h : .responded v ref job body ∈ trace)
    (h' : .responded v' ref job' body' ∈ trace) :
    v = v' ∧ job = job' ∧ body = body' := by
  obtain ⟨cast, rfl, haccepted⟩ := accepted_of_responded hrun h
  obtain ⟨cast', hcast', haccepted'⟩ := accepted_of_responded hrun h'
  obtain ⟨rfl, -, -⟩ := hrefs.accepted_inj hrun haccepted haccepted' hcast'.symm
  have hnodup := responded_nodup hrun hrefs v
  rw [List.map_filterMap] at hnodup
  have heq := eq_of_observe_eq hnodup h h' (by simp [respondedOn]; rfl)
    (by simp [respondedOn])
  simpa using heq

/-- An id names the reference it was issued for. -/
theorem IdsDistinctTo.ref_eq (hids : IdsDistinctTo p trace)
    (h : .accepted v cast job ∈ trace) (h' : .accepted v' cast' job' ∈ trace)
    (hsender : cast.sender = p) (hsender' : cast'.sender = p)
    (hid : job.ctx.reqId = job'.ctx.reqId) : cast.ref = cast'.ref := by
  have heq := eq_of_observe_eq hids h h' (by simp [issuedTo, hsender]; rfl)
    (by simp [issuedTo, hsender', hid])
  simp only [Event.accepted.injEq] at heq
  rw [heq.2.1]

end Cberl.System
