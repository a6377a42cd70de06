import Cberl.System.Correlation
import Cberl.System.Threads

/-!
# The threaded system refines the system model

A cast is accepted when its job enters the queue of the client, although the
acknowledgement is sent later, when `post` has returned: messages may take any
time, so an acknowledgement that is still to be sent is one that is on its way.
-/

namespace Cberl.System

open Cberl Cberl.Support Function

variable [LcbTypes]

/-! ## Readings of a threaded state -/

/-- The cast that is not in the queue of the client yet. -/
def Handling.cast : Handling → List Cast
  | posting cast _ _ _ => [cast]
  | _ => []

/-- The job that is on its way into the queue of the client. -/
def Handling.underway : Handling → List (Ref × Job)
  | posting cast _ _ job => [(cast.ref, job)]
  | _ => []

/-- What the worker does with the operation that it executes. -/
def doing : List (Ref × Job) → Stage → Worker
  | (ref, job) :: _, .fresh => .running ref job
  | (ref, job) :: _, .computed body => .finished ref job body
  | _, _ => .idle

/-- The acknowledgements still to be sent, by server. -/
structure Owed (handling : ServerId → Handling)
    (owed : List (ServerId × (Pid × Message))) : Prop where
  nodup : (owed.map Prod.fst).Nodup
  mem_iff : ∀ {v message}, (v, message) ∈ owed ↔
    ∃ state, handling v = .pushed message state

/-- The state of the system model. -/
structure Abstracts (s : ThreadedState) (a : State) : Prop where
  phase : a.phase = s.base.phase
  mailbox : a.mailbox = s.base.mailbox
  casts : a.casts = s.base.casts
  alive : a.alive = s.base.alive
  server : a.server = s.base.server
  inbox : ∀ v, a.inbox v = (s.handling v).cast ++ s.base.inbox v
  queue : ∀ v, a.queue v = (s.client v).opQueue
  worker : ∀ v, a.worker v = doing (s.client v).worker.current (s.stage v)
  flight : ∃ owed, Owed s.handling owed ∧
    a.flight.Perm (s.base.flight ++ owed.map Prod.snd)

/-! ## A client and its server -/

/-- What a connection server and its client know of each other. -/
structure CoherentAt (client : ClientState) (handling : Handling)
    (server : ServerState) (alive : Bool) : Prop where
  sound : Client.Sound client
  underway : client.posts.filterMap Client.Post.op = handling.underway
  handled : ∀ {cast message state job},
    handling = .posting cast message state job →
    ∃ id, (handleCast id cast server).run.run [] = (.ok (message, state), [job])
  pushed : ∀ {message state}, handling = .pushed message state → state = server
  busy : handling ≠ .idle → alive = true
  closed : client.owner ≠ .live → alive = false

def Coherent (s : ThreadedState) : Prop :=
  ∀ v, CoherentAt (s.client v) (s.handling v) (s.base.server v) (s.base.alive v)

variable {s s' : ThreadedState} {a : State} {label : ThreadedEvent}
  {event : Event} {v : ServerId} {client client' : ClientState}
  {handling : Handling} {server : ServerState} {alive : Bool}
  {clientLabel : Client.Label (Ref × Job)}

/-- A step of the client that brings no operation into it or its queue. -/
theorem CoherentAt.client_step (h : CoherentAt client handling server alive)
    (hstep : Client.Step client clientLabel client')
    (hentered : clientLabel.entered = none) (hpushed : clientLabel.pushed = none)
    (hclosed : clientLabel = .close → alive = false) :
    CoherentAt client' handling server alive where
  sound := h.sound.step hstep
  underway := by
    have hposts := hstep.account.posts
    rw [hentered, hpushed, h.underway] at hposts
    cases handling with
    | posting cast message state job =>
        simp only [Handling.underway, Option.toList_none, List.append_nil,
          List.nil_append] at hposts
        exact (List.singleton_perm.mp hposts).symm
    | _ => simpa [Handling.underway] using hposts
  handled := h.handled
  pushed := h.pushed
  busy := h.busy
  closed := by
    intro howner
    by_cases hlabel : clientLabel = .close
    · exact hclosed hlabel
    · rw [ne_eq, hstep.live_iff hlabel] at howner
      exact h.closed howner

theorem CoherentAt.taken (h : CoherentAt client .idle server alive)
    {cast : Cast} {id : RequestId} {message : Pid × Message}
    {state : ServerState} {job : Job} (halive : alive = true)
    (hrun : (handleCast id cast server).run.run [] =
      (.ok (message, state), [job]))
    (hstep : Client.Step client (.enter (cast.ref, job)) client') :
    CoherentAt client' (.posting cast message state job) server alive where
  sound := h.sound.step hstep
  underway := by
    have hposts := hstep.account.posts
    rw [h.underway] at hposts
    exact (List.singleton_perm.mp hposts).symm
  handled := by
    rintro _ _ _ _ ⟨⟩
    exact ⟨id, hrun⟩
  pushed := by
    rintro _ _ ⟨⟩
  busy := fun _ => halive
  closed := by
    intro howner
    rw [ne_eq, hstep.live_iff (by simp)] at howner
    exact h.closed howner

theorem CoherentAt.push {cast : Cast} {message : Pid × Message}
    {state : ServerState} {job : Job} {op : Ref × Job}
    (h : CoherentAt client (.posting cast message state job) server alive)
    (hstep : Client.Step client (.push op) client') :
    op = (cast.ref, job) ∧
      CoherentAt client' (.pushed message state) server alive := by
  have hposts := hstep.account.posts
  rw [h.underway] at hposts
  obtain ⟨hop, hrest⟩ := List.cons.inj (List.singleton_perm.mp hposts)
  obtain ⟨id, hrun⟩ := h.handled rfl
  refine ⟨hop.symm, ?_⟩
  exact {
    sound := h.sound.step hstep
    underway := hrest.symm
    handled := by
      rintro _ _ _ _ ⟨⟩
    pushed := by
      rintro _ _ ⟨⟩
      exact (handleCast_eq_ok hrun).2.1
    busy := fun _ => h.busy (by simp)
    closed := by
      intro howner
      rw [ne_eq, hstep.live_iff (by simp)] at howner
      exact h.closed howner }

/-- The processes leave the states of the servers alone, and a server only dies
of a cast. -/
theorem Step.of_processes {s s' : State} (hstep : Step s event s')
    (hevent : event.OfProcesses) : s'.server = s.server ∧
      ∀ v, s'.alive v = s.alive v ∨
        s'.alive v = false ∧ ∃ cast id, event = .crashed v cast id := by
  cases hstep with
  | accepted halive hinbox hrun => exact hevent.elim
  | stopped hdead => exact hevent.elim
  | started hworker hqueue => exact hevent.elim
  | executed lcb hworker => exact hevent.elim
  | responded hworker => exact hevent.elim
  | @crashed v cast rest id raise halive hinbox hrun =>
      refine ⟨rfl, fun w => ?_⟩
      by_cases hw : w = v
      · subst hw
        exact .inr ⟨update_self .., cast, id, rfl⟩
      · exact .inl (update_of_ne hw ..)
  | _ => exact ⟨rfl, fun _ => .inl rfl⟩

theorem silent_labels (h : clientLabel.Silent) : clientLabel.entered = none ∧
    clientLabel.pushed = none ∧ clientLabel.popped = none ∧
    clientLabel.finished = none ∧ clientLabel.destroyed = [] ∧
    clientLabel ≠ .close := by
  cases clientLabel <;>
    simp_all [Client.Label.Silent, Client.Label.entered, Client.Label.pushed,
      Client.Label.popped, Client.Label.finished, Client.Label.destroyed]

theorem Coherent.step (h : Coherent s) (hstep : ThreadedStep s label s') :
    Coherent s' := by
  intro w
  cases hstep with
  | @process event base hevent hidle hstep =>
      obtain ⟨hserver, halive⟩ := hstep.of_processes hevent
      simp only [hserver]
      rcases halive w with hsame | ⟨hdead, cast, id, rfl⟩
      · rw [hsame]
        exact h w
      · rw [hdead]
        exact { h w with
          busy := fun hhandling => absurd (hidle w cast id rfl) hhandling
          closed := fun _ => rfl }
  | @taken v cast rest id message state job client halive hidle hinbox hrun hstep =>
      by_cases hw : w = v
      · subst hw
        have hw := h w
        rw [hidle] at hw
        simpa using hw.taken halive hrun hstep
      · simpa [hw] using h w
  | @pushed v cast message state job op client hhandling hstep =>
      by_cases hw : w = v
      · subst hw
        have hw := h w
        rw [hhandling] at hw
        simpa using (hw.push hstep).2
      · simpa [hw] using h w
  | @acknowledged v message state hhandling hreturned =>
      by_cases hw : w = v
      · subst hw
        have hw := h w
        rw [hhandling] at hw
        obtain rfl := hw.pushed rfl
        simp only [update_self]
        exact { hw with
          handled := by
            rintro _ _ _ _ ⟨⟩
          pushed := by
            rintro _ _ ⟨⟩
          busy := fun hidle => absurd rfl hidle }
      · simpa [hw] using h w
  | executed lcb hworker hstage => exact h w
  | responded hworker hstage => exact h w
  | @started v ref job client hstep =>
      by_cases hw : w = v
      · subst hw
        simpa using (h w).client_step hstep rfl rfl (by simp)
      · simpa [hw] using h w
  | @finished v op client hstage hstep =>
      by_cases hw : w = v
      · subst hw
        simpa using (h w).client_step hstep rfl rfl (by simp)
      · simpa [hw] using h w
  | @closed v client hdead hstep =>
      by_cases hw : w = v
      · subst hw
        simpa using (h w).client_step hstep rfl rfl fun _ => hdead
      · simpa [hw] using h w
  | @destroyed v ops client hstep =>
      by_cases hw : w = v
      · subst hw
        simpa using (h w).client_step hstep rfl rfl (by simp)
      · simpa [hw] using h w
  | @threads v label client hsilent hstep =>
      obtain ⟨hentered, hpushed, -, -, -, hclose⟩ := silent_labels hsilent
      by_cases hw : w = v
      · subst hw
        simpa using (h w).client_step hstep hentered hpushed
          fun hlabel => absurd hlabel hclose
      · simpa [hw] using h w

theorem coherent_initial (hs : ThreadedInitial s) : Coherent s := by
  intro v
  have hready := hs.client v
  obtain ⟨trace, hrun⟩ := hready.reached
  rw [hs.handling v]
  exact {
    sound := Client.sound_of_run hrun
    underway := by
      rw [hready.posts]
      rfl
    handled := by
      rintro _ _ _ _ ⟨⟩
    pushed := by
      rintro _ _ ⟨⟩
    busy := fun hidle => absurd rfl hidle
    closed := fun howner => absurd hready.live howner }

/-! ## Acknowledgements still to be sent -/

section Owed

variable {handlings : ServerId → Handling}
  {owed : List (ServerId × (Pid × Message))} {message : Pid × Message}
  {state : ServerState}

/-- A server that owes nothing before and after changes nothing. -/
theorem Owed.update (h : Owed handlings owed)
    (hbefore : ∀ message state, handlings v ≠ .pushed message state)
    (hafter : ∀ message state, handling ≠ .pushed message state) :
    Owed (update handlings v handling) owed where
  nodup := h.nodup
  mem_iff := by
    intro w message
    rw [h.mem_iff]
    by_cases hw : w = v
    · subst hw
      simp [hbefore, hafter]
    · simp [hw]

theorem Owed.push (h : Owed handlings owed)
    (hbefore : ∀ message state, handlings v ≠ .pushed message state) :
    Owed (Function.update handlings v (.pushed message state))
      ((v, message) :: owed) where
  nodup := by
    rw [List.map_cons, List.nodup_cons]
    refine ⟨?_, h.nodup⟩
    intro hmem
    obtain ⟨⟨_, message'⟩, hentry, rfl⟩ := List.mem_map.mp hmem
    obtain ⟨state', hhandling⟩ := h.mem_iff.mp hentry
    exact hbefore _ _ hhandling
  mem_iff := by
    intro w message'
    rw [List.mem_cons, h.mem_iff]
    by_cases hw : w = v
    · subst hw
      simp [hbefore, eq_comm]
    · simp [hw]

/-- The server sends what it owes. -/
theorem Owed.acknowledge (h : Owed handlings owed)
    (hpushed : handlings v = .pushed message state) :
    ∃ before after, owed = before ++ (v, message) :: after ∧
      Owed (Function.update handlings v .idle) (before ++ after) := by
  obtain ⟨before, after, rfl⟩ :=
    List.append_of_mem (h.mem_iff.mpr ⟨state, hpushed⟩)
  have hnodup := h.nodup
  rw [List.map_append, List.map_cons, List.nodup_middle, List.nodup_cons,
    ← List.map_append] at hnodup
  refine ⟨before, after, rfl, hnodup.2, ?_⟩
  intro w message'
  by_cases hw : w = v
  · subst hw
    simp only [update_self, reduceCtorEq, exists_false, iff_false]
    intro hmem
    exact hnodup.1 (List.mem_map.mpr ⟨_, hmem, rfl⟩)
  · rw [update_of_ne hw, ← h.mem_iff]
    simp [hw]

end Owed

/-! ## Steps of the processes -/

/-- A process step takes the system model along. -/
theorem Abstracts.process (h : Abstracts s a) (hevent : event.OfProcesses)
    (hidle : ∀ v cast id, event = .crashed v cast id → s.handling v = .idle)
    {base : State} (hstep : Step s.base event base) :
    ∃ a', Step a event a' ∧ Abstracts { s with base } a' := by
  obtain ⟨owed, howed, hflight⟩ := h.flight
  cases hstep with
  | accepted halive hinbox hrun => exact hevent.elim
  | stopped hdead => exact hevent.elim
  | started hworker hqueue => exact hevent.elim
  | executed lcb hworker => exact hevent.elim
  | responded hworker => exact hevent.elim
  | called hphase =>
      exact ⟨_, .called (h.phase ▸ hphase), { h with
        phase := by rw [h.phase]
        casts := by rw [h.casts] }⟩
  | @arrived p v cast rest hcasts halive =>
      refine ⟨_, .arrived (h.casts ▸ hcasts) (h.alive ▸ halive), { h with
        casts := by rw [h.casts]
        inbox := ?_ }⟩
      intro w
      by_cases hw : w = v
      · subst hw
        simp [h.inbox]
      · simpa [hw] using h.inbox w
  | discarded hcasts hdead =>
      exact ⟨_, .discarded (h.casts ▸ hcasts) (h.alive ▸ hdead), { h with
        casts := by rw [h.casts] }⟩
  | @crashed v cast rest id raise halive hinbox hrun =>
      have hhandling := hidle v cast id rfl
      have hinbox' : a.inbox v = cast :: rest := by
        rw [h.inbox, hhandling, hinbox]
        rfl
      refine ⟨_, .crashed (h.alive ▸ halive) hinbox' (h.server ▸ hrun),
        { h with
          alive := by rw [h.alive]
          inbox := ?_ }⟩
      intro w
      by_cases hw : w = v
      · subst hw
        simp [hhandling, Handling.cast]
      · simpa [hw] using h.inbox w
  | @delivered p message before after hsplit =>
      have hmem : (p, message) ∈ a.flight := by
        rw [hflight.mem_iff, hsplit]
        simp
      obtain ⟨before', after', hsplit'⟩ := List.append_of_mem hmem
      refine ⟨_, .delivered hsplit', { h with
        mailbox := by rw [h.mailbox]
        flight := ⟨owed, howed, ?_⟩ }⟩
      rw [hsplit, hsplit'] at hflight
      have hmiddle := List.perm_middle.symm.trans
        (hflight.trans ((List.perm_middle.append_right _)))
      exact (List.perm_cons _).mp hmiddle
  | intruded =>
      exact ⟨_, .intruded, { h with mailbox := by rw [h.mailbox] }⟩
  | resumed hphase hreceive =>
      exact ⟨_, .resumed (h.phase ▸ hphase) (h.mailbox ▸ hreceive), { h with
        phase := by rw [h.phase]
        mailbox := by rw [h.mailbox] }⟩
  | returned hphase hreceive =>
      exact ⟨_, .returned (h.phase ▸ hphase) (h.mailbox ▸ hreceive), { h with
        phase := by rw [h.phase]
        mailbox := by rw [h.mailbox] }⟩
  | refTimedOut hphase hreceive =>
      exact ⟨_, .refTimedOut (h.phase ▸ hphase) (h.mailbox ▸ hreceive), { h with
        phase := by rw [h.phase] }⟩
  | responseTimedOut hphase hreceive =>
      exact ⟨_, .responseTimedOut (h.phase ▸ hphase) (h.mailbox ▸ hreceive),
        { h with phase := by rw [h.phase] }⟩

/-! ## Steps of the clients -/

theorem current_length_le (worker : Client.Worker (Ref × Job)) :
    worker.current.length ≤ 1 := by
  cases worker <;> simp [Client.Worker.current]

theorem doing_sent (current : List (Ref × Job)) : doing current .sent = .idle := by
  cases current <;> rfl

/-- A client step that concerns no operation is invisible. -/
theorem Abstracts.silent (h : Abstracts s a)
    (hstep : Client.Step (s.client v) clientLabel client)
    (hpushed : clientLabel.pushed = none) (hpopped : clientLabel.popped = none)
    (hdestroyed : clientLabel.destroyed = [])
    (hworker : doing client.worker.current (s.stage v) =
      doing (s.client v).worker.current (s.stage v)) :
    Abstracts { s with client := update s.client v client } a := by
  have hqueue := hstep.account.queue
  rw [hpushed, hpopped, hdestroyed] at hqueue
  exact { h with
    queue := by
      intro w
      by_cases hw : w = v
      · subst hw
        simpa [h.queue] using hqueue
      · simpa [hw] using h.queue w
    worker := by
      intro w
      by_cases hw : w = v
      · subst hw
        simpa [h.worker] using hworker.symm
      · simpa [hw] using h.worker w }

/-- The job enters the queue. -/
theorem Abstracts.push (h : Abstracts s a) (hcoherent : Coherent s)
    {cast : Cast} {message : Pid × Message} {state : ServerState} {job : Job}
    {op : Ref × Job}
    (hhandling : s.handling v = .posting cast message state job)
    (hstep : Client.Step (s.client v) (.push op) client) :
    ∃ a', Step a (.accepted v cast job) a' ∧
      Abstracts
        { s with
          handling := update s.handling v (.pushed message state)
          client := update s.client v client } a' := by
  obtain ⟨owed, howed, hflight⟩ := h.flight
  have hv := hcoherent v
  rw [hhandling] at hv
  obtain ⟨rfl, hv'⟩ := hv.push hstep
  obtain ⟨id, hrun⟩ := hv.handled rfl
  obtain rfl := hv'.pushed rfl
  have hinbox : a.inbox v = cast :: s.base.inbox v := by
    rw [h.inbox, hhandling]
    rfl
  have hqueue := hstep.account.queue
  have halive : a.alive v = true := by
    rw [h.alive]
    exact hv.busy (by simp)
  refine ⟨_, .accepted halive hinbox (h.server ▸ hrun), { h with
    server := ?_, inbox := ?_, queue := ?_, worker := ?_, flight := ?_ }⟩
  · rw [h.server]
    exact update_eq_self _ _
  · intro w
    by_cases hw : w = v
    · subst hw
      simp [Handling.cast]
    · simpa [hw] using h.inbox w
  · intro w
    by_cases hw : w = v
    · subst hw
      simpa [h.queue, Client.Label.pushed, Client.Label.popped,
        Client.Label.destroyed] using hqueue
    · simpa [hw] using h.queue w
  · intro w
    by_cases hw : w = v
    · subst hw
      simpa [hstep.current_eq rfl rfl] using h.worker w
    · simpa [hw] using h.worker w
  · refine ⟨(v, message) :: owed, howed.push (by simp [hhandling]), ?_⟩
    rw [List.map_cons]
    refine (hflight.append_right _).trans ?_
    rw [List.append_assoc]
    exact (List.perm_append_comm).append_left _

theorem Abstracts.start (h : Abstracts s a) {ref : Ref} {job : Job}
    (hstep : Client.Step (s.client v) (.pop (ref, job)) client) :
    ∃ a', Step a (.started v ref job) a' ∧
      Abstracts
        { s with
          client := update s.client v client
          stage := update s.stage v .fresh } a' := by
  have hqueue := hstep.account.queue
  have hcurrent : (s.client v).worker.current ++ [(ref, job)] =
      client.worker.current := hstep.account.current
  have hlength := current_length_le client.worker
  rw [← hcurrent, List.length_append] at hlength
  have hidle : (s.client v).worker.current = [] := by
    rw [← List.length_eq_zero_iff]
    rw [List.length_singleton] at hlength
    omega
  rw [hidle, List.nil_append] at hcurrent
  have hworker : a.worker v = .idle := by
    rw [h.worker, hidle]
    rfl
  have hqueue' : a.queue v = (ref, job) :: client.opQueue := by
    rw [h.queue]
    simpa [Client.Label.pushed, Client.Label.popped, Client.Label.destroyed]
      using hqueue
  refine ⟨_, .started hworker hqueue', { h with queue := ?_, worker := ?_ }⟩
  · intro w
    by_cases hw : w = v
    · subst hw
      simp
    · simpa [hw] using h.queue w
  · intro w
    by_cases hw : w = v
    · subst hw
      simp [← hcurrent, doing]
    · simpa [hw] using h.worker w

/-- Every step of the threaded system with an event is a step of the system
model. -/
theorem Abstracts.step (h : Abstracts s a) (hcoherent : Coherent s)
    (hstep : ThreadedStep s label s') (hevent : label.event = some event) :
    ∃ a', Step a event a' ∧ Abstracts s' a' := by
  cases hstep with
  | process hprocess hidle hstep =>
      obtain rfl := Option.some.inj hevent
      exact h.process hprocess hidle hstep
  | pushed hhandling hstep =>
      obtain rfl := Option.some.inj hevent
      exact h.push hcoherent hhandling hstep
  | started hstep =>
      obtain rfl := Option.some.inj hevent
      exact h.start hstep
  | @executed v ref job lcb hworker hstage =>
      obtain rfl := Option.some.inj hevent
      have hworker' : a.worker v = .running ref job := by
        rw [h.worker, hworker, hstage]
        rfl
      refine ⟨_, .executed lcb hworker', { h with worker := ?_ }⟩
      intro w
      by_cases hw : w = v
      · subst hw
        simp [hworker, Client.Worker.current, doing]
      · simpa [hw] using h.worker w
  | @responded v ref job body hworker hstage =>
      obtain rfl := Option.some.inj hevent
      obtain ⟨owed, howed, hflight⟩ := h.flight
      have hworker' : a.worker v = .finished ref job body := by
        rw [h.worker, hworker, hstage]
        rfl
      refine ⟨_, .responded hworker', { h with worker := ?_, flight := ?_ }⟩
      · intro w
        by_cases hw : w = v
        · subst hw
          simp [doing_sent]
        · simpa [hw] using h.worker w
      · refine ⟨owed, howed, (hflight.append_right _).trans ?_⟩
        rw [List.append_assoc, List.append_assoc]
        exact (List.perm_append_comm).append_left _
  | @destroyed v ops client hstep =>
      obtain rfl := Option.some.inj hevent
      have howner : (s.client v).owner ≠ .live ∧ client.opQueue = [] := by
        cases hstep with
        | shutdown howner => simp [howner]
      have hdead : a.alive v = false := by
        rw [h.alive]
        exact (hcoherent v).closed howner.1
      refine ⟨_, .stopped hdead, { h with queue := ?_, worker := ?_ }⟩
      · intro w
        by_cases hw : w = v
        · subst hw
          simp [howner.2]
        · simpa [hw] using h.queue w
      · intro w
        by_cases hw : w = v
        · subst hw
          simpa [hstep.current_eq rfl rfl] using h.worker w
        · simpa [hw] using h.worker w
  | _ => cases hevent

/-- The other steps are invisible. -/
theorem Abstracts.stutter (h : Abstracts s a) (hcoherent : Coherent s)
    (hstep : ThreadedStep s label s') (hevent : label.event = none) :
    Abstracts s' a := by
  cases hstep with
  | @taken v cast rest id message state job client halive hidle hinbox hrun hstep =>
      obtain ⟨owed, howed, hflight⟩ := h.flight
      have hqueue := hstep.account.queue
      exact { h with
        inbox := by
          intro w
          by_cases hw : w = v
          · subst hw
            simp [h.inbox, hidle, hinbox, Handling.cast]
          · simpa [hw] using h.inbox w
        queue := by
          intro w
          by_cases hw : w = v
          · subst hw
            simpa [h.queue, Client.Label.pushed, Client.Label.popped,
              Client.Label.destroyed] using hqueue
          · simpa [hw] using h.queue w
        worker := by
          intro w
          by_cases hw : w = v
          · subst hw
            simpa [hstep.current_eq rfl rfl] using h.worker w
          · simpa [hw] using h.worker w
        flight := ⟨owed, howed.update (by simp [hidle]) (by simp), hflight⟩ }
  | @acknowledged v message state hhandling hreturned =>
      obtain ⟨owed, howed, hflight⟩ := h.flight
      have hv := hcoherent v
      rw [hhandling] at hv
      obtain rfl := hv.pushed rfl
      obtain ⟨before, after, rfl, howed'⟩ := howed.acknowledge hhandling
      exact { h with
        server := by
          rw [h.server]
          exact (update_eq_self _ _).symm
        inbox := by
          intro w
          by_cases hw : w = v
          · subst hw
            simpa [hhandling, Handling.cast] using h.inbox w
          · simpa [hw] using h.inbox w
        flight := by
          refine ⟨before ++ after, howed', hflight.trans ?_⟩
          rw [List.append_assoc, List.map_append, List.map_cons, List.map_append]
          exact List.perm_middle.append_left _ }
  | @finished v op client hstage hstep =>
      apply h.silent hstep rfl rfl rfl
      rw [hstage, doing_sent, doing_sent]
  | closed hdead hstep =>
      apply h.silent hstep rfl rfl rfl
      rw [hstep.current_eq rfl rfl]
  | threads hsilent hstep =>
      obtain ⟨-, hpushed, hpopped, hfinished, hdestroyed, -⟩ :=
        silent_labels hsilent
      apply h.silent hstep hpushed hpopped hdestroyed
      rw [hstep.current_eq hpopped hfinished]
  | _ => cases hevent

/-! ## Runs -/

theorem abstracts_initial (hs : ThreadedInitial s) : Abstracts s s.base where
  phase := rfl
  mailbox := rfl
  casts := rfl
  alive := rfl
  server := rfl
  inbox := by
    intro v
    rw [hs.handling v]
    rfl
  queue := by
    intro v
    rw [hs.base.queue v, (hs.client v).queue]
  worker := by
    intro v
    rw [hs.base.worker v, (hs.client v).worker]
    rfl
  flight := by
    refine ⟨[], ⟨List.nodup_nil, ?_⟩, ?_⟩
    · simp [hs.handling]
    · simp

/-- Every run of the threaded system is a run of the system model. -/
theorem threads_refine {trace : List ThreadedEvent}
    (hrun : Run threadedMachine trace s) :
    ∃ a, Run machine (trace.filterMap ThreadedEvent.event) a ∧
      Abstracts s a := by
  have hsimulates := hrun.simulate_stutter machine ThreadedEvent.event
    (fun s a => Coherent s ∧ Abstracts s a) ?_ ?_ ?_
  · obtain ⟨a, hrun', -, h⟩ := hsimulates
    exact ⟨a, hrun', h⟩
  · intro s hs
    exact ⟨s.base, hs.base, coherent_initial hs, abstracts_initial hs⟩
  · rintro s label s' a event hstep ⟨hcoherent, h⟩ hevent
    obtain ⟨a', hstep', h'⟩ := h.step hcoherent hstep hevent
    exact ⟨a', hstep', hcoherent.step hstep, h'⟩
  · rintro s label s' a hstep ⟨hcoherent, h⟩ hevent
    exact ⟨hcoherent.step hstep, h.stutter hcoherent hstep hevent⟩

/-! ## A response that overtakes the acknowledgement -/

/-- The worker answers before `post` has returned to the server. -/
def overtakenTrace : List ThreadedEvent :=
  [.process (.called 0 0 1 (staleCast 1).request),
    .process (.arrived 0 0 (staleCast 1)),
    .taken 0 (staleCast 1),
    .threads 0, .threads 0,
    .pushed 0 (staleCast 1) (staleJob 1),
    .threads 0, .threads 0, .threads 0,
    .started 0 1 (staleJob 1),
    .executed 0 1 (staleJob 1) emptyReply,
    .responded 0 1 (staleJob 1) emptyReply,
    .acknowledged 0,
    .process (.delivered 0 (.response (1, 0, 0) emptyReply 1)),
    .process (.delivered 0 (.accepted 1 (1, 0, 0))),
    .process (.resumed 0 1 (1, 0, 0)),
    .process (.returned 0 1 (1, 0, 0) 1 emptyReply),
    .finished 0]

/-- A client whose worker has gone to sleep. -/
def sleepingClient : ClientState where
  opQueue := []
  outstandingWork := 1
  stopped := false
  event := 2
  mutex := none
  posts := []
  worker := .sleeping false
  owner := .live

theorem ready_sleepingClient : Ready sleepingClient where
  reached := by
    have h₀ : Run (Client.machine (Ref × Job)) [] Client.State.new := .start rfl
    have h₁ := h₀.step (.runEntry rfl one_ne_zero)
    have h₂ := h₁.step (.runLock rfl rfl)
    have h₃ := h₂.step (.clear rfl rfl rfl)
    exact ⟨_, h₃.step (.sleep rfl zero_ne_one)⟩
  live := rfl
  queue := rfl
  posts := rfl
  worker := rfl

def quietThreads : ThreadedState where
  base := quietState
  handling _ := .idle
  client _ := sleepingClient
  stage _ := .sent

theorem initial_quietThreads : ThreadedInitial quietThreads where
  base := initial_quietState
  handling _ := rfl
  client _ := ready_sleepingClient

theorem ThreadedStep.internal
    (hstep : Client.Step (s.client v) .internal client) :
    ThreadedStep s (.threads v)
      { s with client := update s.client v client } :=
  @ThreadedStep.threads _ _ _ .internal _ trivial hstep

omit [LcbTypes] in
open Client.PosixEvent in
theorem sleeper_noticed : HasWaiters (signal 2) ∧ IsSignalled (signal 2 - 2) := by
  decide

theorem overtakenRun : ∃ s, Run threadedMachine overtakenTrace s := by
  have h₀ : Run threadedMachine [] quietThreads := .start initial_quietThreads
  have h₁ : Run _ (overtakenTrace.take 1) _ :=
    h₀.step (.process trivial (by rintro _ _ _ ⟨⟩) (.called rfl))
  have h₂ : Run _ (overtakenTrace.take 2) _ :=
    h₁.step (.process trivial (by rintro _ _ _ ⟨⟩) (.arrived rfl rfl))
  have h₃ : Run _ (overtakenTrace.take 3) _ :=
    h₂.step (@ThreadedStep.taken _ _ _ _ _ (1, 0, 0) _ _ (staleJob 1) _
      rfl rfl rfl rfl (.enter rfl))
  have h₄ : Run _ (overtakenTrace.take 4) _ :=
    h₃.step (.internal (@Client.Step.workStarted _ _ _ [] [] rfl))
  have h₅ : Run _ (overtakenTrace.take 5) _ :=
    h₄.step (.internal (@Client.Step.postLock _ _ _ [] [] rfl rfl))
  have h₆ : Run _ (overtakenTrace.take 6) _ :=
    h₅.step (.pushed rfl (@Client.Step.pushSignal _ _ _ [] [] rfl
      sleeper_noticed.1))
  have h₇ : Run _ (overtakenTrace.take 7) _ :=
    h₆.step (.internal (@Client.Step.condSignal _ _ [] [] rfl))
  have h₈ : Run _ (overtakenTrace.take 8) _ := h₇.step (.internal (.wake rfl rfl))
  have h₉ : Run _ (overtakenTrace.take 9) _ :=
    h₈.step (.internal (.waitDone rfl sleeper_noticed.2))
  have h₁₀ : Run _ (overtakenTrace.take 10) _ :=
    h₉.step (.started (.pop rfl rfl rfl))
  have h₁₁ : Run _ (overtakenTrace.take 11) _ :=
    h₁₀.step (.executed Lcb.silent rfl rfl)
  have h₁₂ : Run _ (overtakenTrace.take 12) _ := h₁₁.step (.responded rfl rfl)
  have h₁₃ : Run _ (overtakenTrace.take 13) _ :=
    h₁₂.step (.acknowledged rfl rfl)
  have h₁₄ : Run _ (overtakenTrace.take 14) _ :=
    h₁₃.step (.process trivial (by rintro _ _ _ ⟨⟩)
      (@Step.delivered _ _ _ _ [] [_] rfl))
  have h₁₅ : Run _ (overtakenTrace.take 15) _ :=
    h₁₄.step (.process trivial (by rintro _ _ _ ⟨⟩)
      (@Step.delivered _ _ _ _ [] [] rfl))
  have h₁₆ : Run _ (overtakenTrace.take 16) _ :=
    h₁₅.step (.process trivial (by rintro _ _ _ ⟨⟩) (.resumed rfl rfl))
  have h₁₇ : Run _ (overtakenTrace.take 17) _ :=
    h₁₆.step (.process trivial (by rintro _ _ _ ⟨⟩) (.returned rfl rfl))
  exact ⟨_, h₁₇.step (.finished rfl (.finish rfl))⟩

omit [LcbTypes] in
theorem overtakenTrace_refines :
    let _ : LcbTypes := ⟨.uint32⟩
    ∃ s a, Run threadedMachine overtakenTrace s ∧
      Run machine (overtakenTrace.filterMap ThreadedEvent.event) a ∧
      Abstracts s a := by
  intro _
  obtain ⟨s, hrun⟩ := overtakenRun
  obtain ⟨a, hrun', h⟩ := threads_refine hrun
  exact ⟨s, a, hrun, hrun', h⟩

end Cberl.System
