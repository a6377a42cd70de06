import Cberl.Client.Execution

/-!
# The life of a connection

A connection server starts a `Client`, and the first handler it posts constructs
the one `Connection` that the server will use.  `ConnectionPtr`s to it are held
by the response of that handler, by the resource whose term is sent to the
server, and by the handlers of the requests.  The server may give up at any
time, and it may die; then its terms are collected and `~Client` runs.  An
instance that a throwing constructor leaves behind never gets a `Connection`.
-/

namespace Cberl.Lifetime

open Cberl.Support

/-! ## States -/

/-- What is posted to the client: the handler of `connect`, or the one of a
request, which holds a `ConnectionPtr`. -/
inductive Handler where
  | connect
  | request (ref : ℕ)

/-- The server process: in `init/1` before `cberl_nif:connect`, in the receive
of `init/1`, in the loop of `gen_server`, or gone. -/
inductive Process where
  | starting
  | connecting
  | running
  | dead
  deriving DecidableEq

/-- Where the worker is inside the handler of `connect`: in the constructor, in
front of `toTerm`, in front of `enif_send`, behind that, or at the end, without
the response. -/
inductive Progress where
  | constructing
  | constructed
  | answered
  | sent
  | returned

/-- Where the term of the resource is: not made yet, in the environment of the
callback, in the message to the server, in the state of the server, or
nowhere. -/
inductive Resource where
  | none
  | env
  | message
  | state
  | collected

structure State where
  client : Client.State Handler
  process : Process
  progress : Progress
  resource : Resource
  /-- `use_count()` of the connection. -/
  useCount : ℕ
  /-- `make_shared` has returned. -/
  created : Bool
  /-- How often `~Connection` has run. -/
  destroyed : ℕ

/-! ## Destructors -/

/-- `~shared_ptr` -/
def State.release (s : State) : State :=
  { s with
    useCount := s.useCount - 1
    destroyed := if s.useCount = 1 then s.destroyed + 1 else s.destroyed }

/-- The term of the resource goes, and with it the resource. -/
def State.collect (s : State) : State :=
  { s.release with resource := .collected }

/-- The callback of a connect owns the environment, the handler of a request a
`ConnectionPtr`. -/
def State.destroyHandler (s : State) : Handler → State
  | .connect =>
      match s.resource with
      | .env => s.collect
      | _ => s
  | .request _ => s.release

/-! ## Steps -/

inductive Event where
  | connect
  | request (ref : ℕ)
  | exited
  | closed
  | threads (label : Client.Label Handler)
  | constructed
  | threw
  | answered
  | sent
  | returned
  | finished (handler : Handler)
  | destroyed (handlers : List Handler)
  | received
  | collected

/-- The labels of the client that destroy no handler and do not depend on the
server. -/
def OfThreads : Client.Label Handler → Prop
  | .enter _ => False
  | .finish _ => False
  | .close => False
  | .destroy _ => False
  | _ => True

inductive Step : State → Event → State → Prop
  | connect {s : State} {client : Client.State Handler}
      (hprocess : s.process = .starting)
      (hstep : Client.Step s.client (.enter .connect) client) :
      Step s .connect { s with client, process := .connecting }
  /-- `nifpp::get` copies the `ConnectionPtr` in the resource. -/
  | request {s : State} {ref : ℕ} {client : Client.State Handler}
      (hprocess : s.process = .running) (hposts : s.client.posts = [])
      (hstep : Client.Step s.client (.enter (.request ref)) client) :
      Step s (.request ref) { s with client, useCount := s.useCount + 1 }
  /-- `{stop, Reason}`, a crash or an exit signal, but not inside a NIF. -/
  | exited {s : State} (hprocess : s.process ≠ .dead)
      (hposts : s.client.posts = []) :
      Step s .exited { s with process := .dead }
  /-- The resource of the client is collected. -/
  | closed {s : State} {client : Client.State Handler}
      (hprocess : s.process = .dead)
      (hstep : Client.Step s.client .close client) :
      Step s .closed { s with client }
  | threads {s : State} {label : Client.Label Handler}
      {client : Client.State Handler} (hlabel : OfThreads label)
      (hstep : Client.Step s.client label client) :
      Step s (.threads label) { s with client }
  | constructed {s : State} (hworker : s.client.worker = .executing .connect)
      (hprogress : s.progress = .constructing) :
      Step s .constructed
        { s with progress := .constructed, useCount := 1, created := true }
  | threw {s : State} (hworker : s.client.worker = .executing .connect)
      (hprogress : s.progress = .constructing) :
      Step s .threw { s with progress := .returned }
  /-- `construct_resource` copies the `ConnectionPtr` in the response. -/
  | answered {s : State} (hprogress : s.progress = .constructed) :
      Step s .answered
        { s with
          progress := .answered
          resource := .env
          useCount := s.useCount + 1 }
  /-- `enif_send` leaves the term where it is when the process is dead. -/
  | sent {s : State} (hprogress : s.progress = .answered) :
      Step s .sent
        { s with
          progress := .sent
          resource := if s.process = .dead then .env else .message }
  /-- The response goes. -/
  | returned {s : State} (hprogress : s.progress = .sent) :
      Step s .returned { s.release with progress := .returned }
  | finished {s : State} {handler : Handler} {client : Client.State Handler}
      (hreturned : handler = .connect → s.progress = .returned)
      (hstep : Client.Step s.client (.finish handler) client) :
      Step s (.finished handler) ({ s with client }.destroyHandler handler)
  | destroyed {s : State} {handlers : List Handler}
      {client : Client.State Handler}
      (hstep : Client.Step s.client (.destroy handlers) client) :
      Step s (.destroyed handlers)
        (handlers.foldl State.destroyHandler { s with client })
  | received {s : State} (hprocess : s.process = .connecting)
      (hposts : s.client.posts = []) (hresource : s.resource = .message) :
      Step s .received { s with process := .running, resource := .state }
  | collected {s : State} (hprocess : s.process = .dead)
      (hresource : s.resource = .message ∨ s.resource = .state) :
      Step s .collected s.collect

/-- `cberl_nif:new/0` has returned. -/
def State.new : State where
  client := Client.State.new
  process := .starting
  progress := .constructing
  resource := .none
  useCount := 0
  created := false
  destroyed := 0

def machine : TransitionSystem State Event where
  Initial s := s = State.new
  Step := Step

/-- `~Connection` has not run. -/
def State.Alive (s : State) : Prop :=
  s.created = true ∧ s.destroyed = 0

/-! ## Holders -/

/-- The `ConnectionPtr` in the response. -/
def Progress.holders : Progress → ℕ
  | constructed => 1
  | answered => 1
  | sent => 1
  | _ => 0

/-- The `ConnectionPtr` in the resource. -/
def Resource.holders : Resource → ℕ
  | env => 1
  | message => 1
  | state => 1
  | _ => 0

def Handler.holds : Handler → Bool
  | connect => false
  | request _ => true

/-- The `ConnectionPtr`s in the handlers that have been posted. -/
def clientHolders (client : Client.State Handler) : ℕ :=
  (client.posts.filterMap Client.Post.op).countP Handler.holds +
    client.opQueue.countP Handler.holds +
    client.worker.current.countP Handler.holds

def State.holders (s : State) : ℕ :=
  s.progress.holders + s.resource.holders + clientHolders s.client

variable {s s' : State} {event : Event} {trace labels : List Event} {n : ℕ}
  {client client' : Client.State Handler} {label : Client.Label Handler}

/-- A handler enters, waits, and is finished or destroyed. -/
theorem clientHolders_step (hstep : Client.Step client label client') :
    clientHolders client + label.entered.toList.countP Handler.holds =
      label.finished.toList.countP Handler.holds +
        label.destroyed.countP Handler.holds + clientHolders client' := by
  have h := hstep.account
  have hposts := h.posts.countP_eq Handler.holds
  have hqueue := congrArg (List.countP Handler.holds) h.queue
  have hcurrent := congrArg (List.countP Handler.holds) h.current
  simp only [List.countP_append] at hposts hqueue hcurrent
  simp only [clientHolders]
  omega

theorem clientHolders_threads (hlabel : OfThreads label)
    (hstep : Client.Step client label client') :
    clientHolders client' = clientHolders client := by
  have hholders := clientHolders_step hstep
  cases label with
  | enter | finish | close | destroy => exact hlabel.elim
  | _ =>
      simp only [Client.Label.entered, Client.Label.finished,
        Client.Label.destroyed, Option.toList_none, List.countP_nil] at hholders
      omega

/-! ## The use count -/

/-- The use count is `n`, and `~Connection` runs when it comes to zero. -/
structure Counted (s : State) (n : ℕ) : Prop where
  count : s.useCount = n
  alive : 0 < n ↔ s.Alive
  once : s.destroyed ≤ 1
  unborn : s.created = false → s.destroyed = 0

theorem Counted.release (h : Counted s (n + 1)) : Counted s.release n := by
  have hcount := h.count
  obtain ⟨hcreated, hdestroyed⟩ := h.alive.mp (Nat.succ_pos n)
  constructor
  · simp [State.release, hcount]
  · simp only [State.Alive, State.release, hcreated, hdestroyed, hcount, true_and]
    split <;> omega
  · simp only [State.release, hdestroyed]
    split <;> omega
  · intro hunborn
    rw [State.release, hcreated] at hunborn
    cases hunborn

/-- The object that the use count belongs to. -/
theorem Counted.congr (h : Counted s n) (hcount : s'.useCount = s.useCount)
    (hcreated : s'.created = s.created) (hdestroyed : s'.destroyed = s.destroyed) :
    Counted s' n where
  count := by rw [hcount, h.count]
  alive := by rw [State.Alive, hcreated, hdestroyed, h.alive, State.Alive]
  once := hdestroyed ▸ h.once
  unborn := by
    rw [hcreated, hdestroyed]
    exact h.unborn

theorem Counted.copy (h : Counted s n) (hholder : 0 < n) :
    Counted { s with useCount := s.useCount + 1 } (n + 1) where
  count := by rw [h.count]
  alive := iff_of_true (Nat.succ_pos n) (h.alive.mp hholder)
  once := h.once
  unborn := h.unborn

theorem Counted.collect (h : Counted s s.holders)
    (hresource : s.resource.holders = 1) : Counted s.collect s.collect.holders := by
  have hcollected : s.collect.holders =
      s.progress.holders + 0 + clientHolders s.client := rfl
  have hholders : s.holders = s.collect.holders + 1 := by
    rw [hcollected, State.holders, hresource]
    omega
  rw [hholders] at h
  exact h.release.congr rfl rfl rfl

/-! ## The invariant -/

structure Consistent (s : State) : Prop where
  client : ∃ trace, Run (Client.machine Handler) trace s.client
  counted : Counted s s.holders
  /-- The worker does not leave the handler of the connect halfway. -/
  inside : 0 < s.progress.holders →
    s.client.worker.current = [.connect]
  /-- Before the constructor returns there is nothing to hold. -/
  unborn : s.progress = .constructing → s.created = false
  unmade : s.progress = .constructing ∨ s.progress = .constructed →
    s.resource = .none
  made : s.progress = .answered → s.resource = .env
  env : s.resource = .env → s.client.worker.current = [.connect]
  running : s.process = .running → s.resource = .state

theorem current_threads {handler : Handler} (hlabel : OfThreads label)
    (hstep : Client.Step client label client')
    (hcurrent : client.worker.current = [handler]) :
    client'.worker.current = [handler] := by
  cases hpopped : label.popped with
  | none =>
      have hfinished : label.finished = none := by
        cases label with
        | finish => exact hlabel.elim
        | _ => rfl
      rw [hstep.current_eq hpopped hfinished, hcurrent]
  | some op =>
      cases hstep with
      | pop hworker hstopped hqueue =>
          rw [hworker] at hcurrent
          cases hcurrent
      | _ => cases hpopped

theorem destroyHandler_connect (hresource : s.resource ≠ .env) :
    s.destroyHandler .connect = s := by
  cases hs : s.resource with
  | env => exact absurd hs hresource
  | _ => simp [State.destroyHandler, hs]

/-- `shutdown` destroys handlers that hold no environment with a term. -/
theorem destroyHandlers_eq (handlers : List Handler)
    (hresource : s.resource ≠ .env) :
    ∃ useCount destroyed, handlers.foldl State.destroyHandler s =
      { s with useCount, destroyed } := by
  induction handlers generalizing s with
  | nil => exact ⟨_, _, rfl⟩
  | cons handler handlers ih =>
      cases handler with
      | connect =>
          rw [List.foldl_cons, destroyHandler_connect hresource]
          exact ih hresource
      | request ref => exact @ih s.release hresource

theorem Counted.destroyHandlers {handlers : List Handler}
    (h : Counted s (n + handlers.countP Handler.holds))
    (hresource : s.resource ≠ .env) :
    Counted (handlers.foldl State.destroyHandler s) n := by
  induction handlers generalizing s with
  | nil => exact h
  | cons handler handlers ih =>
      cases handler with
      | connect =>
          rw [List.foldl_cons, destroyHandler_connect hresource]
          exact ih (by simpa [Handler.holds] using h) hresource
      | request ref =>
          rw [List.countP_cons_of_pos rfl, ← Nat.add_assoc] at h
          exact ih h.release hresource

/-- When the queue is destroyed the worker is gone. -/
theorem Consistent.env_of_destroy (h : Consistent s) {handlers : List Handler}
    (hstep : Client.Step s.client (.destroy handlers) client) :
    s.resource ≠ .env := by
  obtain ⟨clientTrace, hclient⟩ := h.client
  intro hresource
  have hcurrent := h.env hresource
  cases hstep with
  | shutdown howner =>
      have hworker := (Client.sound_of_run hclient).joined
        (by simp [howner, Client.Owner.hasJoined])
      rw [hworker] at hcurrent
      cases hcurrent

theorem Consistent.step (h : Consistent s) (hstep : Step s event s') :
    Consistent s' := by
  obtain ⟨clientTrace, hclient⟩ := h.client
  have hcounted := h.counted
  cases hstep with
  | @connect client hprocess hstep =>
      have hcurrent := hstep.current_eq rfl rfl
      exact { h with
        client := ⟨_, hclient.step hstep⟩
        counted := by
          have hholders : clientHolders client = clientHolders s.client := by
            simpa [Client.Label.entered, Client.Label.finished,
              Client.Label.destroyed, Handler.holds, eq_comm]
              using clientHolders_step hstep
          simp only [State.holders, hholders]
          exact hcounted.congr rfl rfl rfl
        inside := fun hholds => hcurrent.trans (h.inside hholds)
        env := fun hresource => hcurrent.trans (h.env hresource)
        running := by simp }
  | @request ref client hprocess hposts hstep =>
      have hcurrent := hstep.current_eq rfl rfl
      exact { h with
        client := ⟨_, hclient.step hstep⟩
        counted := by
          have hholders : clientHolders client = clientHolders s.client + 1 := by
            simpa [Client.Label.entered, Client.Label.finished,
              Client.Label.destroyed, Handler.holds, eq_comm]
              using clientHolders_step hstep
          have hpos : 0 < s.holders := by
            simp [State.holders, h.running hprocess, Resource.holders]
          simp only [State.holders, hholders]
          exact (hcounted.copy hpos).congr rfl rfl rfl
        inside := fun hholds => hcurrent.trans (h.inside hholds)
        env := fun hresource => hcurrent.trans (h.env hresource) }
  | exited hprocess hposts =>
      exact { h with
        counted := hcounted.congr rfl rfl rfl
        running := by simp }
  | @closed client hprocess hstep =>
      have hcurrent := hstep.current_eq rfl rfl
      exact { h with
        client := ⟨_, hclient.step hstep⟩
        counted := by
          have hholders : clientHolders client = clientHolders s.client := by
            simpa [Client.Label.entered, Client.Label.finished,
              Client.Label.destroyed, eq_comm] using clientHolders_step hstep
          simp only [State.holders, hholders]
          exact hcounted.congr rfl rfl rfl
        inside := fun hholds => hcurrent.trans (h.inside hholds)
        env := fun hresource => hcurrent.trans (h.env hresource) }
  | @threads label client hlabel hstep =>
      exact { h with
        client := ⟨_, hclient.step hstep⟩
        counted := by
          simp only [State.holders, clientHolders_threads hlabel hstep]
          exact hcounted.congr rfl rfl rfl
        inside := fun hholds => current_threads hlabel hstep (h.inside hholds)
        env := fun hresource => current_threads hlabel hstep (h.env hresource) }
  | constructed hworker hprogress =>
      have hcreated := h.unborn hprogress
      have hresource := h.unmade (.inl hprogress)
      have hzero : s.holders = 0 := by
        by_contra hne
        have halive := hcounted.alive.mp (Nat.pos_of_ne_zero hne)
        rw [State.Alive, hcreated] at halive
        cases halive.1
      have hclients : clientHolders s.client = 0 := by
        rw [State.holders] at hzero
        omega
      exact { h with
        counted := by
          simp only [State.holders, hresource, hclients]
          exact {
            count := rfl
            alive := iff_of_true Nat.one_pos ⟨rfl, hcounted.unborn hcreated⟩
            once := hcounted.once
            unborn := by simp }
        inside := fun _ => by
          rw [hworker]
          rfl
        unborn := by simp
        unmade := fun _ => hresource
        made := by simp }
  | threw hworker hprogress =>
      exact { h with
        counted := by
          simp only [State.holders, hprogress, Progress.holders] at hcounted ⊢
          exact hcounted.congr rfl rfl rfl
        inside := by simp [Progress.holders]
        unborn := by simp
        unmade := by simp
        made := by simp }
  | answered hprogress =>
      have hresource := h.unmade (.inr hprogress)
      have hinside := h.inside (by simp [hprogress, Progress.holders])
      exact { h with
        counted := by
          simp only [State.holders, hprogress, hresource, Progress.holders,
            Resource.holders] at hcounted ⊢
          rw [Nat.add_right_comm]
          exact (hcounted.copy (by omega)).congr rfl rfl rfl
        inside := fun _ => hinside
        unborn := by simp
        unmade := by simp
        made := fun _ => rfl
        env := fun _ => hinside
        running := by
          intro hprocess
          rw [h.running hprocess] at hresource
          cases hresource }
  | sent hprogress =>
      have hresource := h.made hprogress
      exact { h with
        counted := by
          have hholders : (if s.process = .dead then Resource.env
              else .message).holders = 1 := by
            split <;> rfl
          simp only [State.holders, hholders]
          simp only [State.holders, hprogress, hresource, Progress.holders,
            Resource.holders] at hcounted
          exact hcounted.congr rfl rfl rfl
        inside := fun _ => h.env hresource
        unborn := by simp
        unmade := by simp
        made := by simp
        env := fun _ => h.env hresource
        running := by
          intro hprocess
          rw [h.running hprocess] at hresource
          cases hresource }
  | returned hprogress =>
      exact { h with
        counted := by
          have hholders : s.holders =
              (0 + s.resource.holders + clientHolders s.client) + 1 := by
            simp only [State.holders, hprogress, Progress.holders]
            omega
          rw [hholders] at hcounted
          exact hcounted.release.congr rfl rfl rfl
        inside := by simp [Progress.holders]
        unborn := by simp
        unmade := by simp
        made := by simp }
  | @finished handler client hreturned hstep =>
      have hclients := clientHolders_step hstep
      have hcurrent : s.client.worker.current = [handler] := by
        cases hstep with
        | finish hworker =>
            rw [hworker]
            rfl
      cases handler with
      | connect =>
          have hprogress := hreturned rfl
          have hsame : Counted { s with client }
              (State.holders { s with client }) := by
            have hholders : clientHolders client = clientHolders s.client := by
              simpa [Client.Label.entered, Client.Label.finished,
                Client.Label.destroyed, Handler.holds, eq_comm] using hclients
            simp only [State.holders, hholders]
            exact hcounted.congr rfl rfl rfl
          by_cases hresource : s.resource = .env
          · simp only [State.destroyHandler, hresource]
            exact {
              client := ⟨_, hclient.step hstep⟩
              counted := hsame.collect (by simp [hresource, Resource.holders])
              inside := by
                simp [State.collect, State.release, hprogress, Progress.holders]
              unborn := by simp [State.collect, State.release, hprogress]
              unmade := by simp [State.collect, State.release, hprogress]
              made := by simp [State.collect, State.release, hprogress]
              env := by rintro ⟨⟩
              running := by
                intro hprocess
                rw [h.running hprocess] at hresource
                cases hresource }
          · rw [@destroyHandler_connect { s with client } hresource]
            exact { h with
              client := ⟨_, hclient.step hstep⟩
              counted := hsame
              inside := by simp [hprogress, Progress.holders]
              env := fun henv => absurd henv hresource }
      | request ref =>
          have hother : s.client.worker.current ≠ [.connect] := by
            simp [hcurrent]
          exact { h with
            client := ⟨_, hclient.step hstep⟩
            counted := by
              have hholders : s.holders =
                  State.holders { s with client } + 1 := by
                simp only [Client.Label.entered, Client.Label.finished,
                  Client.Label.destroyed, Option.toList_none, Option.toList_some,
                  List.countP_nil, List.countP_singleton, Handler.holds,
                  if_true] at hclients
                simp only [State.holders]
                omega
              rw [hholders] at hcounted
              exact (hcounted.congr rfl rfl rfl).release.congr rfl rfl rfl
            inside := fun hholds => absurd (h.inside hholds) hother
            env := fun hresource => absurd (h.env hresource) hother }
  | @destroyed handlers client hstep =>
      have hclients := clientHolders_step hstep
      have hcurrent := hstep.current_eq rfl rfl
      have hresource := h.env_of_destroy hstep
      have hholders : s.holders =
          State.holders { s with client } + handlers.countP Handler.holds := by
        simp only [Client.Label.entered, Client.Label.finished,
          Client.Label.destroyed, Option.toList_none, List.countP_nil]
          at hclients
        simp only [State.holders]
        omega
      rw [hholders] at hcounted
      have hsame : Counted { s with client } (State.holders { s with client } +
          handlers.countP Handler.holds) := hcounted.congr rfl rfl rfl
      have hcounted' := hsame.destroyHandlers hresource
      obtain ⟨useCount, destroyed, heq⟩ :=
        @destroyHandlers_eq { s with client } handlers hresource
      rw [heq] at hcounted' ⊢
      exact { h with
        client := ⟨_, hclient.step hstep⟩
        counted := hcounted'
        inside := fun hholds => hcurrent.trans (h.inside hholds)
        env := fun hresource => hcurrent.trans (h.env hresource) }
  | received hprocess hposts hresource =>
      exact { h with
        counted := by
          simp only [State.holders, hresource, Resource.holders] at hcounted ⊢
          exact hcounted.congr rfl rfl rfl
        unmade := by
          intro hprogress
          rw [h.unmade hprogress] at hresource
          cases hresource
        made := by
          intro hprogress
          rw [h.made hprogress] at hresource
          cases hresource
        env := by simp
        running := fun _ => rfl }
  | collected hprocess hresource =>
      have hmade : s.resource ≠ .none ∧ s.resource ≠ .env := by
        rcases hresource with hresource | hresource <;> simp [hresource]
      exact {
        client := h.client
        counted := hcounted.collect (by
          rcases hresource with hresource | hresource <;>
            simp [hresource, Resource.holders])
        inside := h.inside
        unborn := h.unborn
        unmade := fun hprogress => absurd (h.unmade hprogress) hmade.1
        made := fun hprogress => absurd (h.made hprogress) hmade.2
        env := by rintro ⟨⟩
        running := by
          intro hprocess'
          rw [State.collect, State.release, hprocess] at hprocess'
          cases hprocess' }

theorem consistent_of_run (hrun : Run machine trace s) : Consistent s := by
  refine @Run.invariant _ _ machine (fun _ s => Consistent s) ?_ ?_ _ _ hrun
  · rintro s rfl
    exact {
      client := ⟨[], .start rfl⟩
      counted := {
        count := rfl
        alive := iff_of_false (Nat.lt_irrefl 0) (by rintro ⟨⟨⟩, -⟩)
        once := Nat.zero_le 1
        unborn := fun _ => rfl }
      inside := by rintro ⟨⟩
      unborn := fun _ => rfl
      unmade := fun _ => rfl
      made := by rintro ⟨⟩
      env := by rintro ⟨⟩
      running := by rintro ⟨⟩ }
  · intro trace s event s' _ h hstep
    exact h.step hstep

/-! ## Rest -/

/-- The steps that need nothing from outside; libcouchbase and the constructor
return. -/
def Event.Own : Event → Prop
  | connect => False
  | request _ => False
  | exited => False
  | threads label => label.Own
  | _ => True

def Progress.cost : Progress → ℕ
  | constructing => 4
  | constructed => 3
  | answered => 2
  | sent => 1
  | returned => 0

def Resource.cost : Resource → ℕ
  | state => 1
  | collected => 0
  | _ => 2

/-- `~Client` is worth eleven steps. -/
def State.cost (s : State) : ℕ :=
  s.client.cost + (if s.client.owner = .live then 11 else 0) +
    s.progress.cost + s.resource.cost

/-- The cost of the client, with its end. -/
theorem clientCost_lt (hsound : Client.Sound client) (hown : label.Own)
    (hstep : Client.Step client label client') :
    client'.cost + (if client'.owner = .live then 11 else 0) <
      client.cost + (if client.owner = .live then 11 else 0) := by
  have hcost := Client.cost_lt hsound hown hstep
  have hlive := hstep.live_iff (by
    rintro rfl
    exact hown)
  simp only [hlive]
  omega

theorem cost_destroyHandler_le (s : State) (handler : Handler) :
    (s.destroyHandler handler).client = s.client ∧
      (s.destroyHandler handler).progress = s.progress ∧
      (s.destroyHandler handler).resource.cost ≤ s.resource.cost := by
  cases handler with
  | request ref => exact ⟨rfl, rfl, Nat.le_refl _⟩
  | connect =>
      by_cases hresource : s.resource = .env
      · simp [State.destroyHandler, hresource, State.collect, State.release,
          Resource.cost]
      · simp [destroyHandler_connect hresource]

theorem Consistent.cost_lt (h : Consistent s) (hown : event.Own)
    (hstep : Step s event s') : s'.cost < s.cost := by
  obtain ⟨clientTrace, hclient⟩ := h.client
  have hsound := Client.sound_of_run hclient
  cases hstep with
  | connect hprocess hstep => exact hown.elim
  | request hprocess hposts hstep => exact hown.elim
  | exited hprocess hposts => exact hown.elim
  | closed hprocess hstep =>
      cases hstep with
      | close howner hposts =>
          simp [State.cost, Client.State.cost, howner, Client.Owner.cost]
  | threads hlabel hstep =>
      have hcost := clientCost_lt hsound hown hstep
      simp only [State.cost]
      omega
  | constructed hworker hprogress =>
      simp [State.cost, hprogress, Progress.cost]
  | threw hworker hprogress => simp [State.cost, hprogress, Progress.cost]
  | answered hprogress =>
      have hresource := h.unmade (.inr hprogress)
      simp [State.cost, hprogress, hresource, Progress.cost, Resource.cost]
  | sent hprogress =>
      have hresource := h.made hprogress
      have hcost : (if s.process = .dead then Resource.env
          else .message).cost = 2 := by
        split <;> rfl
      simp only [State.cost, hprogress, hresource, hcost]
      simp [Progress.cost, Resource.cost]
  | returned hprogress =>
      simp [State.cost, State.release, hprogress, Progress.cost]
  | @finished handler client hreturned hstep =>
      have hcost := @clientCost_lt _ _ (.finish handler) hsound trivial hstep
      obtain ⟨hsame, hprogress, hresource⟩ :=
        cost_destroyHandler_le { s with client } handler
      refine Nat.lt_of_le_of_lt (Nat.add_le_add_left hresource _) ?_
      simp only [State.cost, hsame, hprogress]
      omega
  | @destroyed handlers client hstep =>
      have hcost := @clientCost_lt _ _ (.destroy handlers) hsound trivial hstep
      obtain ⟨useCount, destroyed, heq⟩ :=
        @destroyHandlers_eq { s with client } handlers (h.env_of_destroy hstep)
      rw [heq]
      simp only [State.cost]
      omega
  | received hprocess hposts hresource =>
      simp [State.cost, hresource, Resource.cost]
  | collected hprocess hresource =>
      rcases hresource with hresource | hresource <;>
        simp [State.cost, State.collect, State.release, hresource, Resource.cost]

theorem settling : Settling machine Event.Own Consistent State.cost where
  keep := fun h _ hstep => h.step hstep
  lower := fun h hown hstep => h.cost_lt hown hstep

/-- At rest the threads of the client are at rest. -/
theorem client_of_rest (hrest : AtRest machine Event.Own s) :
    AtRest (Client.machine Handler) Client.Label.Own s.client := by
  intro label client hown hstep
  cases label with
  | enter | wakeup | close => exact hown
  | push op => exact hrest.elim (@Step.threads s (.push op) _ trivial hstep) trivial
  | pop op => exact hrest.elim (@Step.threads s (.pop op) _ trivial hstep) trivial
  | stop => exact hrest.elim (@Step.threads s .stop _ trivial hstep) trivial
  | internal => exact hrest.elim (@Step.threads s .internal _ trivial hstep) trivial
  | destroy handlers => exact hrest.elim (.destroyed hstep) trivial
  | finish handler =>
      cases handler with
      | request ref =>
          exact hrest.elim (@Step.finished s (.request ref) _ nofun hstep) trivial
      | connect =>
          cases hprogress : s.progress with
          | constructing =>
              cases hstep with
              | finish hworker =>
                  exact hrest.elim (.constructed hworker hprogress) trivial
          | constructed => exact hrest.elim (.answered hprogress) trivial
          | answered => exact hrest.elim (.sent hprogress) trivial
          | sent => exact hrest.elim (.returned hprogress) trivial
          | returned =>
              exact hrest.elim (.finished (fun _ => hprogress) hstep) trivial

/-- When the server is dead and the rest has come to its end, nothing is left. -/
theorem Consistent.released (h : Consistent s) (hprocess : s.process = .dead)
    (hrest : AtRest machine Event.Own s) :
    s.client.owner = .destroyed ∧ s.client.opQueue = [] ∧ s.holders = 0 ∧
      (s.created = true → s.destroyed = 1) := by
  obtain ⟨clientTrace, hclient⟩ := h.client
  cases Client.settled_of_rest hclient (client_of_rest hrest) with
  | idle howner hworker hqueue hposts hmutex =>
      exact (hrest.elim (.closed hprocess (.close howner hposts)) trivial).elim
  | gone howner hworker hqueue hposts hmutex =>
      have hcurrent : s.client.worker.current = [] := by
        rw [hworker]
        rfl
      have hprogress : s.progress.holders = 0 := by
        by_contra hne
        have hinside := h.inside (Nat.pos_of_ne_zero hne)
        rw [hcurrent] at hinside
        cases hinside
      have hresource : s.resource.holders = 0 := by
        cases hresource : s.resource with
        | env =>
            have henv := h.env hresource
            rw [hcurrent] at henv
            cases henv
        | message =>
            exact (hrest.elim (.collected hprocess (.inl hresource)) trivial).elim
        | state =>
            exact (hrest.elim (.collected hprocess (.inr hresource)) trivial).elim
        | _ => rfl
      have hholders : s.holders = 0 := by
        simp [State.holders, hprogress, hresource, clientHolders, hposts, hqueue,
          hcurrent]
      refine ⟨howner, hqueue, hholders, ?_⟩
      intro hcreated
      have hdead := mt h.counted.alive.mpr (by omega)
      have honce := h.counted.once
      simp only [State.Alive, hcreated, true_and] at hdead
      omega

/-! ## Every life -/

/-- The connection of a server at any time. -/
structure Managed (s : State) : Prop where
  /-- A request is only executed on a connection that is there. -/
  used : ∀ {ref}, s.client.worker = .executing (.request ref) → s.Alive
  served : s.process = .running → s.Alive
  /-- The connection goes with its last holder, and only once. -/
  counted : s.useCount = s.holders ∧ (s.Alive ↔ 0 < s.holders)
  once : s.destroyed ≤ 1
  bounded : ∀ {labels s'}, Path machine Event.Own labels s s' →
    labels.length ≤ s.cost
  rests : ∃ labels s', Path machine Event.Own labels s s' ∧
    AtRest machine Event.Own s'
  /-- A dead server leaves neither its `Client` nor its connection behind. -/
  released : s.process = .dead → AtRest machine Event.Own s →
    s.client.owner = .destroyed ∧ s.client.opQueue = [] ∧ s.holders = 0 ∧
      (s.created = true → s.destroyed = 1)

theorem managed_of_run (hrun : Run machine trace s) : Managed s := by
  have h := consistent_of_run hrun
  exact {
    used := by
      intro ref hworker
      apply h.counted.alive.mp
      have hcurrent : s.client.worker.current = [.request ref] := by
        rw [hworker]
        rfl
      simp [State.holders, clientHolders, hcurrent, Handler.holds]
    served := by
      intro hprocess
      apply h.counted.alive.mp
      simp [State.holders, h.running hprocess, Resource.holders]
    counted := ⟨h.counted.count, h.counted.alive.symm⟩
    once := h.counted.once
    bounded := by
      intro labels s' hpath
      have hlength := settling.length_le hpath h
      omega
    rests := settling.exists_rest h
    released := h.released }

/-! ## A request that is not executed -/

/-- The server dies before the worker takes the request that it has posted, and
even before the handler of the connect is over. -/
def crashTrace : List Event :=
  [.connect, .threads .internal, .threads .internal,
    .threads (.push .connect), .threads .internal, .threads .internal,
    .threads (.pop .connect),
    .constructed, .answered, .sent, .received,
    .request 5, .threads .internal, .threads .internal,
    .threads (.push (.request 5)),
    .exited, .closed, .returned, .finished .connect, .collected,
    .threads .internal, .threads .stop, .threads .internal, .threads .internal,
    .threads .internal, .threads .internal, .threads .internal,
    .destroyed [.request 5]]

theorem crashRun : ∃ s, Run machine crashTrace s ∧ s.destroyed = 1 := by
  have h₀ : Run machine [] State.new := .start rfl
  have h₁ : Run machine (crashTrace.take 1) _ := h₀.step (.connect rfl (.enter rfl))
  have h₂ : Run machine (crashTrace.take 2) _ :=
    h₁.step (.threads trivial (@Client.Step.workStarted _ _ _ [] [] rfl))
  have h₃ : Run machine (crashTrace.take 3) _ :=
    h₂.step (.threads trivial (@Client.Step.postLock _ _ _ [] [] rfl rfl))
  have h₄ : Run machine (crashTrace.take 4) _ :=
    h₃.step (.threads trivial
      (@Client.Step.pushOnly _ _ _ [] [] rfl (by decide)))
  have h₅ : Run machine (crashTrace.take 5) _ :=
    h₄.step (.threads trivial (.runEntry rfl (by decide)))
  have h₆ : Run machine (crashTrace.take 6) _ :=
    h₅.step (.threads trivial (.runLock rfl rfl))
  have h₇ : Run machine (crashTrace.take 7) _ :=
    h₆.step (.threads trivial (.pop rfl rfl rfl))
  have h₈ : Run machine (crashTrace.take 8) _ := h₇.step (.constructed rfl rfl)
  have h₉ : Run machine (crashTrace.take 9) _ := h₈.step (.answered rfl)
  have h₁₀ : Run machine (crashTrace.take 10) _ := h₉.step (.sent rfl)
  have h₁₁ : Run machine (crashTrace.take 11) _ :=
    h₁₀.step (.received rfl rfl rfl)
  have h₁₂ : Run machine (crashTrace.take 12) _ :=
    h₁₁.step (.request rfl rfl (.enter rfl))
  have h₁₃ : Run machine (crashTrace.take 13) _ :=
    h₁₂.step (.threads trivial (@Client.Step.workStarted _ _ _ [] [] rfl))
  have h₁₄ : Run machine (crashTrace.take 14) _ :=
    h₁₃.step (.threads trivial (@Client.Step.postLock _ _ _ [] [] rfl rfl))
  have h₁₅ : Run machine (crashTrace.take 15) _ :=
    h₁₄.step (.threads trivial
      (@Client.Step.pushOnly _ _ _ [] [] rfl (by decide)))
  have h₁₆ : Run machine (crashTrace.take 16) _ :=
    h₁₅.step (.exited (by decide) rfl)
  have h₁₇ : Run machine (crashTrace.take 17) _ :=
    h₁₆.step (.closed rfl (.close rfl rfl))
  have h₁₈ : Run machine (crashTrace.take 18) _ := h₁₇.step (.returned rfl)
  have h₁₉ : Run machine (crashTrace.take 19) _ :=
    h₁₈.step (.finished (fun _ => rfl) (.finish rfl))
  have h₂₀ : Run machine (crashTrace.take 20) _ :=
    h₁₉.step (.collected rfl (.inr rfl))
  have h₂₁ : Run machine (crashTrace.take 21) _ :=
    h₂₀.step (.threads trivial (.stopLock rfl rfl))
  have h₂₂ : Run machine (crashTrace.take 22) _ :=
    h₂₁.step (.threads trivial (.stop rfl))
  have h₂₃ : Run machine (crashTrace.take 23) _ :=
    h₂₂.step (.threads trivial (.workFinished rfl (by decide)))
  have h₂₄ : Run machine (crashTrace.take 24) _ :=
    h₂₃.step (.threads trivial (.runLock rfl rfl))
  have h₂₅ : Run machine (crashTrace.take 25) _ :=
    h₂₄.step (.threads trivial (.runReturn rfl rfl))
  have h₂₆ : Run machine (crashTrace.take 26) _ :=
    h₂₅.step (.threads trivial (.join rfl rfl))
  have h₂₇ : Run machine (crashTrace.take 27) _ :=
    h₂₆.step (.threads trivial (.release rfl (by decide)))
  exact ⟨_, h₂₇.step (.destroyed (.shutdown rfl)), rfl⟩

theorem crash_managed : ∃ s, Run machine crashTrace s ∧ Managed s := by
  obtain ⟨s, hrun, -⟩ := crashRun
  exact ⟨s, hrun, managed_of_run hrun⟩

end Cberl.Lifetime
