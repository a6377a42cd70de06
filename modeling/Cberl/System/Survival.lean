import Cberl.Api.Results
import Cberl.System.Correlation

/-!
# A request that takes the server down

A `badarg` of a NIF is not caught in `handle_cast/2`, so a request that its NIF
does not read terminates the connection server together with everything queued
in it.  The exported types admit such requests: the C types are bounded.
-/

namespace Cberl.System

open Cberl Cberl.Support

section Runs

variable [LcbTypes]

/-! ## One cast -/

/-- The event handles `cast` in server `v`. -/
def Handles (v : ServerId) (cast : Cast) (event : Event) : Prop :=
  (∃ job, event = .accepted v cast job) ∨ ∃ id, event = .crashed v cast id

/-- What the handling of `cast` may do: consume it, post one job and answer its
sender.  Every server stays as it was, and so does every other call. -/
structure Unharmed (v : ServerId) (cast : Cast) (rest : List Cast)
    (s s' : State) : Prop where
  alive : s'.alive = s.alive
  server : s'.server = s.server
  inbox : s'.inbox = Function.update s.inbox v rest
  phase : s'.phase = s.phase
  mailbox : s'.mailbox = s.mailbox
  casts : s'.casts = s.casts
  worker : s'.worker = s.worker
  queue : ∃ job, job.ctx.reqPid = cast.sender ∧ s'.queue =
    Function.update s.queue v (s.queue v ++ [(cast.ref, job)])
  flight : ∃ id,
    s'.flight = s.flight ++ [(cast.sender, .accepted cast.ref id)]

/-- In every reachable state in which the request is next in the mailbox of a
live server, the server can handle it, and however it does so nobody is
harmed. -/
structure Survives (request : Request) : Prop where
  progress : ∀ {s v cast rest}, Reachable machine s → s.alive v = true →
    s.inbox v = cast :: rest → cast.request = request →
    ∃ event s', Step s event s' ∧ Handles v cast event
  unharmed : ∀ {s s' v cast rest event}, Reachable machine s →
    s.alive v = true → s.inbox v = cast :: rest → cast.request = request →
    Step s event s' → Handles v cast event → Unharmed v cast rest s s'

theorem exists_accepted {s : State} {v : ServerId} {cast : Cast}
    {rest : List Cast} {operation : Operation}
    (halive : s.alive v = true) (hinbox : s.inbox v = cast :: rest)
    (hoperation : cast.request.operation = some operation) :
    ∃ job s', Step s (.accepted v cast job) s' := by
  have hrun := handleCast_run (0, 0, 0) cast (s.server v) []
  rw [hoperation] at hrun
  exact ⟨_, _, .accepted halive hinbox hrun⟩

theorem unharmed_of_accepted {s s' : State} {v : ServerId} {cast : Cast}
    {rest : List Cast} {job : Job} (hinbox : s.inbox v = cast :: rest)
    (hstep : Step s (.accepted v cast job) s') :
    Unharmed v cast rest s s' := by
  cases hstep with
  | accepted _ hinbox' hrun =>
      obtain ⟨rfl, rfl, hctx, -⟩ := handleCast_eq_ok hrun
      obtain ⟨-, rfl⟩ := List.cons.inj (hinbox.symm.trans hinbox')
      exact {
        alive := rfl
        server := Function.update_eq_self v s.server
        inbox := rfl
        phase := rfl
        mailbox := rfl
        casts := rfl
        worker := rfl
        queue := ⟨job, by rw [hctx], rfl⟩
        flight := ⟨_, rfl⟩ }

theorem operation_eq_none_of_crashed {s s' : State} {v : ServerId}
    {cast : Cast} {id : RequestId} (hstep : Step s (.crashed v cast id) s') :
    cast.request.operation = none := by
  cases hstep with
  | crashed _ _ hrun =>
      rw [handleCast_run] at hrun
      cases hoperation : cast.request.operation with
      | none => rfl
      | some operation =>
          rw [hoperation] at hrun
          cases hrun

/-- A request that its NIF does not read, cast to a fresh server, kills it. -/
theorem exists_crash {request : Request} (hnone : request.operation = none) :
    ∃ s s' cast id, Reachable machine s ∧ s.alive 0 = true ∧
      s.inbox 0 = [cast] ∧ cast.request = request ∧
      Step s (.crashed 0 cast id) s' ∧ s'.alive 0 = false := by
  have h₀ : Run machine [] quietState := .start initial_quietState
  have h₁ : Run machine [.called 0 0 1 request] _ := h₀.step (.called rfl)
  have h₂ : Run machine
      [.called 0 0 1 request, .arrived 0 0 ⟨1, 0, request⟩] _ :=
    h₁.step (.arrived rfl rfl)
  have hrun := handleCast_run (0, 0, 0) ⟨1, 0, request⟩ ⟨0, 0⟩ []
  rw [hnone] at hrun
  exact ⟨_, _, ⟨1, 0, request⟩, (0, 0, 0), ⟨_, h₂⟩, rfl, rfl, rfl,
    .crashed rfl rfl hrun, rfl⟩

theorem survives_iff {request : Request} :
    Survives request ↔ request.operation.isSome := by
  constructor
  · intro hsurvives
    by_contra hno
    obtain ⟨s, s', cast, id, hreachable, halive, hinbox, hrequest, hstep, hdead⟩ :=
      exists_crash (Option.not_isSome_iff_eq_none.mp hno)
    have hunharmed := hsurvives.unharmed hreachable halive hinbox hrequest hstep
      (Or.inr ⟨id, rfl⟩)
    rw [hunharmed.alive, halive] at hdead
    cases hdead
  · intro hsome
    obtain ⟨operation, hoperation⟩ := Option.isSome_iff_exists.mp hsome
    refine ⟨?_, ?_⟩
    · rintro s v cast rest - halive hinbox rfl
      obtain ⟨job, s', hstep⟩ := exists_accepted halive hinbox hoperation
      exact ⟨_, s', hstep, Or.inl ⟨job, rfl⟩⟩
    · rintro s s' v cast rest event - halive hinbox rfl hstep hhandles
      rcases hhandles with ⟨job, rfl⟩ | ⟨id, rfl⟩
      · exact unharmed_of_accepted hinbox hstep
      · rw [operation_eq_none_of_crashed hstep] at hoperation
        cases hoperation

/-! ## One API call -/

/-- The server survives the cast of the call with nobody else affected, and the
call returns a value of its declared type, with or without a timeout. -/
structure Contained (codec : Codec) (lcb : Lcb) (call : Api.ApiCall) :
    Prop where
  survives : ∀ request,
    ((call.run codec (Api.worker lcb)).run.run []).2 = [request] →
      Survives request
  returns : call.Returns codec (Api.worker lcb)
  timesOut : call.Returns codec fun _ => Api.errorTerm (.atom "timeout")

/-- If the operation of the call is executed and succeeds as a whole,
libcouchbase delivers what the call can make a result of. -/
def Delivered (codec : Codec) (lcb : Lcb) (call : Api.ApiCall) : Prop :=
  ∀ request operation outcome, call.request codec = .ok request →
    request.operation = some operation →
    operation.batchOutcome lcb = some outcome →
    outcome.schedule.or outcome.wait = none →
    call.Delivers codec outcome

/-- A call of the exported types is contained exactly when its fields fit the
types of its NIF and libcouchbase delivers what the call can decode. -/
theorem contained_iff (codec : Codec) (lcb : Lcb) (call : Api.ApiCall) :
    Contained codec lcb call ↔
      call.Fits codec ∧ Delivered codec lcb call := by
  have hcast : ∀ {request}, call.request codec = .ok request →
      ((call.run codec (Api.worker lcb)).run.run []).2 = [request] := by
    intro request hrequest
    rw [Api.ApiCall.run_eq, hrequest]
    rfl
  constructor
  · rintro ⟨hsurvives, ⟨t, hrun, ht⟩, -⟩
    cases hrequest : call.request codec with
    | error raise =>
        rw [Api.ApiCall.run_eq, hrequest] at hrun
        cases hrun
    | ok request =>
        refine ⟨?_, ?_⟩
        · rw [Api.ApiCall.fits_iff]
          exact ⟨request, hrequest,
            survives_iff.mp (hsurvives request (hcast hrequest))⟩
        · intro request' operation outcome hrequest'
          exact (Api.ApiCall.returns_iff hrequest').mp ⟨t, hrun, ht⟩ operation
            outcome
  · rintro ⟨hfits, hdelivered⟩
    obtain ⟨request, hrequest, hsome⟩ := Api.ApiCall.fits_iff.mp hfits
    refine ⟨?_, ?_, ?_⟩
    · intro request' hcast'
      rw [hcast hrequest] at hcast'
      obtain rfl := (List.cons.inj hcast').1
      exact survives_iff.mpr hsome
    · rw [Api.ApiCall.returns_iff hrequest]
      intro operation outcome
      exact hdelivered request operation outcome hrequest
    · exact Api.ApiCall.returns_of_error hrequest rfl

end Runs

/-- A delta just beyond 64 bits. -/
def bigDelta : Api.ArithmeticRequest where
  key := [107]
  delta := 2 ^ 63
  default := none
  expiry := 0

/-- `cberl:arithmetic/6` with the delta `1 bsl 63` takes the server down. -/
theorem bigDelta_not_contained :
    let _ : LcbTypes := ⟨.uint32⟩
    ¬ Contained Codec.digits Lcb.silent (.key (.arithmetic bigDelta)) ∧
      ∃ s s' cast id, Reachable machine s ∧ s.alive 0 = true ∧
        s.inbox 0 = [cast] ∧
        cast.request = .arithmetic (.list [bigDelta.toTerm]) ∧
        Step s (.crashed 0 cast id) s' ∧ s'.alive 0 = false := by
  intro _
  have hnone : Request.operation (.arithmetic (.list [bigDelta.toTerm])) =
      none := rfl
  refine ⟨?_, exists_crash hnone⟩
  intro hcontained
  have hsome := survives_iff.mp (hcontained.survives _ rfl)
  cases hsome

end Cberl.System
