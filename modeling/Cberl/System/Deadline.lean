import Cberl.System.Model
import Cberl.Support.TimedReceive

/-!
# The timeout of a call

`call/3` hands its timeout to both receives, and the second one starts to count
when the first message has been taken.  The call is bounded by its timeout
unless the server's message makes it wait and the worker's message is not there
when the timeout of the call has passed, or it would have to wait with a timeout
that no receive takes.
-/

namespace Cberl.System

open Cberl Cberl.Support

/-! ## The call -/

/-- What `call/3` returns and when.  With `infinity` it may not return, and with
a timeout that is too long it may raise `timeout_value`. -/
inductive CallResult where
  | response (body : Term) (time : ℕ)
  | timeout (time : ℕ)
  | raised (time : ℕ)
  | never

/-- The call after a receive: it goes on with what was received, and returns or
raises otherwise. -/
def andThen {α : Type} (wait : Wait Message α)
    (next : α → ℕ → List (Arrival Message) → CallResult) : CallResult :=
  match wait with
  | .received value time rest => next value time rest
  | .timedOut time => .timeout time
  | .raised time => .raised time
  | .forever => .never

/-- `call/3` after its cast at the time `start`: two receives, each with the
whole timeout. -/
def timedCall (timeout : Option ℕ) (start : ℕ) (ref : Ref)
    (mailbox : List (Arrival Message)) : CallResult :=
  andThen (timedReceive (acceptedFor ref) timeout start mailbox)
    fun id time rest =>
      andThen (timedReceive (responseFor id) timeout time rest)
        fun answer time _ => .response answer.2 time

/-! ## The call as a function of the arrival times -/

/-- When a receive entered at `now` takes a message with this arrival time. -/
def takenAt (timeout : Option ℕ) (now : ℕ) (arrival : Option ℕ) : Option ℕ :=
  arrival.bind fun time =>
    if (deadlineOf timeout now).Covers time then some (max now time) else none

/-- A receive entered at `now` that takes nothing. -/
def expired (timeout : Option ℕ) (now : ℕ) : CallResult :=
  match timeout with
  | some t => if t ≤ longestAfter then .timeout (now + t) else .raised now
  | none => .never

/-- The result of a call whose server answers at the time `a` and whose worker
answers `body` at the time `b`, each of them if at all. -/
def callResult (timeout : Option ℕ) (start : ℕ) (a b : Option ℕ) (body : Term) :
    CallResult :=
  match takenAt timeout start a with
  | some time =>
      match takenAt timeout time b with
      | some time => .response body time
      | none => expired timeout time
  | none => expired timeout start

section Receives

variable {α : Type} {pattern : Message → Option α} {timeout : Option ℕ}
  {now : ℕ} {mailbox : List (Arrival Message)} {arrival : Option ℕ} {value : α}

theorem timedReceive_of_takenAt {time : ℕ}
    (hmatching : matching pattern mailbox = arrival.toList.map (·, value))
    (htaken : takenAt timeout now arrival = some time) :
    ∃ taken rest,
      timedReceive pattern timeout now mailbox = .received value time rest ∧
      mailbox.Perm (taken :: rest) ∧ pattern taken.message = some value := by
  obtain ⟨t, rfl, htime⟩ := Option.bind_eq_some_iff.mp htaken
  rw [Option.ite_none_right_eq_some] at htime
  obtain ⟨hcovers, htime⟩ := htime
  obtain rfl := Option.some.inj htime
  exact timedReceive_of_covers hmatching hcovers

theorem timedReceive_of_takenAt_none
    (hmatching : matching pattern mailbox = arrival.toList.map (·, value))
    (htaken : takenAt timeout now arrival = none) :
    timedReceive pattern timeout now mailbox = .unmatched timeout now := by
  apply timedReceive_of_not_covers
  rw [hmatching]
  intro entry hentry hcovers
  obtain ⟨t, ht, rfl⟩ := List.mem_map.mp hentry
  obtain rfl := Option.mem_toList.mp ht
  rw [takenAt, Option.bind_some, if_pos hcovers] at htaken
  cases htaken

/-- A receive that finds nothing ends the call. -/
theorem andThen_unmatched
    (next : α → ℕ → List (Arrival Message) → CallResult) :
    andThen (.unmatched timeout now) next = expired timeout now := by
  cases timeout with
  | none => rfl
  | some t =>
      simp only [Wait.unmatched, expired]
      split <;> rfl

end Receives

/-- A call that finds at most one message of each kind depends only on their
arrival times. -/
theorem timedCall_eq_callResult {timeout : Option ℕ} {start : ℕ} {ref tag : Ref}
    {id : RequestId} {body : Term} {a b : Option ℕ}
    {mailbox : List (Arrival Message)}
    (hserver : matching (acceptedFor ref) mailbox = a.toList.map (·, id))
    (hworker : matching (responseFor id) mailbox = b.toList.map (·, (tag, body))) :
    timedCall timeout start ref mailbox = callResult timeout start a b body := by
  rw [timedCall, callResult]
  cases ha : takenAt timeout start a with
  | none =>
      rw [timedReceive_of_takenAt_none hserver ha]
      exact andThen_unmatched _
  | some time =>
      obtain ⟨taken, rest, hreceive, hperm, htaken⟩ :=
        timedReceive_of_takenAt hserver ha
      have hother : responseFor id taken.message = none := by
        rw [acceptedFor_eq_some_iff.mp htaken]
        rfl
      have hrest : matching (responseFor id) rest = b.toList.map (·, (tag, body)) := by
        have hsame := matching_of_perm_cons hperm hother
        rw [hworker] at hsame
        cases b with
        | none => exact List.nil_perm.mp hsame
        | some t => exact (List.singleton_perm.mp hsame).symm
      rw [hreceive]
      dsimp only [andThen]
      cases hb : takenAt timeout time b with
      | none =>
          rw [timedReceive_of_takenAt_none hrest hb]
          exact andThen_unmatched _
      | some time' =>
          obtain ⟨taken', rest', hreceive', -, -⟩ :=
            timedReceive_of_takenAt hrest hb
          rw [hreceive']

/-! ## The bound -/

/-- There, and not after the deadline. -/
def InTime (deadline : Deadline) (arrival : Option ℕ) : Prop :=
  ∃ time, arrival = some time ∧ deadline.Covers time

/-- The call returns the response if both messages are there by its deadline,
and `{error, timeout}` otherwise, in either case not after the deadline.
Without a deadline it waits for both. -/
structure BoundedCall (deadline : Deadline) (a b : Option ℕ) (body : Term)
    (result : CallResult) : Prop where
  response : InTime deadline a ∧ InTime deadline b →
    ∃ time, result = .response body time ∧ deadline.Covers time
  timeout : ¬ (InTime deadline a ∧ InTime deadline b) →
    match deadline with
    | some d => ∃ time ≤ d, result = .timeout time
    | none => result = .never

/-- The server's message comes within the timeout but makes the call wait, and
the worker's message is not there when the timeout has passed. -/
def Overrun (timeout : Option ℕ) (start : ℕ) (a b : Option ℕ) : Prop :=
  ∃ t time, timeout = some t ∧ a = some time ∧ start < time ∧
    time ≤ start + t ∧ ¬ InTime (some (start + t)) b

/-- The timeout is longer than a receive takes, and not both messages are there
when the call starts. -/
def Overlong (timeout : Option ℕ) (start : ℕ) (a b : Option ℕ) : Prop :=
  ∃ t, timeout = some t ∧ longestAfter < t ∧
    ¬ (InTime (some start) a ∧ InTime (some start) b)

@[simp] theorem inTime_none_iff {arrival : Option ℕ} :
    InTime none arrival ↔ arrival.isSome := by
  simp [InTime, Deadline.Covers, Option.isSome_iff_exists]

@[simp] theorem inTime_some_iff {d : ℕ} {arrival : Option ℕ} :
    InTime (some d) arrival ↔ ∃ time, arrival = some time ∧ time ≤ d :=
  Iff.rfl

/-- A call without a deadline waits for both messages. -/
theorem boundedCall_infinity (start : ℕ) (a b : Option ℕ) (body : Term) :
    BoundedCall none a b body (callResult none start a b body) := by
  cases a with
  | none => exact ⟨by simp, fun _ => rfl⟩
  | some time =>
      cases b with
      | none => exact ⟨by simp, fun _ => rfl⟩
      | some time' => exact ⟨fun _ => ⟨_, rfl, trivial⟩, by simp⟩

section Finite

variable {t start now time : ℕ} {a b arrival : Option ℕ} {body : Term}

theorem takenAt_of_late (h : ¬ InTime (deadlineOf (some t) now) arrival) :
    takenAt (some t) now arrival = none := by
  cases arrival with
  | none => rfl
  | some time =>
      have hlate : ¬ (deadlineOf (some t) now).Covers time := fun hcovers =>
        h ⟨time, rfl, hcovers⟩
      rw [takenAt, Option.bind_some]
      exact if_neg hlate

theorem takenAt_of_covers (h : (deadlineOf (some t) now).Covers time) :
    takenAt (some t) now (some time) = some (max now time) := by
  rw [takenAt, Option.bind_some]
  exact if_pos h

/-! ### A timeout that a receive takes -/

theorem deadlineOf_of_le (ht : t ≤ longestAfter) :
    deadlineOf (some t) now = some (now + t) := by
  simp [deadlineOf, ht]

theorem expired_of_le (ht : t ≤ longestAfter) :
    expired (some t) now = .timeout (now + t) := by
  simp [expired, ht]

theorem callResult_of_first_late (ht : t ≤ longestAfter)
    (h : ¬ InTime (some (start + t)) a) :
    callResult (some t) start a b body = .timeout (start + t) := by
  have hlate : ¬ InTime (deadlineOf (some t) start) a := by
    rwa [deadlineOf_of_le ht]
  rw [callResult, takenAt_of_late hlate]
  exact expired_of_le ht

theorem callResult_of_first_in_time (ht : t ≤ longestAfter)
    (h : time ≤ start + t) :
    callResult (some t) start (some time) b body =
      match takenAt (some t) (max start time) b with
      | some time' => .response body time'
      | none => .timeout (max start time + t) := by
  have hcovers : (deadlineOf (some t) start).Covers time := by
    rwa [deadlineOf_of_le ht]
  rw [callResult, takenAt_of_covers hcovers]
  simp only [expired_of_le ht]

/-- When the worker's message is late, the call ends in time exactly when the
first receive did not have to wait. -/
theorem boundedCall_of_second_late (ht : t ≤ longestAfter)
    (ha : time ≤ start + t) (hb : ¬ InTime (some (start + t)) b) :
    BoundedCall (some (start + t)) (some time) b body
        (callResult (some t) start (some time) b body) ↔ time ≤ start := by
  rw [callResult_of_first_in_time ht ha]
  constructor
  · intro hbounded
    obtain ⟨returned, hle, hresult⟩ := hbounded.timeout fun h => hb h.2
    cases htaken : takenAt (some t) (max start time) b with
    | some time' =>
        rw [htaken] at hresult
        cases hresult
    | none =>
        rw [htaken] at hresult
        obtain rfl := CallResult.timeout.inj hresult
        omega
  · intro hstart
    have hlate : ¬ InTime (deadlineOf (some t) start) b := by
      rwa [deadlineOf_of_le ht]
    rw [Nat.max_eq_left hstart, takenAt_of_late hlate]
    exact ⟨fun h => absurd h.2 hb, fun _ => ⟨_, Nat.le_refl _, rfl⟩⟩

theorem boundedCall_iff_not_overrun (ht : t ≤ longestAfter) :
    BoundedCall (some (start + t)) a b body (callResult (some t) start a b body) ↔
      ¬ Overrun (some t) start a b := by
  by_cases ha : InTime (some (start + t)) a
  · obtain ⟨time, rfl, htime⟩ := ha
    by_cases hb : InTime (some (start + t)) b
    · have hover : ¬ Overrun (some t) start (some time) b := by
        rintro ⟨t', -, ht', -, -, -, hlate⟩
        obtain rfl := Option.some.inj ht'
        exact hlate hb
      refine iff_of_true ⟨fun _ => ?_, fun h => absurd ⟨⟨time, rfl, htime⟩, hb⟩ h⟩
        hover
      obtain ⟨time', rfl, htime'⟩ := hb
      have hfirst : time ≤ start + t := htime
      have hsecond : time' ≤ start + t := htime'
      have hcovers : (deadlineOf (some t) (max start time)).Covers time' := by
        rw [deadlineOf_of_le ht]
        exact Nat.le_trans hsecond (Nat.add_le_add_right (Nat.le_max_left _ _) t)
      rw [callResult_of_first_in_time ht hfirst, takenAt_of_covers hcovers]
      refine ⟨_, rfl, ?_⟩
      change max (max start time) time' ≤ start + t
      omega
    · rw [boundedCall_of_second_late ht htime hb, Overrun]
      constructor
      · rintro hstart ⟨t', time', -, htime', hlt, -, -⟩
        obtain rfl := Option.some.inj htime'
        omega
      · intro hover
        by_contra hlt
        exact hover ⟨t, time, rfl, rfl, by omega, htime, hb⟩
  · have hover : ¬ Overrun (some t) start a b := by
      rintro ⟨t', time, ht', hsome, -, hle, -⟩
      obtain rfl := Option.some.inj ht'
      exact ha ⟨time, hsome, hle⟩
    rw [callResult_of_first_late ht ha]
    exact iff_of_true ⟨fun h => absurd h.1 ha, fun _ => ⟨_, Nat.le_refl _, rfl⟩⟩ hover

/-! ### A timeout that is too long -/

theorem deadlineOf_of_lt (ht : longestAfter < t) :
    deadlineOf (some t) now = some now := by
  simp [deadlineOf, Nat.not_le.mpr ht]

theorem expired_of_lt (ht : longestAfter < t) :
    expired (some t) now = .raised now := by
  simp [expired, Nat.not_le.mpr ht]

theorem takenAt_of_present (ht : longestAfter < t)
    (h : InTime (some start) arrival) :
    takenAt (some t) start arrival = some start := by
  obtain ⟨time, rfl, htime⟩ := h
  have hcovers : (deadlineOf (some t) start).Covers time := by
    rwa [deadlineOf_of_lt ht]
  rw [takenAt_of_covers hcovers, Nat.max_eq_left htime]

theorem takenAt_of_missing (ht : longestAfter < t)
    (h : ¬ InTime (some start) arrival) :
    takenAt (some t) start arrival = none := by
  rw [← deadlineOf_of_lt ht] at h
  exact takenAt_of_late h

/-- The call raises at once. -/
theorem callResult_of_missing (ht : longestAfter < t)
    (h : ¬ (InTime (some start) a ∧ InTime (some start) b)) :
    callResult (some t) start a b body = .raised start := by
  by_cases ha : InTime (some start) a
  · have hb : ¬ InTime (some start) b := fun hb => h ⟨ha, hb⟩
    rw [callResult, takenAt_of_present ht ha]
    dsimp only
    rw [takenAt_of_missing ht hb]
    exact expired_of_lt ht
  · rw [callResult, takenAt_of_missing ht ha]
    exact expired_of_lt ht

theorem boundedCall_iff_present (ht : longestAfter < t) :
    BoundedCall (some (start + t)) a b body (callResult (some t) start a b body) ↔
      InTime (some start) a ∧ InTime (some start) b := by
  constructor
  · intro hbounded
    by_contra h
    rw [callResult_of_missing ht h] at hbounded
    by_cases hboth : InTime (some (start + t)) a ∧ InTime (some (start + t)) b
    · obtain ⟨time, hresult, -⟩ := hbounded.response hboth
      cases hresult
    · obtain ⟨time, -, hresult⟩ := hbounded.timeout hboth
      cases hresult
  · rintro ⟨ha, hb⟩
    have hlater : ∀ {arrival}, InTime (some start) arrival →
        InTime (some (start + t)) arrival := by
      rintro _ ⟨time, rfl, htime⟩
      exact ⟨time, rfl, Nat.le_trans htime (Nat.le_add_right _ _)⟩
    refine ⟨fun _ => ⟨start, ?_, Nat.le_add_right _ _⟩, fun h => ?_⟩
    · rw [callResult, takenAt_of_present ht ha]
      dsimp only
      rw [takenAt_of_present ht hb]
    · exact absurd ⟨hlater ha, hlater hb⟩ h

end Finite

/-- For every timeout and all arrival times, the timeout bounds the whole call
if and only if the call does not overrun and its timeout is not too long. -/
theorem timeout_bounds_call_iff {timeout : Option ℕ} {start : ℕ} {ref tag : Ref}
    {id : RequestId} {body : Term} {a b : Option ℕ}
    {mailbox : List (Arrival Message)}
    (hserver : matching (acceptedFor ref) mailbox = a.toList.map (·, id))
    (hworker : matching (responseFor id) mailbox = b.toList.map (·, (tag, body))) :
    BoundedCall (timeout.map (start + ·)) a b body
        (timedCall timeout start ref mailbox) ↔
      ¬ Overrun timeout start a b ∧ ¬ Overlong timeout start a b := by
  rw [timedCall_eq_callResult hserver hworker]
  cases timeout with
  | none =>
      refine iff_of_true (boundedCall_infinity start a b body) ⟨?_, ?_⟩
      · rintro ⟨t, -, ht, -⟩
        cases ht
      · rintro ⟨t, ht, -⟩
        cases ht
  | some t =>
      by_cases ht : t ≤ longestAfter
      · have hshort : ¬ Overlong (some t) start a b := by
          rintro ⟨t', ht', hlong, -⟩
          obtain rfl := Option.some.inj ht'
          omega
        exact (boundedCall_iff_not_overrun ht).trans (and_iff_left hshort).symm
      · have hlong : longestAfter < t := Nat.lt_of_not_le ht
        refine (boundedCall_iff_present hlong).trans ⟨fun h => ⟨?_, ?_⟩, ?_⟩
        · rintro ⟨-, time, -, rfl, hlt, -, -⟩
          obtain ⟨time', htime', hle⟩ := h.1
          obtain rfl := Option.some.inj htime'
          exact Nat.not_lt.mpr hle hlt
        · rintro ⟨-, -, -, hmissing⟩
          exact hmissing h
        · rintro ⟨-, hshort⟩
          by_contra h
          exact hshort ⟨t, rfl, hlong, h⟩

/-- The mailbox of a call whose server answers at the time `a` and whose worker
answers at the time `b`. -/
def answeredMailbox (a b : ℕ) : List (Arrival Message) :=
  [⟨a, .accepted 0 (1, 2, 3)⟩, ⟨b, .response (1, 2, 3) (.atom "ok") 0⟩]

theorem promptMailbox_bounded :
    BoundedCall (some 1000) (some 3) (some 500) (.atom "ok")
      (timedCall (some 1000) 0 0 (answeredMailbox 3 500)) := by
  refine (@timeout_bounds_call_iff (some 1000) 0 0 0 (1, 2, 3) (.atom "ok")
    (some 3) (some 500) (answeredMailbox 3 500) rfl rfl).mpr ⟨?_, ?_⟩
  · rintro ⟨t, time, ht, -, -, -, hlate⟩
    obtain rfl := Option.some.inj ht
    exact hlate ⟨500, rfl, by decide⟩
  · rintro ⟨t, ht, hlong, -⟩
    obtain rfl := Option.some.inj ht
    exact absurd hlong (by decide)

/-- A server busy for the whole timeout and a worker busy for as long again: the
call returns its response after twice its timeout. -/
theorem busyMailbox_not_bounded :
    timedCall (some 1000) 0 0 (answeredMailbox 1000 2000) =
        .response (.atom "ok") 2000 ∧
      ¬ BoundedCall (some 1000) (some 1000) (some 2000) (.atom "ok")
        (timedCall (some 1000) 0 0 (answeredMailbox 1000 2000)) := by
  have hresult : timedCall (some 1000) 0 0 (answeredMailbox 1000 2000) =
      .response (.atom "ok") 2000 := rfl
  refine ⟨hresult, fun hbounded => ?_⟩
  have hlate : ¬ InTime (some 1000) (some 2000) := by simp
  obtain ⟨time, -, htimeout⟩ := hbounded.timeout fun h => hlate h.2
  rw [hresult] at htimeout
  cases htimeout

/-- With a timeout of 2 ^ 32 the call raises instead of waiting. -/
example : timedCall (some 4294967296) 0 0 (answeredMailbox 1 2) = .raised 0 :=
  rfl

end Cberl.System
