import Cberl.Support.SelectiveReceive
import Mathlib.Tactic.Common

/-!
# Receives with a timeout

A mailbox of messages with their arrival times, oldest first.  A receive with a
timeout waits until the first message its pattern matches has arrived, or until
its deadline; a message that is already there is taken at once.  A receive that
has to wait for longer than Erlang counts raises `timeout_value` instead.  What
one pattern sees of the mailbox does not change when a receive takes a message
of another pattern.
-/

namespace Cberl.Support

variable {μ α β : Type*}

/-- A message and the time it arrives. -/
structure Arrival (μ : Type*) where
  time : ℕ
  message : μ

/-- A deadline, or none for `infinity`. -/
abbrev Deadline := Option ℕ

/-- Not after the deadline. -/
def Deadline.Covers : Deadline → ℕ → Prop
  | none, _ => True
  | some d, time => time ≤ d

instance Deadline.decidableCovers : (deadline : Deadline) → (time : ℕ) →
    Decidable (deadline.Covers time)
  | none, _ => .isTrue trivial
  | some d, time => Nat.decLe time d

/-- The longest timeout that `receive ... after` takes. -/
def longestAfter : ℕ := 4294967295

/-- How a receive with a timeout ends, if it ends. -/
inductive Wait (μ α : Type*) where
  | received (value : α) (time : ℕ) (rest : List (Arrival μ))
  | timedOut (time : ℕ)
  | raised (time : ℕ)
  | forever

/-- Until when a receive entered at the time `now` looks for a message: with a
timeout that is too long it sees only what is there already. -/
def deadlineOf (timeout : Option ℕ) (now : ℕ) : Deadline :=
  timeout.map fun t => if t ≤ longestAfter then now + t else now

/-- A receive that finds nothing. -/
def Wait.unmatched (timeout : Option ℕ) (now : ℕ) : Wait μ α :=
  match timeout with
  | some t => if t ≤ longestAfter then timedOut (now + t) else raised now
  | none => forever

/-- A pattern that sees only the messages that arrive in time. -/
def duePattern (pattern : μ → Option α) (deadline : Deadline)
    (arrival : Arrival μ) : Option (ℕ × α) :=
  if deadline.Covers arrival.time then
    (pattern arrival.message).map fun value => (arrival.time, value)
  else none

/-- A receive entered at the time `now`. -/
def timedReceive (pattern : μ → Option α) (timeout : Option ℕ) (now : ℕ)
    (mailbox : List (Arrival μ)) : Wait μ α :=
  match selectiveReceive (duePattern pattern (deadlineOf timeout now)) mailbox with
  | some ((time, value), rest) => .received value (max now time) rest
  | none => .unmatched timeout now

/-- What a pattern matches in a mailbox, with the arrival times. -/
def matching (pattern : μ → Option α) (mailbox : List (Arrival μ)) :
    List (ℕ × α) :=
  mailbox.filterMap fun arrival =>
    (pattern arrival.message).map fun value => (arrival.time, value)

section Rules

variable {pattern : μ → Option α} {timeout : Option ℕ} {now : ℕ}
  {mailbox : List (Arrival μ)}

theorem mem_matching_iff {time : ℕ} {value : α} :
    (time, value) ∈ matching pattern mailbox ↔
      ∃ arrival ∈ mailbox, arrival.time = time ∧
        pattern arrival.message = some value := by
  simp only [matching, List.mem_filterMap, Option.map_eq_some_iff,
    Prod.mk.injEq, exists_eq_right_right]
  refine exists_congr fun arrival => and_congr_right fun _ => ?_
  tauto

theorem duePattern_eq_some_iff {deadline : Deadline} {arrival : Arrival μ}
    {time : ℕ} {value : α} :
    duePattern pattern deadline arrival = some (time, value) ↔
      deadline.Covers time ∧ arrival.time = time ∧
        pattern arrival.message = some value := by
  unfold duePattern
  constructor
  · intro h
    rw [Option.ite_none_right_eq_some, Option.map_eq_some_iff] at h
    obtain ⟨hcovers, value', hvalue, heq⟩ := h
    obtain ⟨rfl, rfl⟩ := Prod.mk.inj heq
    exact ⟨hcovers, rfl, hvalue⟩
  · rintro ⟨hcovers, rfl, hvalue⟩
    rw [if_pos hcovers, hvalue, Option.map_some]

/-- A message taken by one pattern is none that another pattern sees. -/
theorem matching_of_perm_cons {other : μ → Option β} {arrival : Arrival μ}
    {rest : List (Arrival μ)} (hperm : mailbox.Perm (arrival :: rest))
    (hother : other arrival.message = none) :
    (matching other mailbox).Perm (matching other rest) := by
  have hrest : matching other (arrival :: rest) = matching other rest := by
    simp [matching, hother]
  rw [← hrest]
  exact hperm.filterMap _

/-- The receive takes the only matching message if it arrives in time. -/
theorem timedReceive_of_covers {time : ℕ} {value : α}
    (hmatching : matching pattern mailbox = [(time, value)])
    (hcovers : (deadlineOf timeout now).Covers time) :
    ∃ arrival rest,
      timedReceive pattern timeout now mailbox =
        .received value (max now time) rest ∧
      mailbox.Perm (arrival :: rest) ∧ pattern arrival.message = some value := by
  rw [timedReceive]
  cases hreceive : selectiveReceive
      (duePattern pattern (deadlineOf timeout now)) mailbox with
  | none =>
      have hmem : (time, value) ∈ matching pattern mailbox := by simp [hmatching]
      obtain ⟨arrival, harrival, hvalue⟩ := mem_matching_iff.mp hmem
      have hdue := duePattern_eq_some_iff.mpr ⟨hcovers, hvalue⟩
      rw [selectiveReceive_eq_none_iff.mp hreceive arrival harrival] at hdue
      cases hdue
  | some taken =>
      obtain ⟨⟨time', value'⟩, rest⟩ := taken
      obtain ⟨arrival, hdue, hperm⟩ := exists_perm_of_selectiveReceive hreceive
      obtain ⟨-, htime, hvalue⟩ := duePattern_eq_some_iff.mp hdue
      have hmem : (time', value') ∈ matching pattern mailbox :=
        mem_matching_iff.mpr ⟨arrival, hperm.mem_iff.mpr (by simp), htime, hvalue⟩
      rw [hmatching, List.mem_singleton] at hmem
      obtain ⟨rfl, rfl⟩ := Prod.mk.inj hmem
      exact ⟨arrival, rest, rfl, hperm, hvalue⟩

/-- The receive finds nothing if no matching message arrives in time. -/
theorem timedReceive_of_not_covers
    (hlate : ∀ entry ∈ matching pattern mailbox,
      ¬ (deadlineOf timeout now).Covers entry.1) :
    timedReceive pattern timeout now mailbox = .unmatched timeout now := by
  have hnone : selectiveReceive
      (duePattern pattern (deadlineOf timeout now)) mailbox = none := by
    rw [selectiveReceive_eq_none_iff]
    intro arrival harrival
    rw [Option.eq_none_iff_forall_ne_some]
    rintro ⟨time, value⟩ hdue
    obtain ⟨hcovers, htime, hvalue⟩ := duePattern_eq_some_iff.mp hdue
    exact hlate _ (mem_matching_iff.mpr ⟨arrival, harrival, htime, hvalue⟩) hcovers
  rw [timedReceive, hnone]

end Rules

end Cberl.Support
