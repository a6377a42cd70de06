import Cberl.Connection.Operations

/-!
# Durability counts

`PersistTo` and `ReplicateTo` pass from an Erlang integer through an `int32_t`
into an unsigned 16-bit field, and `cap_max` makes libcouchbase cap each count
at what the cluster offers.  A count below `2 ^ 16` survives, `-1` becomes the
greatest count, and any other loses its high bits.
-/

namespace Cberl

/-! ## What the counts ask for -/

/-- What a count documented as `-1 | non_neg_integer()` asks of a cluster that
offers `available` copies. -/
def Requires (count : ℤ) (available enforced : ℕ) : Prop :=
  (0 ≤ count → enforced = min count.toNat available) ∧
    (count = -1 → enforced = available)

/-- The low 16 bits are the count itself, or as many copies as there are. -/
def SurvivesField (count : ℤ) (available : ℕ) : Prop :=
  count < -1 ∨ count % 2 ^ 16 = count ∨ (available : ℤ) ≤ count % 2 ^ 16

/-- `count'` asks for at least as many copies as `count`. -/
def AsksAtLeast (count' count : ℤ) : Prop :=
  count' = -1 ∨ 0 ≤ count ∧ count ≤ count'

/-- The count libcouchbase waits for. -/
def DurabilityOpts.enforced (opts : DurabilityOpts) (field available : ℕ) : ℕ :=
  if opts.capMax then min field available else field

def DurabilityOpts.persistEnforced (opts : DurabilityOpts) (available : ℕ) : ℕ :=
  opts.enforced opts.persistTo available

def DurabilityOpts.replicateEnforced (opts : DurabilityOpts) (available : ℕ) : ℕ :=
  opts.enforced opts.replicateTo available

variable [LcbTypes]

/-- The durability NIF accepts the two counts, and the handler it posts polls
with `opts`. -/
def DurabilityAccepted (persistTo replicateTo : ℤ) (opts : DurabilityOpts) :
    Prop :=
  ∃ ctx connection requests queue rows options,
    (durabilityNif ctx connection requests
      (.tuple [.int persistTo, .int replicateTo])).run.run queue =
        (.ok ctx.reqId, queue ++ [⟨ctx, connection, .durability rows options⟩]) ∧
    opts = DurabilityOpts.ofOptions options

/-! ## One count -/

omit [LcbTypes] in
theorem requires_min_iff {count : ℤ} {available : ℕ} :
    Requires count available (min (count % 2 ^ 16).toNat available) ↔
      SurvivesField count available := by
  unfold Requires SurvivesField
  constructor
  · rintro ⟨hcount, hmax⟩
    omega
  · rintro h
    constructor <;> intro <;> omega

omit [LcbTypes] in
theorem enforced_mono {count count' : ℤ} {available : ℕ}
    (hcount' : SurvivesField count' available) (h : AsksAtLeast count' count) :
    min (count % 2 ^ 16).toNat available ≤
      min (count' % 2 ^ 16).toNat available := by
  unfold SurvivesField at hcount'
  unfold AsksAtLeast at h
  omega

/-! ## Both counts -/

omit [LcbTypes] in
theorem getTuple_counts_iff {persistTo replicateTo : ℤ}
    {row : RawTuple DurabilityRequestOptions.Raw} :
    getTuple DurabilityRequestOptions.Raw
        (.tuple [.int persistTo, .int replicateTo]) = some row ↔
      persistTo = row.1.val ∧ replicateTo = row.2.1.val := by
  simp only [getTuple, arrayToTupler, FieldType.get, List.length_cons,
    List.length_nil]
  constructor
  · intro h
    cases hpersist : getInteger .int32 (.int persistTo) with
    | none => simp [hpersist] at h
    | some v =>
        cases hreplicate : getInteger .int32 (.int replicateTo) with
        | none => simp [hpersist, hreplicate] at h
        | some v' =>
            simp only [hpersist, hreplicate, if_true, Option.some.injEq] at h
            subst h
            exact ⟨Term.int.inj (getInteger_eq_some_iff.mp hpersist),
              Term.int.inj (getInteger_eq_some_iff.mp hreplicate)⟩
  · rintro ⟨rfl, rfl⟩
    rw [getInteger_eq_some_iff.mpr rfl, getInteger_eq_some_iff.mpr rfl]
    rfl

theorem DurabilityAccepted.enforced_eq {persistTo replicateTo : ℤ}
    {opts : DurabilityOpts} (h : DurabilityAccepted persistTo replicateTo opts)
    (available : ℕ) :
    opts.persistEnforced available = min (persistTo % 2 ^ 16).toNat available ∧
      opts.replicateEnforced available =
        min (replicateTo % 2 ^ 16).toNat available := by
  obtain ⟨ctx, connection, requests, queue, rows, options, hrun, rfl⟩ := h
  have hconvert := applyNif_run ctx connection
    (.durability requests (.tuple [.int persistTo, .int replicateTo])) queue
  rw [applyNif, hrun, Request.operation] at hconvert
  cases hrows : getVector DurabilityRequest.Raw requests with
  | none =>
      rw [hrows] at hconvert
      cases hconvert
  | some rows' =>
      cases hrow : getTuple DurabilityRequestOptions.Raw
          (.tuple [.int persistTo, .int replicateTo]) with
      | none =>
          rw [hrows, hrow] at hconvert
          cases hconvert
      | some row =>
          rw [hrows, hrow] at hconvert
          have hjob := List.append_cancel_left (congrArg Prod.snd hconvert)
          have hoperation := (Job.mk.inj (List.cons.inj hjob).1).2.2
          obtain ⟨-, rfl⟩ := Operation.durability.inj hoperation
          obtain ⟨rfl, rfl⟩ := getTuple_counts_iff.mp hrow
          exact ⟨rfl, rfl⟩

/-- Any two counts in the range of `int32_t` are accepted. -/
theorem durabilityAccepted_int32 (persistTo replicateTo : IntType.int32.Val) :
    DurabilityAccepted persistTo.val replicateTo.val
      (DurabilityOpts.ofOptions ⟨persistTo, replicateTo⟩) := by
  have hrow : getTuple DurabilityRequestOptions.Raw
      (.tuple [.int persistTo.val, .int replicateTo.val]) =
        some (persistTo, replicateTo, ()) :=
    getTuple_counts_iff.mpr ⟨rfl, rfl⟩
  refine ⟨⟨0, (0, 0, 0)⟩, 0, .nil, [], [], ⟨persistTo, replicateTo⟩, ?_, rfl⟩
  rw [durabilityNif, hrow]
  rfl

/-- Each count is enforced as asked if and only if it survives the 16-bit field,
and then asking for more copies never means waiting for fewer. -/
theorem durability_enforced_iff (available : ℕ) :
    (∀ persistTo replicateTo opts,
      DurabilityAccepted persistTo replicateTo opts →
      ((Requires persistTo available (opts.persistEnforced available) ∧
          Requires replicateTo available (opts.replicateEnforced available)) ↔
        SurvivesField persistTo available ∧
          SurvivesField replicateTo available)) ∧
    (∀ persistTo replicateTo opts persistTo' replicateTo' opts',
      DurabilityAccepted persistTo replicateTo opts →
      DurabilityAccepted persistTo' replicateTo' opts' →
      SurvivesField persistTo' available →
      SurvivesField replicateTo' available →
      AsksAtLeast persistTo' persistTo → AsksAtLeast replicateTo' replicateTo →
      opts.persistEnforced available ≤ opts'.persistEnforced available ∧
        opts.replicateEnforced available ≤ opts'.replicateEnforced available) := by
  constructor
  · intro persistTo replicateTo opts h
    obtain ⟨hpersist, hreplicate⟩ := h.enforced_eq available
    rw [hpersist, hreplicate, requires_min_iff, requires_min_iff]
  · intro persistTo replicateTo opts persistTo' replicateTo' opts' h h'
      hsurvives hsurvives' hasks hasks'
    obtain ⟨hpersist, hreplicate⟩ := h.enforced_eq available
    obtain ⟨hpersist', hreplicate'⟩ := h'.enforced_eq available
    rw [hpersist, hreplicate, hpersist', hreplicate']
    exact ⟨enforced_mono hsurvives hasks, enforced_mono hsurvives' hasks'⟩

omit [LcbTypes] in
/-- One persisted copy and replicas on every node, as the README asks for. -/
theorem durability_enforced_readme :
    let _ : LcbTypes := ⟨.uint32⟩
    ∃ opts, DurabilityAccepted 1 (-1) opts ∧
      Requires 1 3 (opts.persistEnforced 3) ∧
      Requires (-1) 3 (opts.replicateEnforced 3) := by
  intro _
  have haccepted := durabilityAccepted_int32 ⟨1, by decide⟩ ⟨-1, by decide⟩
  refine ⟨_, haccepted, ((durability_enforced_iff 3).1 _ _ _ haccepted).mpr ?_⟩
  constructor <;> (unfold SurvivesField; decide)

omit [LcbTypes] in
/-- A call that asks for 65536 persisted copies waits for none. -/
theorem durability_count_lost :
    let _ : LcbTypes := ⟨.uint32⟩
    ∃ opts, DurabilityAccepted 65536 0 opts ∧
      ¬ Requires 65536 1 (opts.persistEnforced 1) := by
  intro _
  have haccepted := durabilityAccepted_int32 ⟨65536, by decide⟩
    ⟨0, IntType.contains_zero .int32⟩
  refine ⟨_, haccepted, ?_⟩
  rw [(haccepted.enforced_eq 1).1]
  unfold Requires
  decide

end Cberl
