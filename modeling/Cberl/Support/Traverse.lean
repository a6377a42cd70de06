import Mathlib.Data.List.Forall2

/-!
# Element-wise conversions of lists

A list conversion that stops at the first element it cannot convert succeeds
exactly when every element converts, whatever relation describes the
conversion of one element.
-/

namespace Cberl.Support

variable {α β : Type*}

theorem mapM_option_eq_some_iff
    {read : α → Option β} {R : β → α → Prop}
    (hread : ∀ a b, read a = some b ↔ R b a) {as : List α} {bs : List β} :
    as.mapM read = some bs ↔ List.Forall₂ R bs as := by
  induction as generalizing bs with
  | nil => cases bs <;> simp
  | cons a as ih =>
      rw [List.mapM_cons]
      cases ha : read a with
      | none =>
          have hno : ∀ b, ¬ R b a := fun b hb => by
            rw [← hread, ha] at hb
            cases hb
          cases bs <;> simp [hno]
      | some b =>
          have hb : ∀ b', R b' a ↔ b = b' := fun b' => by
            rw [← hread, ha, Option.some.injEq]
          cases bs with
          | nil => cases as.mapM read <;> simp
          | cons b' bs =>
              rw [List.forall₂_cons, hb, ← ih]
              cases as.mapM read <;> simp

/-- Two conversions take a list there and back when they do so with every
element. -/
theorem mapM_bind_mapM_eq_some_iff {write : α → Option β} {read : β → Option α}
    {as : List α} :
    (as.mapM write).bind (fun bs => bs.mapM read) = some as ↔
      ∀ a ∈ as, (write a).bind read = some a := by
  simp only [Option.bind_eq_some_iff]
  induction as with
  | nil => simp
  | cons a as ih =>
      rw [List.forall_mem_cons, ← ih]
      constructor
      · rintro ⟨bs, hwrite, hread⟩
        rw [mapM_option_eq_some_iff fun _ _ => Iff.rfl] at hwrite hread
        obtain ⟨b, rest, hw, hws, rfl⟩ := List.forall₂_cons_right_iff.mp hwrite
        obtain ⟨hr, hrs⟩ := List.forall₂_cons.mp hread
        refine ⟨⟨b, hw, hr⟩, rest, ?_, ?_⟩
        · exact (mapM_option_eq_some_iff fun _ _ => Iff.rfl).mpr hws
        · exact (mapM_option_eq_some_iff fun _ _ => Iff.rfl).mpr hrs
      · rintro ⟨⟨b, hw, hr⟩, bs, hws, hrs⟩
        refine ⟨b :: bs, ?_, ?_⟩
        · simp [List.mapM_cons, hw, hws]
        · simp [List.mapM_cons, hr, hrs]

theorem except_map_eq_ok_iff {ε : Type*} {f : α → β}
    {result : Except ε α} {b : β} :
    result.map f = .ok b ↔ ∃ a, result = .ok a ∧ f a = b := by
  cases result <;> simp [Except.map]

theorem mapM_except_eq_ok_iff {ε : Type*}
    {read : α → Except ε β} {as : List α} {bs : List β} :
    as.mapM read = .ok bs ↔
      List.Forall₂ (fun a b => read a = .ok b) as bs := by
  induction as generalizing bs with
  | nil =>
      rw [List.mapM_nil, List.forall₂_nil_left_iff]
      exact ⟨fun h => (Except.ok.inj h).symm, fun h => h ▸ rfl⟩
  | cons a as ih =>
      rw [List.mapM_cons, List.forall₂_cons_left_iff]
      cases ha : read a with
      | error e =>
          constructor
          · intro h
            cases h
          · rintro ⟨b, _, hb, -⟩
            cases hb
      | ok b =>
          cases hrest : as.mapM read with
          | error e =>
              constructor
              · intro h
                cases h
              · rintro ⟨_, bs', -, hbs, -⟩
                rw [← ih, hrest] at hbs
                cases hbs
          | ok bs' =>
              constructor
              · intro h
                obtain rfl := Except.ok.inj h
                exact ⟨b, bs', rfl, ih.mp hrest, rfl⟩
              · rintro ⟨_, _, hb, hbs, rfl⟩
                rw [← ih, hrest] at hbs
                rw [← Except.ok.inj hb, ← Except.ok.inj hbs]
                rfl

/-- The partner of an entry stands at the same position. -/
theorem getElem?_of_forall₂ {R : α → β → Prop} {as : List α} {bs : List β}
    (h : List.Forall₂ R as bs) {i : ℕ} {a : α} (ha : as[i]? = some a) :
    ∃ b, bs[i]? = some b ∧ R a b := by
  induction h generalizing i with
  | nil => cases ha
  | cons hab _ ih =>
      cases i with
      | zero =>
          obtain rfl := Option.some.inj ha
          exact ⟨_, rfl, hab⟩
      | succ i => exact ih ha

/-- A list has a partner list exactly when each element has a partner. -/
theorem exists_forall₂_iff {R : α → β → Prop} {as : List α} :
    (∃ bs, List.Forall₂ R as bs) ↔ ∀ a ∈ as, ∃ b, R a b := by
  induction as with
  | nil => simp
  | cons a as ih =>
      rw [List.forall_mem_cons, ← ih]
      constructor
      · rintro ⟨bs, hbs⟩
        obtain ⟨b, rest, hb, hrest, -⟩ := List.forall₂_cons_left_iff.mp hbs
        exact ⟨⟨b, hb⟩, rest, hrest⟩
      · rintro ⟨⟨b, hb⟩, rest, hrest⟩
        exact ⟨b :: rest, .cons hb hrest⟩

/-- What every partner of an element satisfies holds of the whole partner
list. -/
theorem forall_mem_of_forall₂ {R : α → β → Prop} {P : β → Prop}
    {as : List α} {bs : List β} (h : List.Forall₂ R as bs)
    (hP : ∀ a ∈ as, ∀ b, R a b → P b) : ∀ b ∈ bs, P b := by
  induction h with
  | nil => simp
  | cons hhead _ ih =>
      rw [List.forall_mem_cons] at hP ⊢
      exact ⟨hP.1 _ hhead, ih hP.2⟩

/-- Two lists related element by element through `f` are related by `map`. -/
theorem forall₂_map_eq_iff {f : α → β} {as : List α} {bs : List β} :
    List.Forall₂ (fun a b => b = f a) as bs ↔ bs = as.map f := by
  induction as generalizing bs with
  | nil => cases bs <;> simp
  | cons a as ih => cases bs <;> simp [ih]

/-- Zipping related lists with one list relates the pairs. -/
theorem forall₂_zip {γ : Type*} {R : α → β → Prop} {as : List α} {bs : List β}
    (h : List.Forall₂ R as bs) (cs : List γ) :
    List.Forall₂ (fun x y => R x.1 y.1 ∧ x.2 = y.2)
      (as.zip cs) (bs.zip cs) := by
  induction h generalizing cs with
  | nil => exact .nil
  | cons hhead _ ih =>
      cases cs with
      | nil => exact .nil
      | cons c cs => exact .cons ⟨hhead, rfl⟩ (ih cs)

end Cberl.Support
