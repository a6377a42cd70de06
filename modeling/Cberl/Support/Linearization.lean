import Cberl.Support.Observation
import Mathlib.Data.List.Pairwise

/-!
# Linearization points

Clients of a shared object make calls, and a call is a list of commands for the
object.  A history of calls is linearizable when their commands can be put into
one order that a sequential object explains and that respects real time: no
command of a call made after another one was answered comes before a command of
that one.

When every command of an answered call takes effect at one point between the
call and its answer, the order of these points is such an order.  A call that is
not answered may have taken effect in part.
-/

namespace Cberl.Support

variable {κ β ω ν ι ρ σ ℓ : Type*}

/-- What the clients of an object see of the call `c`. -/
inductive Action (κ β ω : Type*) where
  | invoke (c : κ) (call : β)
  | respond (c : κ) (output : ω)

/-- The call that is invoked. -/
def Action.invoked : Action κ β ω → Option κ
  | invoke c _ => some c
  | respond _ _ => none

/-- The named commands of `order`, one after the other, take a sequential
object from `s` to `s'`, each with an input of its own and the answer given. -/
inductive Legal (apply : σ → ι → ρ → σ → Prop) (input : ν → ι → Prop) (s : σ) :
    List (ν × ρ) → σ → Prop
  | nil : Legal apply input s [] s
  | concat {order : List (ν × ρ)} {s' s'' : σ} {n : ν} {x : ι} {y : ρ}
      (hlegal : Legal apply input s order s') (hinput : input n x)
      (happly : apply s' x y s'') :
      Legal apply input s (order ++ [(n, y)]) s''

section Legal

variable {apply : σ → ι → ρ → σ → Prop} {input input' : ν → ι → Prop}
  {s s' : σ} {order : List (ν × ρ)}

theorem Legal.mono (h : Legal apply input s order s')
    (hinput : ∀ n x, input n x → input' n x) : Legal apply input' s order s' := by
  induction h with
  | nil => exact .nil
  | concat _ hx happly ih => exact ih.concat (hinput _ _ hx) happly

/-- A command of a legal order was applied to some state. -/
theorem Legal.exists_apply (h : Legal apply input s order s') {n : ν} {y : ρ}
    (hmem : (n, y) ∈ order) : ∃ s₁ x s₂, input n x ∧ apply s₁ x y s₂ := by
  induction h with
  | nil => cases hmem
  | concat _ hx happly ih =>
      rcases List.mem_append.mp hmem with hmem | hmem
      · exact ih hmem
      · obtain ⟨rfl, rfl⟩ := Prod.mk.inj (List.mem_singleton.mp hmem)
        exact ⟨_, _, _, hx, happly⟩

theorem Legal.exists_input (h : Legal apply input s order s') {n : ν}
    (hn : n ∈ order.map Prod.fst) : ∃ x, input n x := by
  obtain ⟨entry, hentry, rfl⟩ := List.mem_map.mp hn
  obtain ⟨_, x, _, hx, -⟩ := h.exists_apply hentry
  exact ⟨x, hx⟩

end Legal

/-- The command in position `n.2` of the call `n.1` that a history makes. -/
def Requested (commands : β → List ι) (history : List (Action κ β ω))
    (n : κ × ℕ) (x : ι) : Prop :=
  ∃ call, .invoke n.1 call ∈ history ∧ (commands call)[n.2]? = some x

/-- `order` explains the history of an object that was in the state `s`. -/
structure Linearizes (apply : σ → ι → ρ → σ → Prop) (commands : β → List ι)
    (Answers : β → ω → List ρ → Prop) (history : List (Action κ β ω)) (s : σ)
    (order : List ((κ × ℕ) × ρ)) (s' : σ) : Prop where
  legal : Legal apply (Requested commands history) s order s'
  /-- No command takes effect twice. -/
  once : (order.map Prod.fst).Nodup
  /-- The commands of an answered call have all taken effect, and the answer is
  made of their answers. -/
  answered : ∀ {c output}, .respond c output ∈ history →
    ∃ call answers, .invoke c call ∈ history ∧ Answers call output answers ∧
      answers.length = (commands call).length ∧
      ∀ i answer, answers[i]? = some answer → ((c, i), answer) ∈ order
  realTime : ∀ {before between after c output c' call'},
    history = before ++ .respond c output :: between ++
      .invoke c' call' :: after →
    ∀ {i i'}, (c, i) ∈ order.map Prod.fst → (c', i') ∈ order.map Prod.fst →
      [(c, i), (c', i')].Sublist (order.map Prod.fst)

section Order

/-- Two entries of a list are related one way or the other when each is related
to those after it. -/
theorem or_of_pairwise {R : ι → ι → Prop} {xs : List ι} {a b : ι}
    (h : xs.Pairwise R) (ha : a ∈ xs) (hb : b ∈ xs) (hne : a ≠ b) :
    R a b ∨ R b a := by
  let S : ι → ι → Prop := fun a b => R a b ∨ R b a
  have : Std.Symm S := ⟨fun _ _ => Or.symm⟩
  have hS : xs.Pairwise S := h.imp Or.inl
  exact hS.forall ha hb hne

/-- Where names occur once, entries are related as soon as their names come one
after the other. -/
theorem pairwise_of_names {R : ν × ρ → ν × ρ → Prop} {order : List (ν × ρ)}
    {a b : ν × ρ} (h : order.Pairwise R) (honce : (order.map Prod.fst).Nodup)
    (ha : a ∈ order) (hb : b ∈ order)
    (hnames : [a.1, b.1].Sublist (order.map Prod.fst)) : R a b := by
  obtain ⟨entries, hsublist, hmap⟩ := List.sublist_map_iff.mp hnames
  obtain ⟨a', rest, rfl, ha', hrest⟩ := List.map_eq_cons_iff.mp hmap.symm
  obtain ⟨b', rest, rfl, hb', hrest⟩ := List.map_eq_cons_iff.mp hrest
  obtain rfl := List.map_eq_nil_iff.mp hrest
  have hmem : ∀ entry ∈ [a', b'], entry ∈ order := fun _ hentry =>
    hsublist.subset hentry
  obtain rfl : a' = a :=
    List.inj_on_of_nodup_map honce (hmem a' (by simp)) ha ha'
  obtain rfl : b' = b :=
    List.inj_on_of_nodup_map honce (hmem b' (by simp)) hb hb'
  exact List.pairwise_pair.mp (h.sublist hsublist)

variable {apply : σ → ι → ρ → σ → Prop} {commands : β → List ι}
  {Answers : β → ω → List ρ → Prop} {history : List (Action κ β ω)} {s s' : σ}
  {order : List ((κ × ℕ) × ρ)}

/-- What holds of every command and those after it holds of the commands of an
answered call and those of a later one. -/
theorem Linearizes.of_realTime
    (h : Linearizes apply commands Answers history s order s')
    {R : (κ × ℕ) × ρ → (κ × ℕ) × ρ → Prop} (horder : order.Pairwise R)
    {before between after : List (Action κ β ω)} {c c' : κ} {output : ω}
    {call' : β}
    (hhistory : history = before ++ .respond c output :: between ++
      .invoke c' call' :: after)
    {i i' : ℕ} {y y' : ρ} (ha : ((c, i), y) ∈ order)
    (hb : ((c', i'), y') ∈ order) : R ((c, i), y) ((c', i'), y') := by
  apply pairwise_of_names horder h.once ha hb
  exact h.realTime hhistory (List.mem_map.mpr ⟨_, ha, rfl⟩)
    (List.mem_map.mpr ⟨_, hb, rfl⟩)

end Order

section Points

variable {apply : σ → ι → ρ → σ → Prop} {commands : β → List ι}
  {Answers : β → ω → List ρ → Prop} {action : ℓ → Option (Action κ β ω)}
  {effect : ℓ → Option ((κ × ℕ) × ρ)} {trace : List ℓ} {s s' : σ}

/-- The names of the calls that a trace makes. -/
def invokedNames (action : ℓ → Option (Action κ β ω)) (trace : List ℓ) :
    List κ :=
  (trace.filterMap action).filterMap Action.invoked

theorem invokedNames_append (front back : List ℓ) :
    invokedNames action (front ++ back) =
      invokedNames action front ++ invokedNames action back := by
  simp [invokedNames]

/-- Every command that takes effect was requested before. -/
def Justified (action : ℓ → Option (Action κ β ω))
    (effect : ℓ → Option ((κ × ℕ) × ρ)) (trace : List ℓ) : Prop :=
  ∀ {before label after c i y}, trace = before ++ label :: after →
    effect label = some ((c, i), y) → c ∈ invokedNames action before

/-- Every answer comes after the effects of all commands of its call. -/
def Fulfilled (commands : β → List ι) (Answers : β → ω → List ρ → Prop)
    (action : ℓ → Option (Action κ β ω)) (effect : ℓ → Option ((κ × ℕ) × ρ))
    (trace : List ℓ) : Prop :=
  ∀ {before label after c output}, trace = before ++ label :: after →
    action label = some (.respond c output) →
    ∃ call answers, .invoke c call ∈ before.filterMap action ∧
      Answers call output answers ∧ answers.length = (commands call).length ∧
      ∀ i answer, answers[i]? = some answer →
        ((c, i), answer) ∈ before.filterMap effect

/-- The call of a command whose effect lies in the front part of a trace was
made there. -/
theorem Justified.invoked (hjustified : Justified action effect trace)
    {front back : List ℓ} (htrace : trace = front ++ back) {c : κ} {i : ℕ}
    (h : (c, i) ∈ (front.filterMap effect).map Prod.fst) :
    c ∈ invokedNames action front := by
  obtain ⟨⟨n, y⟩, hentry, hn⟩ := List.mem_map.mp h
  obtain rfl : n = (c, i) := hn
  obtain ⟨label, hlabel, heffect⟩ := List.mem_filterMap.mp hentry
  obtain ⟨before, after, rfl⟩ := List.append_of_mem hlabel
  have hsplit : trace = before ++ label :: (after ++ back) := by
    simp [htrace]
  rw [invokedNames_append]
  exact List.mem_append_left _ (hjustified hsplit heffect)

/-- A call answered in the front part of a trace took effect there. -/
theorem Fulfilled.answered
    (hfulfilled : Fulfilled commands Answers action effect trace)
    {front back : List ℓ} (htrace : trace = front ++ back) {c : κ} {output : ω}
    (h : .respond c output ∈ front.filterMap action) :
    ∃ call answers, .invoke c call ∈ front.filterMap action ∧
      Answers call output answers ∧ answers.length = (commands call).length ∧
      ∀ i answer, answers[i]? = some answer →
        ((c, i), answer) ∈ front.filterMap effect := by
  obtain ⟨label, hlabel, haction⟩ := List.mem_filterMap.mp h
  obtain ⟨before, after, rfl⟩ := List.append_of_mem hlabel
  have hsplit : trace = before ++ label :: (after ++ back) := by
    simp [htrace]
  obtain ⟨call, answers, hcall, hanswers, hlength, heffects⟩ :=
    hfulfilled hsplit haction
  rw [List.filterMap_append, List.filterMap_append]
  exact ⟨call, answers, List.mem_append_left _ hcall, hanswers, hlength,
    fun i answer hi => List.mem_append_left _ (heffects i answer hi)⟩

/-- A name is used for one call. -/
theorem call_unique (hnames : (invokedNames action trace).Nodup) {c : κ}
    {call call' : β} (h : .invoke c call ∈ trace.filterMap action)
    (h' : .invoke c call' ∈ trace.filterMap action) : call = call' := by
  have heq := eq_of_observe_eq hnames h h' rfl rfl
  rwa [Action.invoke.injEq, and_iff_right rfl] at heq

/-- The rule of linearization points. -/
theorem linearizes_of_points
    (hnames : (invokedNames action trace).Nodup)
    (hlegal : Legal apply (Requested commands (trace.filterMap action)) s
      (trace.filterMap effect) s')
    (honce : ((trace.filterMap effect).map Prod.fst).Nodup)
    (hjustified : Justified action effect trace)
    (hfulfilled : Fulfilled commands Answers action effect trace) :
    Linearizes apply commands Answers (trace.filterMap action) s
      (trace.filterMap effect) s' where
  legal := hlegal
  once := honce
  answered := fun h => hfulfilled.answered (List.append_nil trace).symm h
  realTime := by
    intro before between after c output c' call' hhistory i i' hc hc'
    obtain ⟨front, back, htrace, hfront, hback⟩ :=
      List.filterMap_eq_append_iff.mp hhistory
    have hresponded : .respond c output ∈ front.filterMap action := by
      simp [hfront]
    obtain ⟨call, answers, hcall, -, hlength, heffects⟩ :=
      hfulfilled.answered htrace hresponded
    -- A command of the answered call lies within the call, so it has an answer.
    have hfirst : (c, i) ∈ (front.filterMap effect).map Prod.fst := by
      obtain ⟨x, call₀, hcall₀, hx⟩ := hlegal.exists_input hc
      have hcall₁ : .invoke c call ∈ trace.filterMap action := by
        rw [htrace, List.filterMap_append]
        exact List.mem_append_left _ hcall
      obtain rfl := call_unique hnames hcall₁ hcall₀
      have hi : i < answers.length := by
        rw [hlength]
        exact (List.getElem?_eq_some_iff.mp hx).1
      exact List.mem_map.mpr
        ⟨_, heffects i _ (List.getElem?_eq_getElem hi), rfl⟩
    have hinvoked : c' ∈ invokedNames action back := by
      simp [invokedNames, hback, Action.invoked]
    rw [htrace, invokedNames_append] at hnames
    have hnot : (c', i') ∉ (front.filterMap effect).map Prod.fst := fun h =>
      List.disjoint_of_nodup_append hnames (hjustified.invoked htrace h) hinvoked
    rw [htrace, List.filterMap_append, List.map_append] at hc' ⊢
    exact (List.singleton_sublist.mpr hfirst).append
      (List.singleton_sublist.mpr ((List.mem_append.mp hc').resolve_left hnot))

end Points

end Cberl.Support
