import Mathlib.Data.List.Nodup
import Mathlib.Logic.Function.Basic
import Mathlib.Logic.Relation

/-! # Operations that take effect one at a time

A system carries out numbered operations, many of them at the same time. `outcome s i` says what
operation `i` has come to in the state `s`, and is none as long as the operation has not taken effect.
`Does x a a'` says that an operation which comes to `x` may take the object from `a` to `a'`.

* **`linearizes`** — if every step lets at most one operation take effect, a run has a history in which
  the operations were carried out one after the other.
* **`answers_last_change`** — an operation sees what the last change before it has left, whatever else
  is under way. -/

namespace AcceptXmr

namespace Linearization

variable {α β γ σ : Type} {Does : β → σ → σ → Prop}

/-- **Operations carried out one after the other**, each with its number and what it came to. -/
inductive Sequential (Does : β → σ → σ → Prop) : σ → List (ℕ × β) → σ → Prop where
  | nil {a : σ} : Sequential Does a [] a
  | cons {a b c : σ} {i : ℕ} {x : β} {rest : List (ℕ × β)} (hdoes : Does x a b)
      (hrest : Sequential Does b rest c) : Sequential Does a ((i, x) :: rest) c

theorem Sequential.append {a b c : σ} {front back : List (ℕ × β)} (hfront : Sequential Does a front b)
    (hback : Sequential Does b back c) : Sequential Does a (front ++ back) c := by
  induction hfront with
  | nil => exact hback
  | cons hdoes _ ih => exact .cons hdoes (ih hback)

/-- Every operation of a history found its object in some state and left it in another. -/
theorem Sequential.split {a c : σ} {history : List (ℕ × β)} (h : Sequential Does a history c)
    {i : ℕ} {x : β} (hmem : (i, x) ∈ history) :
    ∃ front back b b', history = front ++ (i, x) :: back ∧ Sequential Does a front b ∧
      Does x b b' ∧ Sequential Does b' back c := by
  induction h with
  | nil => cases hmem
  | @cons a b c j y rest hdoes hrest ih =>
      rcases List.mem_cons.mp hmem with heq | hmem
      · obtain ⟨rfl, rfl⟩ := Prod.mk.inj heq
        exact ⟨[], rest, a, b, rfl, .nil, hdoes, hrest⟩
      · obtain ⟨front, back, d, d', rfl, hfront, hx, hback⟩ := ih hmem
        exact ⟨(j, y) :: front, back, d, d', rfl, .cons hdoes hfront, hx, hback⟩

/-- **What no operation of a history changes** is the same at its end. -/
theorem Sequential.unchanged {get : σ → γ} {a c : σ} {history : List (ℕ × β)}
    (h : Sequential Does a history c)
    (hkeeps : ∀ p ∈ history, ∀ b b', Does p.2 b b' → get b' = get b) : get c = get a := by
  induction h with
  | nil => rfl
  | cons hdoes _ ih =>
      rw [ih fun p hp => hkeeps p (List.mem_cons_of_mem _ hp)]
      exact hkeeps _ List.mem_cons_self _ _ hdoes

variable {object : α → σ} {outcome : α → ℕ → Option β} {Step : α → α → Prop} {Inv : α → Prop}

/-- **What a step may do**: nothing that can be seen, or let one operation take effect. -/
inductive Effect (Does : β → σ → σ → Prop) (object : α → σ) (outcome : α → ℕ → Option β)
    (s s' : α) : Prop where
  | silent (hobject : object s' = object s) (houtcome : outcome s' = outcome s)
  | takes (i : ℕ) (x : β) (hbefore : outcome s i = none) (hdoes : Does x (object s) (object s'))
      (houtcome : outcome s' = Function.update (outcome s) i (some x))

/-- What an operation has come to stays. -/
theorem Effect.stays {s s' : α} (h : Effect Does object outcome s s') {i : ℕ} {x : β}
    (hx : outcome s i = some x) : outcome s' i = some x := by
  cases h with
  | silent hobject houtcome => rwa [houtcome]
  | takes j y hbefore hdoes houtcome =>
      have hne : i ≠ j := by
        rintro rfl
        rw [hbefore] at hx
        cases hx
      rw [houtcome, Function.update_of_ne hne]
      exact hx

/-- **A history of a run**: the operations that took effect in it, one after the other and each once. -/
structure History (Does : β → σ → σ → Prop) (object : α → σ) (outcome : α → ℕ → Option β)
    (s s' : α) (history : List (ℕ × β)) : Prop where
  sequential : Sequential Does (object s) history (object s')
  once : (history.map Prod.fst).Nodup
  mem_iff : ∀ i x, (i, x) ∈ history ↔ outcome s i = none ∧ outcome s' i = some x
  /-- What an operation has come to stays. -/
  stays : ∀ i x, outcome s i = some x → outcome s' i = some x

theorem History.nil (s : α) : History Does object outcome s s [] where
  sequential := .nil
  once := List.nodup_nil
  mem_iff i x := by
    refine iff_of_false List.not_mem_nil fun h => ?_
    rw [h.1] at h
    cases h.2
  stays _ _ h := h

/-- A history goes on as the system does. -/
theorem History.step {s s' s'' : α} {history : List (ℕ × β)}
    (h : History Does object outcome s s' history) (hstep : Effect Does object outcome s' s'') :
    ∃ more, History Does object outcome s s'' (history ++ more) := by
  have hstays : ∀ i x, outcome s i = some x → outcome s'' i = some x :=
    fun i x hx => hstep.stays (h.stays i x hx)
  cases hstep with
  | silent hobject houtcome =>
      refine ⟨[], ?_, ?_, ?_, hstays⟩
      · rw [List.append_nil, hobject]
        exact h.sequential
      · rw [List.append_nil]
        exact h.once
      · intro i x
        rw [List.append_nil, houtcome]
        exact h.mem_iff i x
  | takes j y hbefore hdoes houtcome =>
      -- It had not taken effect before the run either.
      have hstart : outcome s j = none := by
        cases hs : outcome s j with
        | none => rfl
        | some x =>
            rw [h.stays j x hs] at hbefore
            cases hbefore
      have hnew : j ∉ history.map Prod.fst := by
        intro hmem
        obtain ⟨⟨i, x⟩, hx, rfl⟩ := List.mem_map.mp hmem
        rw [((h.mem_iff i x).mp hx).2] at hbefore
        cases hbefore
      refine ⟨[(j, y)], h.sequential.append (.cons hdoes .nil), ?_, fun i x => ?_, hstays⟩
      · rw [List.map_append, List.map_singleton]
        exact h.once.append (List.nodup_singleton j) (by simpa using hnew)
      · rw [List.mem_append, h.mem_iff, List.mem_singleton, Prod.mk.injEq, houtcome]
        by_cases heq : i = j
        · subst heq
          rw [Function.update_self, hbefore]
          simp [hstart, eq_comm]
        · rw [Function.update_of_ne heq]
          simp [heq]

/-- **Runs linearize**: what the operations of a run come to is what they would have come to one after
the other, in the order of the history. The history of a longer run begins with that of a shorter one,
so that operations are not carried out in an order other than that in which they were seen. -/
theorem linearizes (hstep : ∀ s s', Inv s → Step s s' → Inv s' ∧ Effect Does object outcome s s')
    {s s' : α} (hs : Inv s) (h : Relation.ReflTransGen Step s s') :
    Inv s' ∧ ∃ history, History Does object outcome s s' history := by
  induction h with
  | refl => exact ⟨hs, [], .nil s⟩
  | tail _ hlast ih =>
      obtain ⟨hinv, history, hhistory⟩ := ih
      obtain ⟨hinv', heffect⟩ := hstep _ _ hinv hlast
      obtain ⟨more, hmore⟩ := hhistory.step heffect
      exact ⟨hinv', _, hmore⟩

/-- Histories of runs that follow one another. -/
theorem History.append {s s' s'' : α} {history more : List (ℕ × β)}
    (h : History Does object outcome s s' history) (h' : History Does object outcome s' s'' more) :
    History Does object outcome s s'' (history ++ more) where
  sequential := h.sequential.append h'.sequential
  once := by
    rw [List.map_append]
    refine h.once.append h'.once fun i hi hi' => ?_
    obtain ⟨⟨i, x⟩, hx, rfl⟩ := List.mem_map.mp hi
    obtain ⟨⟨j, y⟩, hy, heq⟩ := List.mem_map.mp hi'
    obtain rfl : j = i := heq
    have hbefore := ((h'.mem_iff j y).mp hy).1
    rw [((h.mem_iff j x).mp hx).2] at hbefore
    cases hbefore
  mem_iff i x := by
    rw [List.mem_append, h.mem_iff, h'.mem_iff]
    constructor
    · rintro (⟨hnone, hsome⟩ | ⟨hnone, hsome⟩)
      · exact ⟨hnone, h'.stays i x hsome⟩
      · refine ⟨?_, hsome⟩
        cases hs : outcome s i with
        | none => rfl
        | some y =>
            rw [h.stays i y hs] at hnone
            cases hnone
    · rintro ⟨hnone, hsome⟩
      cases hs : outcome s' i with
      | none => exact .inr ⟨rfl, hsome⟩
      | some y =>
          rw [h'.stays i y hs] at hsome
          exact .inl ⟨hnone, hsome⟩
  stays i x hx := h'.stays i x (h.stays i x hx)

/-- **An operation answers to the last change before it.** Operation `j` took effect in a first run, and
all other changes of what `get` reads had been made before that run. Then whatever takes effect in a
second run finds there what `j` has left, however the operations overlapped. -/
theorem answers_last_change {get : σ → γ} {Changes : β → Prop} {r s s' : α}
    {history more : List (ℕ × β)} (h : History Does object outcome r s history)
    (h' : History Does object outcome s s' more)
    (hkeeps : ∀ x, ¬ Changes x → ∀ b b', Does x b b' → get b' = get b)
    {j : ℕ} {y : β} (hj : outcome r j = none) (hj' : outcome s j = some y)
    (hothers : ∀ i x, outcome s' i = some x → Changes x → i ≠ j → outcome r i ≠ none)
    {k : ℕ} {x : β} (hk : outcome s k = none) (hk' : outcome s' k = some x) :
    ∃ a a' b b', Does y a a' ∧ Does x b b' ∧ get b = get a' := by
  obtain ⟨front, back, a, a', rfl, -, hy, hback⟩ := h.sequential.split ((h.mem_iff j y).mpr ⟨hj, hj'⟩)
  obtain ⟨front', back', b, b', rfl, hfront', hx, -⟩ :=
    h'.sequential.split ((h'.mem_iff k x).mpr ⟨hk, hk'⟩)
  refine ⟨a, a', b, b', hy, hx, (hback.append hfront').unchanged ?_⟩
  -- Between the two operations nothing has been changed.
  rintro ⟨i, z⟩ hz
  have hmem : (i, z) ∈ (front ++ (j, y) :: back) ++ (front' ++ (k, x) :: back') := by
    simp only [List.mem_append, List.mem_cons] at hz ⊢
    tauto
  obtain ⟨hnone, hsome⟩ := ((h.append h').mem_iff i z).mp hmem
  refine hkeeps z fun hchanges => ?_
  have hne : i ≠ j := by
    rintro rfl
    -- Operation `j` itself stands in the history once.
    have honce := (h.append h').once
    simp only [List.append_assoc, List.cons_append, List.map_append, List.map_cons] at honce
    rw [List.nodup_append, List.nodup_cons] at honce
    refine honce.2.1.1 ?_
    have hi := List.mem_map_of_mem (f := Prod.fst) hz
    rw [List.map_append, List.mem_append] at hi
    rw [List.mem_append, List.mem_append]
    exact hi.imp_right .inl
  exact hothers i z hsome hchanges hne hnone

end Linearization

end AcceptXmr
