import Mathlib.Logic.Relation

/-! # Runs by turns

A system takes turns: `step s t` is its state after the turn `t`, none where the turn is not
possible. A run is a chain of turns that are allowed where they are taken.

* **`TakesTurn.invariant`** — what every allowed turn preserves holds at the end of every run.
* **`replay_run`** — where a list of turns can be replayed, there is a run. -/

namespace AcceptXmr

variable {σ τ : Type} {step : σ → τ → Option σ} {allowed : σ → τ → Prop} {s s' : σ}

/-- **A step of a run** in which every turn is allowed. -/
def TakesTurn (step : σ → τ → Option σ) (allowed : σ → τ → Prop) (s s' : σ) : Prop :=
  ∃ t, allowed s t ∧ step s t = some s'

/-- **Invariants of runs.** -/
theorem TakesTurn.invariant (P : σ → Prop)
    (hstep : ∀ s s' t, P s → allowed s t → step s t = some s' → P s')
    (h : Relation.ReflTransGen (TakesTurn step allowed) s s') (hP : P s) : P s' := by
  induction h with
  | refl => exact hP
  | tail _ hlast ih =>
      obtain ⟨t, ht, hturn⟩ := hlast
      exact hstep _ _ t ih ht hturn

/-- The end of a run by turns, which stops where a turn is not possible or fails the check. -/
def replay (step : σ → τ → Option σ) (check : σ → τ → Bool) : List τ → σ → Option σ
  | [], s => some s
  | t :: turns, s => if check s t then (step s t).bind (replay step check turns) else none

/-- **A replayed run is a run.** -/
theorem replay_run {check : σ → τ → Bool} (hcheck : ∀ s t, check s t = true → allowed s t)
    {turns : List τ} (h : replay step check turns s = some s') :
    Relation.ReflTransGen (TakesTurn step allowed) s s' := by
  induction turns generalizing s with
  | nil =>
      cases h
      exact .refl
  | cons t turns ih =>
      rw [replay] at h
      split at h
      · rename_i hpasses
        obtain ⟨mid, hmid, h⟩ := Option.bind_eq_some_iff.mp h
        exact .head ⟨t, hcheck s t hpasses, hmid⟩ (ih h)
      · cases h

end AcceptXmr
