import AcceptXmr.Library.Resumption

/-! # Programs in step

Two resumable programs are in step if they send the same requests, whatever the answers, and end
with related results. Run alone on the same state, they leave it the same.

* **`InStep.bind`**, **`InStep.merge`** — programs put together from programs in step.
* **`InStep.run`** — what two runs have in common.
* **`sent`** — the requests that a program sends when it runs alone. -/

namespace AcceptXmr

variable {Req : Type} {Resp : Req → Type} {ε δ α β γ κ σ : Type}

/-- **Related outcomes**: the same error, or related results. -/
inductive Outcome (Q : α → β → Prop) : Except ε α → Except ε β → Prop where
  | ok {a : α} {b : β} (h : Q a b) : Outcome Q (.ok a) (.ok b)
  | error (e : ε) : Outcome Q (.error e) (.error e)

namespace Resumption

/-- **Programs in step**: the same requests, and related outcomes. -/
inductive InStep (Q : α → β → Prop) :
    Resumption Req Resp ε α → Resumption Req Resp ε β → Prop where
  | done {a : Except ε α} {b : Except ε β} (h : Outcome Q a b) : InStep Q (.done a) (.done b)
  | call (req : Req) {next : Resp req → Resumption Req Resp ε α}
      {next' : Resp req → Resumption Req Resp ε β} (h : ∀ x, InStep Q (next x) (next' x)) :
      InStep Q (.call req next) (.call req next')

variable {P : α → γ → Prop} {Q : β → κ → Prop}

/-- A program is in step with itself. -/
theorem InStep.refl {Q : α → α → Prop} (hQ : ∀ a, Q a a) (p : Resumption Req Resp ε α) :
    InStep Q p p := by
  induction p with
  | done r =>
      cases r with
      | ok a => exact .done (.ok (hQ a))
      | error e => exact .done (.error e)
  | call req next ih => exact .call req ih

/-- One after the other. -/
theorem InStep.bind {p : Resumption Req Resp ε α} {p' : Resumption Req Resp ε γ}
    {f : α → Resumption Req Resp ε β} {f' : γ → Resumption Req Resp ε κ} (hp : InStep P p p')
    (hf : ∀ a a', P a a' → InStep Q (f a) (f' a')) : InStep Q (p.bind f) (p'.bind f') := by
  induction hp with
  | done h =>
      cases h with
      | ok h => exact hf _ _ h
      | error e => exact .done (.error e)
  | call req _ ih => exact .call req ih

/-- The outcomes of two programs at once. -/
def Outcomes (P : α → γ → Prop) (Q : β → κ → Prop) (r : Except ε α × Except ε β)
    (r' : Except ε γ × Except ε κ) : Prop :=
  Outcome P r.1 r'.1 ∧ Outcome Q r.2 r'.2

/-- Two programs in step stay so behind outcomes that match. -/
theorem InStep.afterLeft {a : Except ε α} {a' : Except ε γ} {q : Resumption Req Resp ε β}
    {q' : Resumption Req Resp ε κ} (ha : Outcome P a a') (hq : InStep Q q q') :
    InStep (Outcomes P Q) (q.afterLeft a : Resumption Req Resp δ _) (q'.afterLeft a') := by
  induction hq with
  | done h => exact .done (.ok ⟨ha, h⟩)
  | call req _ ih => exact .call req ih

/-- Programs that are in step one by one are so in turn. -/
theorem InStep.inTurn {p : Resumption Req Resp ε α} {p' : Resumption Req Resp ε γ}
    {q : Resumption Req Resp ε β} {q' : Resumption Req Resp ε κ} (hp : InStep P p p')
    (hq : InStep Q q q') :
    InStep (Outcomes P Q) (p.inTurn q : Resumption Req Resp δ _) (p'.inTurn q') := by
  induction hp with
  | done h => exact hq.afterLeft h
  | call req _ ih => exact .call req ih

/-- **At the same time**, under one schedule. -/
theorem InStep.merge (turns : List Bool) {p : Resumption Req Resp ε α}
    {p' : Resumption Req Resp ε γ} {q : Resumption Req Resp ε β} {q' : Resumption Req Resp ε κ}
    (hp : InStep P p p') (hq : InStep Q q q') :
    InStep (Outcomes P Q) (merge turns p q : Resumption Req Resp δ _) (merge turns p' q') := by
  induction turns generalizing p p' q q' with
  | nil =>
      rw [Resumption.merge, Resumption.merge]
      exact hp.inTurn hq
  | cons turn turns ih =>
      cases turn with
      | true =>
          cases hp with
          | done h =>
              rw [Resumption.merge, Resumption.merge]
              exact ih (.done h) hq
          | call req h =>
              rw [Resumption.merge, Resumption.merge]
              exact .call req fun x => ih (h x) hq
      | false =>
          cases hq with
          | done h =>
              rw [Resumption.merge, Resumption.merge]
              exact ih hp (.done h)
          | call req h =>
              rw [Resumption.merge, Resumption.merge]
              exact .call req fun x => ih hp (h x)

variable {handle : (req : Req) → σ → Resp req × σ}

/-- **Run alone**, programs in step leave the same state and have related outcomes. -/
theorem InStep.run {p : Resumption Req Resp ε α} {p' : Resumption Req Resp ε γ}
    (h : InStep P p p') (s : σ) :
    Outcome P (p.run handle s).1 (p'.run handle s).1 ∧
      (p'.run handle s).2 = (p.run handle s).2 := by
  induction h generalizing s with
  | done h => exact ⟨h, rfl⟩
  | call req _ ih => exact ih _ _

/-! ## The requests of a run -/

/-- The requests that a program sends when it runs alone. -/
def sent (handle : (req : Req) → σ → Resp req × σ) : Resumption Req Resp ε α → σ → List Req
  | .done _, _ => []
  | .call req next, s => req :: sent handle (next (handle req s).1) (handle req s).2

/-- A program that goes on sends its own requests, and then those of what it goes on with. -/
theorem sent_bind (p : Resumption Req Resp ε α) (f : α → Resumption Req Resp ε β) (s : σ) :
    sent handle (p.bind f) s = sent handle p s ++
      match p.run handle s with
      | (.ok a, s') => sent handle (f a) s'
      | (.error _, _) => [] := by
  induction p generalizing s with
  | done r => cases r <;> rfl
  | call req next ih =>
      rw [Resumption.bind, sent, sent, ih, List.cons_append, run_call]

/-- Handing an error on as a result changes nothing of what is sent. -/
@[simp] theorem sent_attempt (p : Resumption Req Resp ε α) (s : σ) :
    sent handle (p.attempt (δ := δ)) s = sent handle p s := by
  induction p generalizing s with
  | done r => rfl
  | call req next ih => rw [attempt, sent, sent, ih]

/-- The requests are of the kinds that the program asks. -/
theorem Asks.mem_sent {K : Req → Prop} {p : Resumption Req Resp ε α} (hp : p.Asks K) {s : σ}
    {req : Req} (h : req ∈ sent handle p s) : K req := by
  induction p generalizing s with
  | done r => cases h
  | call first next ih =>
      rcases List.mem_cons.mp h with rfl | h
      · exact hp.1
      · exact ih _ (hp.2 _) h

end Resumption

end AcceptXmr
