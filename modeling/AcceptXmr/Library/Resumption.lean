import AcceptXmr.Library.Replay
import Mathlib.Data.Nat.Notation

/-! # Resumable programs over a request interface

A `Resumption` is a program that reaches shared state only by sending one request at a time and
waiting for its answer. The module gives the three ways such programs run here:

* **`run`** — alone, every request answered by a handler on a state `σ`.
* **`merge`** — two programs at once, their requests interleaved by an explicit schedule.
* **`Pool`** — any number of programs started, served, aborted and finished in any order, while the
  state may also change behind their back.

`Asks`, `Follows`, `FollowsWith` and `MaySend` say which requests a program sends and in which
order, whatever the answers.

Reasoning is rely/guarantee: `Sat R G Q p s` says that from `s`, whatever steps of `R` the
surroundings take between requests, each request of `p` changes the state by a `G`-step and the
result satisfies `Q`, now and after any further `R`-step. -/

namespace AcceptXmr

variable {Req : Type} {Resp : Req → Type} {ε δ α β σ : Type}

/-- A **resumable program**: either ended with a result, or waiting for the answer to a request. -/
inductive Resumption (Req : Type) (Resp : Req → Type) (ε α : Type) : Type where
  /-- The program has returned. -/
  | done (result : Except ε α) : Resumption Req Resp ε α
  /-- The program sends `req` and continues with the answer. -/
  | call (req : Req) (next : Resp req → Resumption Req Resp ε α) : Resumption Req Resp ε α

namespace Resumption

/-- Sequencing: an error ends the whole program, as the `?` operator does. -/
def bind : Resumption Req Resp ε α → (α → Resumption Req Resp ε β) → Resumption Req Resp ε β
  | .done (.ok a), f => f a
  | .done (.error e), _ => .done (.error e)
  | .call req next, f => .call req fun x => (next x).bind f

instance : Monad (Resumption Req Resp ε) where
  pure a := .done (.ok a)
  bind := bind

/-- `pure` is a program that has returned. -/
@[simp] theorem pure_eq (a : α) : (pure a : Resumption Req Resp ε α) = .done (.ok a) := rfl

/-- The monadic notation is `bind`. -/
@[simp] theorem bind_eq (p : Resumption Req Resp ε α) (f : α → Resumption Req Resp ε β) :
    p >>= f = p.bind f := rfl

/-- Programs are put one behind the other in any grouping, by induction on the first one. -/
theorem bind_assoc (p : Resumption Req Resp ε α) (f : α → Resumption Req Resp ε β)
    (g : β → Resumption Req Resp ε γ) : (p.bind f).bind g = p.bind fun a => (f a).bind g := by
  induction p with
  | done r => cases r <;> rfl
  | call req next ih =>
      simp only [bind]
      exact congrArg _ (funext ih)

/-- Run a program and hand its result on as a value, so that the caller may inspect an error. -/
def attempt : Resumption Req Resp ε α → Resumption Req Resp δ (Except ε α)
  | .done r => .done (.ok r)
  | .call req next => .call req fun x => (next x).attempt

/-! ## Running alone -/

/-- Run a program against a handler that answers each request on the state `σ`. -/
def run (handle : (req : Req) → σ → Resp req × σ) :
    Resumption Req Resp ε α → σ → Except ε α × σ
  | .done r, s => (r, s)
  | .call req next, s => run handle (next (handle req s).1) (handle req s).2

variable {handle : (req : Req) → σ → Resp req × σ}

/-- A program that has returned leaves the state alone. -/
@[simp] theorem run_done (r : Except ε α) (s : σ) :
    run handle (.done r : Resumption Req Resp ε α) s = (r, s) := rfl

/-- A request is handled, and the program goes on with the answer. -/
@[simp] theorem run_call (req : Req) (next : Resp req → Resumption Req Resp ε α) (s : σ) :
    run handle (.call req next) s = run handle (next (handle req s).1) (handle req s).2 := rfl

/-- Running a sequence runs the first program and then, unless it failed, the second. -/
theorem run_bind (p : Resumption Req Resp ε α) (f : α → Resumption Req Resp ε β) (s : σ) :
    run handle (p.bind f) s =
      match run handle p s with
      | (.ok a, s') => run handle (f a) s'
      | (.error e, s') => (.error e, s') := by
  induction p generalizing s with
  | done r => cases r <;> rfl
  | call req next ih => exact ih _ _

/-- Running an attempted program never fails and gives the program's own result. -/
@[simp] theorem run_attempt (p : Resumption Req Resp ε α) (s : σ) :
    run handle (p.attempt (δ := δ)) s = (.ok (run handle p s).1, (run handle p s).2) := by
  induction p generalizing s with
  | done r => rfl
  | call req next ih => exact ih _ _

/-! ## Two programs at once -/

/-- Continue `q` alone after the other program has ended with `a`. -/
def afterLeft (a : Except ε α) :
    Resumption Req Resp ε β → Resumption Req Resp δ (Except ε α × Except ε β)
  | .done b => .done (.ok (a, b))
  | .call req next => .call req fun x => (next x).afterLeft a

/-- Run the first program to its end, then the second. -/
def inTurn : Resumption Req Resp ε α → Resumption Req Resp ε β →
    Resumption Req Resp δ (Except ε α × Except ε β)
  | .done a, q => q.afterLeft a
  | .call req next, q => .call req fun x => (next x).inTurn q

/-- **Interleave two programs.** Each entry of the schedule lets one of them send its next request
(`true` the left one); a turn given to a program that has ended is skipped, and once the schedule
is used up the rest of `p` and then the rest of `q` runs. An error of one does not stop the
other. -/
def merge : List Bool → Resumption Req Resp ε α → Resumption Req Resp ε β →
    Resumption Req Resp δ (Except ε α × Except ε β)
  | [], p, q => p.inTurn q
  | true :: turns, .call req next, q => .call req fun x => merge turns (next x) q
  | false :: turns, p, .call req next => .call req fun x => merge turns p (next x)
  | true :: turns, .done a, q => merge turns (.done a) q
  | false :: turns, p, .done b => merge turns p (.done b)

/-! ## Kinds of requests -/

/-- Every request that the program may send, whatever the answers, is of the kind `P`. -/
def Asks (P : Req → Prop) : Resumption Req Resp ε α → Prop
  | .done _ => True
  | .call req next => P req ∧ ∀ x, (next x).Asks P

/-- **A protocol**: `allowed` says which requests may be sent in a state of the protocol, and
`track` in which state an answer leaves it. -/
def Follows {τ : Type} (allowed : τ → Req → Prop) (track : (req : Req) → Resp req → τ) :
    τ → Resumption Req Resp ε α → Prop
  | _, .done _ => True
  | t, .call req next => allowed t req ∧ ∀ x, Follows allowed track (track req x) (next x)

/-- **A protocol with memory**: the state after an answer may depend on the state before it. -/
def FollowsWith {τ : Type} (allowed : τ → Req → Prop) (track : τ → (req : Req) → Resp req → τ) :
    τ → Resumption Req Resp ε α → Prop
  | _, .done _ => True
  | t, .call req next => allowed t req ∧ ∀ x, FollowsWith allowed track (track t req x) (next x)

/-- Some request of the kind `P` may be sent before one of the kind `stop`. -/
def MaySend (P stop : Req → Prop) : Resumption Req Resp ε α → Prop
  | .done _ => False
  | .call req next => P req ∨ (¬ stop req ∧ ∃ x, (next x).MaySend P stop)

section Kinds

variable {P : Req → Prop} {p : Resumption Req Resp ε α} {q : Resumption Req Resp ε β}

/-- A program asks for what its two parts ask for. -/
theorem Asks.bind {f : α → Resumption Req Resp ε β} (hp : p.Asks P) (hf : ∀ a, (f a).Asks P) :
    (p.bind f).Asks P := by
  induction p with
  | done r =>
      cases r with
      | ok a => exact hf a
      | error e => trivial
  | call req next ih => exact ⟨hp.1, fun x => ih x (hp.2 x)⟩

/-- The right program alone, once the left one has returned. -/
theorem Asks.afterLeft (a : Except ε α) (hq : q.Asks P) :
    (q.afterLeft a : Resumption Req Resp δ _).Asks P := by
  induction q with
  | done b => trivial
  | call req next ih => exact ⟨hq.1, fun x => ih x (hq.2 x)⟩

/-- Two programs one after the other. -/
theorem Asks.inTurn (hp : p.Asks P) (hq : q.Asks P) :
    (p.inTurn q : Resumption Req Resp δ _).Asks P := by
  induction p with
  | done a => exact hq.afterLeft a
  | call req next ih => exact ⟨hp.1, fun x => ih x (hp.2 x)⟩

/-- Two programs at once send the requests of both. -/
theorem Asks.merge (turns : List Bool) (hp : p.Asks P) (hq : q.Asks P) :
    (merge turns p q : Resumption Req Resp δ _).Asks P := by
  induction turns generalizing p q with
  | nil =>
      rw [Resumption.merge]
      exact hp.inTurn hq
  | cons turn turns ih =>
      cases turn with
      | true =>
          cases p with
          | done a =>
              rw [Resumption.merge]
              exact ih hp hq
          | call req next =>
              rw [Resumption.merge]
              exact ⟨hp.1, fun x => ih (hp.2 x) hq⟩
      | false =>
          cases q with
          | done b =>
              rw [Resumption.merge]
              exact ih hp hq
          | call req next =>
              rw [Resumption.merge]
              exact ⟨hq.1, fun x => ih hp (hq.2 x)⟩

section Memory

variable {τ : Type} {allowed : τ → Req → Prop} {track : τ → (req : Req) → Resp req → τ}

/-- Requests that are always allowed. -/
theorem Asks.followsWith (hP : ∀ t req, P req → allowed t req) (hp : p.Asks P) (t : τ) :
    p.FollowsWith allowed track t := by
  induction p generalizing t with
  | done r => trivial
  | call req next ih => exact ⟨hP t req hp.1, fun x => ih x (hp.2 x) _⟩

/-- Following the protocol one program after the other. -/
theorem FollowsWith.bind {f : α → Resumption Req Resp ε β} {t : τ}
    (hp : p.FollowsWith allowed track t) (hf : ∀ t' a, (f a).FollowsWith allowed track t') :
    (p.bind f).FollowsWith allowed track t := by
  induction p generalizing t with
  | done r =>
      cases r with
      | ok a => exact hf t a
      | error e => trivial
  | call req next ih => exact ⟨hp.1, fun x => ih x (hp.2 x)⟩

/-- Handing an error on as a result keeps the order of the requests. -/
theorem FollowsWith.attempt {t : τ} (hp : p.FollowsWith allowed track t) :
    (p.attempt : Resumption Req Resp δ _).FollowsWith allowed track t := by
  induction p generalizing t with
  | done r => trivial
  | call req next ih => exact ⟨hp.1, fun x => ih x (hp.2 x)⟩

end Memory

variable {τ : Type} {allowed : τ → Req → Prop} {track : (req : Req) → Resp req → τ}

/-- A protocol without memory. -/
theorem followsWith_iff {t : τ} :
    p.FollowsWith allowed (fun _ => track) t ↔ p.Follows allowed track t := by
  induction p generalizing t with
  | done r => exact Iff.rfl
  | call req next ih => exact and_congr_right fun _ => forall_congr' fun x => ih x

/-- A program whose requests are allowed at any time follows the rule. -/
theorem Asks.follows (hP : ∀ t req, P req → allowed t req) (hp : p.Asks P) (t : τ) :
    p.Follows allowed track t :=
  followsWith_iff.mp (hp.followsWith hP t)

/-- A program follows the rule if both of its parts do, the second one from wherever the first one ends.
-/
theorem Follows.bind {f : α → Resumption Req Resp ε β} {t : τ} (hp : p.Follows allowed track t)
    (hf : ∀ t' a, (f a).Follows allowed track t') : (p.bind f).Follows allowed track t :=
  followsWith_iff.mp ((followsWith_iff.mpr hp).bind fun t' a => followsWith_iff.mpr (hf t' a))

/-- Handing an error on as a result follows the rule as well. -/
theorem Follows.attempt {t : τ} (hp : p.Follows allowed track t) :
    (p.attempt : Resumption Req Resp δ _).Follows allowed track t :=
  followsWith_iff.mp (followsWith_iff.mpr hp).attempt

end Kinds

/-! ## Rely/guarantee specifications -/

/-- **Rely/guarantee specification** of a program at a state: under interference `R` between its
requests, every request is a `G`-step and the result satisfies `Q`. -/
def Sat (handle : (req : Req) → σ → Resp req × σ) (R G : σ → σ → Prop)
    (Q : Except ε α → σ → Prop) : Resumption Req Resp ε α → σ → Prop
  | .done r, s => ∀ s', R s s' → Q r s'
  | .call req next, s => ∀ s', R s s' →
      G s' (handle req s').2 ∧ Sat handle R G Q (next (handle req s').1) (handle req s').2

variable {R G M : σ → σ → Prop}

/-- A specification survives the interference it allows. -/
theorem Sat.rely {Q : Except ε α → σ → Prop} {p : Resumption Req Resp ε α} {s s' : σ}
    (htrans : ∀ a b c, R a b → R b c → R a c) (h : Sat handle R G Q p s) (hs : R s s') :
    Sat handle R G Q p s' := by
  cases p with
  | done r => exact fun t ht => h t (htrans _ _ _ hs ht)
  | call req next => exact fun t ht => h t (htrans _ _ _ hs ht)

/-- Weaken a specification: less interference, more allowed to the program, a weaker result. -/
theorem Sat.mono {R' G' : σ → σ → Prop} {Q Q' : Except ε α → σ → Prop}
    {p : Resumption Req Resp ε α} {s : σ} (hR : ∀ a b, R' a b → R a b)
    (hG : ∀ a b, G a b → G' a b) (hQ : ∀ r t, Q r t → Q' r t) (h : Sat handle R G Q p s) :
    Sat handle R' G' Q' p s := by
  induction p generalizing s with
  | done r => exact fun t ht => hQ _ _ (h t (hR _ _ ht))
  | call req next ih =>
      intro t ht
      obtain ⟨hstep, hrest⟩ := h t (hR _ _ ht)
      exact ⟨hG _ _ hstep, ih _ hrest⟩

/-- Two specifications of one program hold together. -/
theorem Sat.and {Q Q' : Except ε α → σ → Prop} {p : Resumption Req Resp ε α} {s : σ}
    (h : Sat handle R G Q p s) (h' : Sat handle R G Q' p s) :
    Sat handle R G (fun r t => Q r t ∧ Q' r t) p s := by
  induction p generalizing s with
  | done r => exact fun t ht => ⟨h t ht, h' t ht⟩
  | call req next ih =>
      intro t ht
      obtain ⟨hstep, hrest⟩ := h t ht
      exact ⟨hstep, ih _ hrest (h' t ht).2⟩

/-- **Sequencing rule.** The first program has to end in a state from which the second one meets
the specification. -/
theorem Sat.bind {Q : Except ε β → σ → Prop} {p : Resumption Req Resp ε α}
    {f : α → Resumption Req Resp ε β} {s : σ} (hrefl : ∀ a, R a a)
    (h : Sat handle R G (fun r t => match r with
      | .ok a => Sat handle R G Q (f a) t
      | .error e => Q (.error e) t) p s) :
    Sat handle R G Q (p.bind f) s := by
  induction p generalizing s with
  | done r =>
      cases r with
      | ok a => exact h s (hrefl s)
      | error e => exact h
  | call req next ih =>
      intro t ht
      obtain ⟨hstep, hrest⟩ := h t ht
      exact ⟨hstep, ih _ hrest⟩

/-- A preorder that holds all steps of a program and of its surroundings relates the state it
starts in to the states in which its result is used. -/
theorem Sat.track {Q : Except ε α → σ → Prop} {p : Resumption Req Resp ε α} {s₀ s : σ}
    (hMtrans : ∀ a b c, M a b → M b c → M a c) (hR : ∀ a b, R a b → M a b)
    (hG : ∀ a b, G a b → M a b) (hs : M s₀ s) (h : Sat handle R G Q p s) :
    Sat handle R G (fun r t => Q r t ∧ M s₀ t) p s := by
  induction p generalizing s with
  | done r => exact fun t ht => ⟨h t ht, hMtrans _ _ _ hs (hR _ _ ht)⟩
  | call req next ih =>
      intro t ht
      obtain ⟨hstep, hrest⟩ := h t ht
      exact ⟨hstep, ih _ (hMtrans _ _ _ (hMtrans _ _ _ hs (hR _ _ ht)) (hG _ _ hstep)) hrest⟩

/-- An attempted program meets the specification of the program it attempts. -/
theorem Sat.attempt {Q : Except ε α → σ → Prop} {p : Resumption Req Resp ε α} {s : σ}
    (h : Sat handle R G Q p s) :
    Sat handle R G (fun r t => ∃ a, r = .ok a ∧ Q a t) (p.attempt (δ := δ)) s := by
  induction p generalizing s with
  | done r => exact fun t ht => ⟨r, rfl, h t ht⟩
  | call req next ih =>
      intro t ht
      obtain ⟨hstep, hrest⟩ := h t ht
      exact ⟨hstep, ih _ hrest⟩

/-- A specification holds of the program run alone. -/
theorem Sat.run {Q : Except ε α → σ → Prop} {p : Resumption Req Resp ε α} {s : σ}
    (hrefl : ∀ a, R a a) (h : Sat handle R G Q p s) :
    Q (Resumption.run handle p s).1 (Resumption.run handle p s).2 := by
  induction p generalizing s with
  | done r => exact h s (hrefl s)
  | call req next ih => exact ih _ (h s (hrefl s)).2

/-- A program run alone, all of whose steps are `G`-steps, moves along the closure of `G`. -/
theorem Sat.run_guarantee {Q : Except ε α → σ → Prop} {p : Resumption Req Resp ε α} {s : σ}
    (hrefl : ∀ a, R a a) (hMrefl : ∀ a, M a a) (hMtrans : ∀ a b c, M a b → M b c → M a c)
    (hG : ∀ a b, G a b → M a b) (h : Sat handle R G Q p s) :
    M s (Resumption.run handle p s).2 := by
  induction p generalizing s with
  | done r => exact hMrefl s
  | call req next ih =>
      obtain ⟨hstep, hrest⟩ := h s (hrefl s)
      exact hMtrans _ _ _ (hG _ _ hstep) (ih _ hrest)

section Merge

variable {Qp : Except ε α → σ → Prop} {Qq : Except ε β → σ → Prop}

/-- The joint result of two programs: both ended and each result is as its own specification
says. -/
def Both (Qp : Except ε α → σ → Prop) (Qq : Except ε β → σ → Prop)
    (r : Except δ (Except ε α × Except ε β)) (s : σ) : Prop :=
  ∃ a b, r = .ok (a, b) ∧ Qp a s ∧ Qq b s

/-- The right program alone, with the outcome of the left one kept meanwhile. -/
theorem Sat.afterLeft {a : Except ε α} {q : Resumption Req Resp ε β} {s : σ}
    (htrans : ∀ a b c, M a b → M b c → M a c) (hRM : ∀ a b, R a b → M a b)
    (ha : ∀ t, M s t → Qp a t) (hq : Sat handle M M Qq q s) :
    Sat handle R M (Both (δ := δ) Qp Qq) (q.afterLeft a) s := by
  induction q generalizing s with
  | done b => exact fun t ht => ⟨a, b, rfl, ha t (hRM _ _ ht), hq t (hRM _ _ ht)⟩
  | call req next ih =>
      intro t ht
      obtain ⟨hstep, hrest⟩ := hq t (hRM _ _ ht)
      exact ⟨hstep, ih _ (fun u hu => ha u (htrans _ _ _ (htrans _ _ _ (hRM _ _ ht) hstep) hu))
        hrest⟩

/-- Two programs one after the other satisfy what each of them does on its own. -/
theorem Sat.inTurn {p : Resumption Req Resp ε α} {q : Resumption Req Resp ε β} {s : σ}
    (htrans : ∀ a b c, M a b → M b c → M a c) (hRM : ∀ a b, R a b → M a b)
    (hp : Sat handle M M Qp p s) (hq : Sat handle M M Qq q s) :
    Sat handle R M (Both (δ := δ) Qp Qq) (p.inTurn q) s := by
  induction p generalizing s with
  | done a => exact hq.afterLeft htrans hRM hp
  | call req next ih =>
      intro t ht
      obtain ⟨hstep, hrest⟩ := hp t (hRM _ _ ht)
      exact ⟨hstep, ih _ hrest (hq.rely htrans (htrans _ _ _ (hRM _ _ ht) hstep))⟩

/-- **Interleaving rule.** Two programs that tolerate each other's steps, both of which lie in the
preorder `M`, meet their specifications together under every schedule. -/
theorem Sat.merge (htrans : ∀ a b c, M a b → M b c → M a c) (hRM : ∀ a b, R a b → M a b)
    (turns : List Bool) {p : Resumption Req Resp ε α} {q : Resumption Req Resp ε β} {s : σ}
    (hp : Sat handle M M Qp p s) (hq : Sat handle M M Qq q s) :
    Sat handle R M (Both (δ := δ) Qp Qq) (merge turns p q) s := by
  induction turns generalizing p q s with
  | nil =>
      rw [Resumption.merge]
      exact hp.inTurn htrans hRM hq
  | cons turn turns ih =>
      cases turn with
      | true =>
          cases p with
          | done a =>
              rw [Resumption.merge]
              exact ih hp hq
          | call req next =>
              rw [Resumption.merge]
              intro t ht
              -- A step of the first program is interference for the second one.
              obtain ⟨hstep, hrest⟩ := hp t (hRM _ _ ht)
              exact ⟨hstep, ih hrest (hq.rely htrans (htrans _ _ _ (hRM _ _ ht) hstep))⟩
      | false =>
          cases q with
          | done b =>
              rw [Resumption.merge]
              exact ih hp hq
          | call req next =>
              rw [Resumption.merge]
              intro t ht
              obtain ⟨hstep, hrest⟩ := hq t (hRM _ _ ht)
              exact ⟨hstep, ih (hp.rely htrans (htrans _ _ _ (hRM _ _ ht) hstep)) hrest⟩

end Merge

end Resumption

/-! ## Any number of programs -/

/-- A **pool** of programs in flight over one shared state, with the results returned so far. -/
structure Pool (Req : Type) (Resp : Req → Type) (ε α σ : Type) where
  /-- The shared state. -/
  state : σ
  /-- The programs that have been started and have not ended yet. -/
  tasks : List (Resumption Req Resp ε α)
  /-- The results returned so far, latest first. -/
  returned : List (Except ε α)

namespace Pool

/-- One step of a pool: a program of the allowed kind starts, one program's request is served, one
program returns, one is aborted, or the surroundings change the state by an `R`-step. -/
inductive Step (handle : (req : Req) → σ → Resp req × σ) (R : σ → σ → Prop)
    (start : Resumption Req Resp ε α → Prop) :
    Pool Req Resp ε α σ → Pool Req Resp ε α σ → Prop where
  | spawn {s ts rs} (p : Resumption Req Resp ε α) (hp : start p) :
      Step handle R start ⟨s, ts, rs⟩ ⟨s, p :: ts, rs⟩
  | serve {s pre post rs} (req : Req) (next : Resp req → Resumption Req Resp ε α) :
      Step handle R start ⟨s, pre ++ .call req next :: post, rs⟩
        ⟨(handle req s).2, pre ++ next (handle req s).1 :: post, rs⟩
  | finish {s pre post rs} (r : Except ε α) :
      Step handle R start ⟨s, pre ++ .done r :: post, rs⟩ ⟨s, pre ++ post, r :: rs⟩
  | abort {s pre post rs} (p : Resumption Req Resp ε α) :
      Step handle R start ⟨s, pre ++ p :: post, rs⟩ ⟨s, pre ++ post, rs⟩
  | interfere {s s' ts rs} (h : R s s') : Step handle R start ⟨s, ts, rs⟩ ⟨s', ts, rs⟩

variable {handle : (req : Req) → σ → Resp req × σ} {R : σ → σ → Prop}
  {start : Resumption Req Resp ε α → Prop} {Q : Except ε α → σ → Prop}

/-- Allowing more interference allows more steps. -/
theorem Step.mono {R' : σ → σ → Prop} (hR : ∀ s t, R s t → R' s t) {c c' : Pool Req Resp ε α σ}
    (h : Step handle R start c c') : Step handle R' start c c' := by
  cases h with
  | spawn p hp => exact .spawn p hp
  | serve req next => exact .serve req next
  | finish r => exact .finish r
  | abort p => exact .abort p
  | interfere h => exact .interfere (hR _ _ h)

/-- The program at a place goes on: its request is served, or it returns. -/
def goOn (handle : (req : Req) → σ → Resp req × σ) (c : Pool Req Resp ε α σ) (place : ℕ) :
    Option (Pool Req Resp ε α σ) :=
  match c.tasks[place]? with
  | none => none
  | some (.call req next) =>
      some ⟨(handle req c.state).2, c.tasks.set place (next (handle req c.state).1), c.returned⟩
  | some (.done r) => some ⟨c.state, c.tasks.eraseIdx place, r :: c.returned⟩

/-- A program that goes on is a step of the pool. -/
theorem goOn_step {c c' : Pool Req Resp ε α σ} {place : ℕ} (h : c.goOn handle place = some c') :
    Step handle R start c c' := by
  obtain ⟨s, ts, rs⟩ := c
  unfold goOn at h
  cases hp : ts[place]? with
  | none => simp only [hp, reduceCtorEq] at h
  | some p =>
      obtain ⟨hlt, hget⟩ := List.getElem?_eq_some_iff.mp hp
      have hsplit : ts = ts.take place ++ p :: ts.drop (place + 1) := by
        rw [← hget, List.getElem_cons_drop, List.take_append_drop]
      cases p with
      | call req next =>
          simp only [hp, Option.some.injEq] at h
          subst h
          rw [List.set_eq_take_append_cons_drop, if_pos hlt]
          conv => lhs; rw [hsplit]
          exact .serve req next
      | done r =>
          simp only [hp, Option.some.injEq] at h
          subst h
          rw [List.eraseIdx_eq_take_drop_succ]
          conv => lhs; rw [hsplit]
          exact .finish r

/-- Programs that take turns are a run of the pool. -/
theorem goOn_run {c c' : Pool Req Resp ε α σ} {places : List ℕ}
    (h : replay (goOn handle) (fun _ _ => true) places c = some c') :
    Relation.ReflTransGen (Step handle R start) c c' := by
  have hrun : Relation.ReflTransGen (TakesTurn (goOn handle) fun _ _ => True) c c' :=
    replay_run (fun _ _ _ => trivial) h
  refine Relation.ReflTransGen.mono (fun c c' hturn => ?_) _ _ hrun
  obtain ⟨place, -, hstep⟩ := hturn
  exact goOn_step hstep

/-- What a pool keeps: every task still meets its specification and every result returned
satisfies the postcondition, now and after any further interference. -/
structure Ok (handle : (req : Req) → σ → Resp req × σ) (R : σ → σ → Prop)
    (Q : Except ε α → σ → Prop) (c : Pool Req Resp ε α σ) : Prop where
  tasks : ∀ p ∈ c.tasks, p.Sat handle R R Q c.state
  returned : ∀ r ∈ c.returned, ∀ s, R c.state s → Q r s

/-- One step of a pool keeps `Ok` and moves the state by an `R`-step. -/
theorem Ok.step (hrefl : ∀ a, R a a) (htrans : ∀ a b c, R a b → R b c → R a c)
    (hstart : ∀ p, start p → ∀ s, p.Sat handle R R Q s) {c c' : Pool Req Resp ε α σ}
    (h : Ok handle R Q c) (hs : Step handle R start c c') :
    Ok handle R Q c' ∧ R c.state c'.state := by
  obtain ⟨htasks, hret⟩ := h
  cases hs with
  | spawn p hp =>
      refine ⟨⟨fun q hq => ?_, hret⟩, hrefl _⟩
      rcases List.mem_cons.mp hq with rfl | hq
      · exact hstart q hp _
      · exact htasks q hq
  | @serve s pre post rs req next =>
      -- One request of one task; for all others it is interference.
      have hcall := htasks _ (List.mem_append_right _ (List.mem_cons_self ..)) s (hrefl s)
      refine ⟨⟨fun q hq => ?_, fun r hr t ht => hret r hr t (htrans _ _ _ hcall.1 ht)⟩, hcall.1⟩
      rcases List.mem_append.mp hq with hq | hq
      · exact (htasks q (List.mem_append_left _ hq)).rely htrans hcall.1
      · rcases List.mem_cons.mp hq with rfl | hq
        · exact hcall.2
        · exact (htasks q (List.mem_append_right _ (List.mem_cons_of_mem _ hq))).rely htrans hcall.1
  | @finish s pre post rs r =>
      -- What a task returns holds from then on.
      have hdone := htasks _ (List.mem_append_right _ (List.mem_cons_self ..))
      refine ⟨⟨fun q hq => htasks q ?_, fun r' hr' => ?_⟩, hrefl _⟩
      · rcases List.mem_append.mp hq with hq | hq
        · exact List.mem_append_left _ hq
        · exact List.mem_append_right _ (List.mem_cons_of_mem _ hq)
      · rcases List.mem_cons.mp hr' with rfl | hr'
        · exact hdone
        · exact hret r' hr'
  | @abort s pre post rs p =>
      refine ⟨⟨fun q hq => htasks q ?_, hret⟩, hrefl _⟩
      rcases List.mem_append.mp hq with hq | hq
      · exact List.mem_append_left _ hq
      · exact List.mem_append_right _ (List.mem_cons_of_mem _ hq)
  | interfere hR =>
      exact ⟨⟨fun q hq => (htasks q hq).rely htrans hR,
        fun r hr t ht => hret r hr t (htrans _ _ _ hR ht)⟩, hR⟩

/-- **Pool rule.** From a pool that is `Ok`, every reachable pool is `Ok` and its state follows by
an `R`-step. -/
theorem Ok.reachable (hrefl : ∀ a, R a a) (htrans : ∀ a b c, R a b → R b c → R a c)
    (hstart : ∀ p, start p → ∀ s, p.Sat handle R R Q s) {c c' : Pool Req Resp ε α σ}
    (h : Ok handle R Q c) (hs : Relation.ReflTransGen (Step handle R start) c c') :
    Ok handle R Q c' ∧ R c.state c'.state := by
  induction hs with
  | refl => exact ⟨h, hrefl _⟩
  | tail _ hstep ih =>
      obtain ⟨hok, hR⟩ := ih.1.step hrefl htrans hstart hstep
      exact ⟨hok, htrans _ _ _ ih.2 hR⟩

end Pool

end AcceptXmr
