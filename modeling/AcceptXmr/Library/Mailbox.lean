import AcceptXmr.Library.Resumption
import Mathlib.Data.List.Perm.Basic
import Mathlib.Logic.Hydra

/-! # Requests over a bounded channel

One task owns a state and handles the messages of a bounded channel, oldest first. A caller that
wants a request handled puts it into the channel, which may have to wait for room, and then waits
for the answer on a channel of its own, which carries one value. Nothing is atomic here but the
handling of one message: callers come and go at any point, and the task itself may panic, which
drops the channel and all that is in it.

* **`Step.refines`**, **`Runs.refines`** — the calls behave as if each request were carried out in
  one atomic step, which is what a `Pool` says.
* **`Runs.inOrder`** — messages are handled in the order in which they were sent, each at most once.
* **`progress`**, **`wellFounded_step`** — some caller or the task can always go on, and without new
  callers this comes to an end. -/

namespace AcceptXmr

variable {Req : Type} {Resp : Req → Type} {ε α σ : Type}

/-- The programs that a program may go on as, once its request has been answered. -/
inductive Resumption.Child : Resumption Req Resp ε α → Resumption Req Resp ε α → Prop where
  | next (req : Req) (next : Resp req → Resumption Req Resp ε α) (answer : Resp req) :
      Child (next answer) (.call req next)

/-- **A program ends after finitely many answers**, whatever they are. -/
theorem Resumption.wellFounded_child :
    WellFounded (Child : Resumption Req Resp ε α → Resumption Req Resp ε α → Prop) := by
  refine ⟨fun p => ?_⟩
  induction p with
  | done r => exact ⟨_, fun q hq => by cases hq⟩
  | call req next ih =>
      refine ⟨_, fun q hq => ?_⟩
      cases hq with
      | next _ _ answer => exact ih answer

/-- Why a request ends without an answer of the task. -/
inductive Refusal where
  /-- The channel is closed. -/
  | send
  /-- The message was dropped before it was answered. -/
  | receive
  deriving DecidableEq

/-- A **task** behind a channel. -/
structure Task (Req : Type) (Resp : Req → Type) (σ : Type) where
  /-- The number of messages that the channel holds. -/
  capacity : ℕ
  /-- The requests that a caller carries out itself. -/
  inPlace : Req → Bool
  /-- What the task does with a message. A handling without an answer is a panic. -/
  handle : (req : Req) → σ → Option (Resp req) × σ
  /-- What a caller makes of a refusal. -/
  refuse : (req : Req) → Refusal → Resp req

/-- The channel of one answer. -/
inductive Reply (β : Type) where
  /-- The message has been sent and both ends are open. -/
  | pending
  /-- The message has been sent, but its caller is gone. -/
  | abandoned
  | sent (answer : β)
  /-- The message was dropped. -/
  | closed

/-- A **caller**: at work between two requests, or waiting for an answer. -/
inductive Caller (Req : Type) (Resp : Req → Type) (ε α : Type) where
  | active (p : Resumption Req Resp ε α)
  | waiting (req : Req) (next : Resp req → Resumption Req Resp ε α) (reply : Reply (Resp req))

namespace Caller

/-- The message of a caller that is still in the channel. -/
def message : ℕ × Caller Req Resp ε α → Option (ℕ × Req)
  | (i, .waiting req _ .pending) => some (i, req)
  | (i, .waiting req _ .abandoned) => some (i, req)
  | _ => none

/-- What is left of a caller when the channel is dropped with its message in it. -/
def hangUp : Caller Req Resp ε α → Option (Caller Req Resp ε α)
  | .waiting req next .pending => some (.waiting req next .closed)
  | .waiting _ _ .abandoned => none
  | caller => some caller

/-- The program that a caller has still to run, where a request counts as carried out once it has
been answered. -/
def view : Caller Req Resp ε α → Resumption Req Resp ε α
  | .active p => p
  | .waiting _ next (.sent answer) => next answer
  | .waiting req next _ => .call req next

/-- Only messages are waited for, and none is dropped while the task runs. -/
def Proper (T : Task Req Resp σ) (running : Bool) : Caller Req Resp ε α → Prop
  | .active _ => True
  | .waiting _ _ (.sent _) => True
  | .waiting req _ .closed => T.inPlace req = false ∧ running = false
  | .waiting req _ _ => T.inPlace req = false

end Caller

/-- A task, its channel and its callers. -/
structure Mailbox (Req : Type) (Resp : Req → Type) (ε α σ : Type) where
  state : σ
  /-- The task has not panicked. -/
  running : Bool
  /-- The messages in the channel, oldest first, each with the number of its caller. -/
  queue : List (ℕ × Req)
  callers : List (ℕ × Caller Req Resp ε α)
  /-- The number of the next caller. -/
  fresh : ℕ
  /-- The results returned so far, latest first. -/
  returned : List (Except ε α)

/-- What a step does to the messages. -/
inductive MailEvent (Req : Type) where
  | sent (i : ℕ) (req : Req)
  | handled (i : ℕ) (req : Req)
  | performed (req : Req)
  | other

namespace MailEvent

/-- The message that an event sends. -/
def send? : MailEvent Req → Option (ℕ × Req)
  | .sent i req => some (i, req)
  | _ => none

/-- The message that an event handles. -/
def handle? : MailEvent Req → Option (ℕ × Req)
  | .handled i req => some (i, req)
  | _ => none

/-- The request that an event carries out. -/
def request? : MailEvent Req → Option Req
  | .handled _ req => some req
  | .performed req => some req
  | _ => none

end MailEvent

/-- **The task seen from its callers**: a request is carried out in one step, or refused once the
task has panicked. The first component says what it is refused for. -/
def Task.atomic (T : Task Req Resp σ) :
    (req : Req) → Option Refusal × σ → Resp req × (Option Refusal × σ)
  | req, (down, s) =>
      if T.inPlace req = true ∨ down = none then
        match T.handle req s with
        | (some answer, s') => (answer, (down, s'))
        | (none, s') => (T.refuse req .receive, (some .receive, s'))
      else (T.refuse req (down.getD .receive), (down, s))

/-- What happens to a task behind the back of its callers: it panics over a message, or changes how
it refuses. -/
inductive Task.Outage (T : Task Req Resp σ) :
    Option Refusal × σ → Option Refusal × σ → Prop where
  | crash {s s'} (req : Req) (h : T.handle req s = (none, s')) :
      T.Outage (none, s) (some .receive, s')
  | refusal (why why' : Refusal) (s : σ) : T.Outage (some why, s) (some why', s)

theorem Task.atomic_answer {req : Req} {down : Option Refusal} {s s' : σ} {answer : Resp req}
    (T : Task Req Resp σ) (hup : T.inPlace req = true ∨ down = none)
    (h : T.handle req s = (some answer, s')) :
    T.atomic req (down, s) = (answer, (down, s')) := by
  rw [atomic, if_pos hup, h]

theorem Task.atomic_refuse {req : Req} {why : Refusal} {s : σ} (T : Task Req Resp σ)
    (hin : T.inPlace req = false) :
    T.atomic req (some why, s) = (T.refuse req why, (some why, s)) := by
  rw [atomic, if_neg (by simp [hin])]
  rfl

namespace Mailbox

/-- A mailbox without callers. -/
def start (s : σ) : Mailbox Req Resp ε α σ := ⟨s, true, [], [], 0, []⟩

/-- One step of the task or of a caller that goes on. -/
inductive Advance (T : Task Req Resp σ) :
    MailEvent Req → Mailbox Req Resp ε α σ → Mailbox Req Resp ε α σ → Prop where
  | perform {c i post req answer s'} {next : Resp req → Resumption Req Resp ε α}
      (pre : List (ℕ × Caller Req Resp ε α))
      (hc : c.callers = pre ++ (i, .active (.call req next)) :: post)
      (hin : T.inPlace req = true) (h : T.handle req c.state = (some answer, s')) :
      Advance T (.performed req) c
        { c with state := s', callers := pre ++ (i, .active (next answer)) :: post }
  -- `Sender::send`, which waits while the channel is full.
  | send {c i post req} {next : Resp req → Resumption Req Resp ε α}
      (pre : List (ℕ × Caller Req Resp ε α))
      (hc : c.callers = pre ++ (i, .active (.call req next)) :: post)
      (hin : T.inPlace req = false) (hrun : c.running = true)
      (hroom : c.queue.length < T.capacity) :
      Advance T (.sent i req) c
        { c with
          queue := c.queue ++ [(i, req)]
          callers := pre ++ (i, .waiting req next .pending) :: post }
  | sendFails {c i post req} {next : Resp req → Resumption Req Resp ε α}
      (pre : List (ℕ × Caller Req Resp ε α))
      (hc : c.callers = pre ++ (i, .active (.call req next)) :: post)
      (hin : T.inPlace req = false) (hrun : c.running = false) :
      Advance T .other c
        { c with callers := pre ++ (i, .active (next (T.refuse req .send))) :: post }
  | answer {c i post req rest answer s'} {next : Resp req → Resumption Req Resp ε α}
      (pre : List (ℕ × Caller Req Resp ε α)) (hq : c.queue = (i, req) :: rest)
      (hc : c.callers = pre ++ (i, .waiting req next .pending) :: post)
      (h : T.handle req c.state = (some answer, s')) :
      Advance T (.handled i req) c
        { c with
          state := s'
          queue := rest
          callers := pre ++ (i, .waiting req next (.sent answer)) :: post }
  -- The answer cannot be sent, which the task only logs.
  | discard {c i post req rest answer s'} {next : Resp req → Resumption Req Resp ε α}
      (pre : List (ℕ × Caller Req Resp ε α)) (hq : c.queue = (i, req) :: rest)
      (hc : c.callers = pre ++ (i, .waiting req next .abandoned) :: post)
      (h : T.handle req c.state = (some answer, s')) :
      Advance T (.handled i req) c
        { c with state := s', queue := rest, callers := pre ++ post }
  | crash {c i req rest s'} (hq : c.queue = (i, req) :: rest)
      (h : T.handle req c.state = (none, s')) :
      Advance T (.handled i req) c
        { c with
          state := s'
          running := false
          queue := []
          callers := c.callers.filterMap fun e => e.2.hangUp.map fun caller => (e.1, caller) }
  | receive {c i post req answer} {next : Resp req → Resumption Req Resp ε α}
      (pre : List (ℕ × Caller Req Resp ε α))
      (hc : c.callers = pre ++ (i, .waiting req next (.sent answer)) :: post) :
      Advance T .other c { c with callers := pre ++ (i, .active (next answer)) :: post }
  | receiveFails {c i post req} {next : Resp req → Resumption Req Resp ε α}
      (pre : List (ℕ × Caller Req Resp ε α))
      (hc : c.callers = pre ++ (i, .waiting req next .closed) :: post) :
      Advance T .other c
        { c with callers := pre ++ (i, .active (next (T.refuse req .receive))) :: post }
  | finish {c i post r} (pre : List (ℕ × Caller Req Resp ε α))
      (hc : c.callers = pre ++ (i, .active (.done r)) :: post) :
      Advance T .other c { c with callers := pre ++ post, returned := r :: c.returned }

/-- One step: a caller of the allowed kind starts, the task or a caller goes on, or a caller is
dropped. The message of a dropped caller stays in the channel. -/
inductive Step (T : Task Req Resp σ) (mayStart : Resumption Req Resp ε α → Prop) :
    MailEvent Req → Mailbox Req Resp ε α σ → Mailbox Req Resp ε α σ → Prop where
  | spawn {c} (p : Resumption Req Resp ε α) (hp : mayStart p) :
      Step T mayStart .other c
        { c with callers := (c.fresh, .active p) :: c.callers, fresh := c.fresh + 1 }
  | advance {c c' event} (h : Advance T event c c') : Step T mayStart event c c'
  | abandon {c i post req} {next : Resp req → Resumption Req Resp ε α}
      (pre : List (ℕ × Caller Req Resp ε α))
      (hc : c.callers = pre ++ (i, .waiting req next .pending) :: post) :
      Step T mayStart .other c
        { c with callers := pre ++ (i, .waiting req next .abandoned) :: post }
  | drop {c i post caller} (pre : List (ℕ × Caller Req Resp ε α))
      (hc : c.callers = pre ++ (i, caller) :: post)
      (hm : Caller.message (i, caller) = none) :
      Step T mayStart .other c { c with callers := pre ++ post }

/-- A run and its events, oldest first. -/
inductive Runs (T : Task Req Resp σ) (mayStart : Resumption Req Resp ε α → Prop)
    (c₀ : Mailbox Req Resp ε α σ) : List (MailEvent Req) → Mailbox Req Resp ε α σ → Prop where
  | refl : Runs T mayStart c₀ [] c₀
  | tail {events event c c'} (h : Runs T mayStart c₀ events c) (hstep : Step T mayStart event c c') :
      Runs T mayStart c₀ (events ++ [event]) c'

variable {T : Task Req Resp σ} {mayStart : Resumption Req Resp ε α → Prop}
  {c c' c₀ : Mailbox Req Resp ε α σ} {event : MailEvent Req} {events : List (MailEvent Req)}

/-! ## The messages and their callers -/

/-- What a mailbox keeps: the messages in the channel are those of the callers that wait for the
task, one for each, and no message outlives the task. -/
structure Sound (T : Task Req Resp σ) (c : Mailbox Req Resp ε α σ) : Prop where
  nodup : (c.callers.map Prod.fst).Nodup
  fresh : ∀ e ∈ c.callers, e.1 < c.fresh
  queued : c.queue.Perm (c.callers.filterMap Caller.message)
  stopped : c.running = false → c.queue = []
  room : c.queue.length ≤ T.capacity
  proper : ∀ e ∈ c.callers, e.2.Proper T c.running

theorem Sound.start (s : σ) : Sound T (start s : Mailbox Req Resp ε α σ) where
  nodup := List.nodup_nil
  fresh _ he := absurd he (by simp [Mailbox.start])
  queued := .nil
  stopped _ := rfl
  room := Nat.zero_le _
  proper _ he := absurd he (by simp [Mailbox.start])

/-- Callers keep their numbers when some of them go on or leave. -/
theorem Sound.numbers {callers : List (ℕ × Caller Req Resp ε α)} (h : Sound T c)
    (hsub : (callers.map Prod.fst).Sublist (c.callers.map Prod.fst)) :
    (callers.map Prod.fst).Nodup ∧ ∀ e ∈ callers, e.1 < c.fresh := by
  refine ⟨hsub.nodup h.nodup, fun e he => ?_⟩
  obtain ⟨e', he', heq⟩ := List.mem_map.mp (hsub.subset (List.mem_map_of_mem he))
  exact heq ▸ h.fresh e' he'

/-- One caller that goes on keeps its number. -/
theorem Sound.replace {pre post : List (ℕ × Caller Req Resp ε α)} {i : ℕ}
    {caller caller' : Caller Req Resp ε α} (h : Sound T c)
    (hc : c.callers = pre ++ (i, caller) :: post) :
    ((pre ++ (i, caller') :: post).map Prod.fst).Nodup ∧
      ∀ e ∈ pre ++ (i, caller') :: post, e.1 < c.fresh :=
  h.numbers (by rw [hc]; simp)

/-- One caller that leaves takes its number along. -/
theorem Sound.remove {pre post : List (ℕ × Caller Req Resp ε α)} {i : ℕ}
    {caller : Caller Req Resp ε α} (h : Sound T c)
    (hc : c.callers = pre ++ (i, caller) :: post) :
    ((pre ++ post).map Prod.fst).Nodup ∧ ∀ e ∈ pre ++ post, e.1 < c.fresh :=
  h.numbers (by rw [hc]; simp)

/-- The messages around one caller. -/
theorem filterMap_message {pre post : List (ℕ × Caller Req Resp ε α)} {i : ℕ}
    {caller : Caller Req Resp ε α} (hm : Caller.message (i, caller) = none) :
    (pre ++ (i, caller) :: post).filterMap Caller.message =
      pre.filterMap Caller.message ++ post.filterMap Caller.message := by
  rw [List.filterMap_append, List.filterMap_cons_none hm]

/-- The messages around one caller that waits for the task. -/
theorem filterMap_message_some {pre post : List (ℕ × Caller Req Resp ε α)} {i : ℕ}
    {caller : Caller Req Resp ε α} {m : ℕ × Req} (hm : Caller.message (i, caller) = some m) :
    (pre ++ (i, caller) :: post).filterMap Caller.message =
      pre.filterMap Caller.message ++ m :: post.filterMap Caller.message := by
  rw [List.filterMap_append, List.filterMap_cons_some hm]

/-- The oldest message leaves the channel together with its caller's wait. -/
theorem Sound.taken {pre post : List (ℕ × Caller Req Resp ε α)} {i : ℕ} {req : Req}
    {rest : List (ℕ × Req)} {caller : Caller Req Resp ε α} (h : Sound T c)
    (hq : c.queue = (i, req) :: rest) (hc : c.callers = pre ++ (i, caller) :: post)
    (hm : Caller.message (i, caller) = some (i, req)) :
    rest.Perm (pre.filterMap Caller.message ++ post.filterMap Caller.message) := by
  have hperm := h.queued
  rw [hq, hc, filterMap_message_some hm] at hperm
  exact List.perm_cons _ |>.mp (hperm.trans List.perm_middle)

/-- A channel with a message in it belongs to a task that runs. -/
theorem Sound.running_of_cons {m : ℕ × Req} {rest : List (ℕ × Req)} (h : Sound T c)
    (hq : c.queue = m :: rest) : c.running = true := by
  by_contra hrun
  have hnil := h.stopped (by simpa using hrun)
  rw [hq] at hnil
  cases hnil

/-- A channel that has been dropped leaves nobody waiting for the task. -/
theorem filterMap_message_hangUp (callers : List (ℕ × Caller Req Resp ε α)) :
    (callers.filterMap fun e => e.2.hangUp.map fun caller => (e.1, caller)).filterMap
      Caller.message = [] := by
  rw [List.filterMap_filterMap, List.filterMap_eq_nil_iff]
  rintro ⟨i, caller⟩ -
  cases caller with
  | active p => rfl
  | waiting req next reply => cases reply <;> rfl

/-- What one caller awaits is in order after it has gone on. -/
theorem Sound.proper_replace {pre post : List (ℕ × Caller Req Resp ε α)} {i : ℕ}
    {caller caller' : Caller Req Resp ε α} (h : Sound T c)
    (hc : c.callers = pre ++ (i, caller) :: post) (hp : caller'.Proper T c.running) :
    ∀ e ∈ pre ++ (i, caller') :: post, e.2.Proper T c.running := by
  intro e he
  have hold := h.proper
  rw [hc] at hold
  rcases List.mem_append.mp he with he | he
  · exact hold e (List.mem_append_left _ he)
  rcases List.mem_cons.mp he with rfl | he
  · exact hp
  · exact hold e (List.mem_append_right _ (List.mem_cons_of_mem _ he))

/-- What the others await is in order after one caller has left. -/
theorem Sound.proper_remove {pre post : List (ℕ × Caller Req Resp ε α)} {i : ℕ}
    {caller : Caller Req Resp ε α} (h : Sound T c)
    (hc : c.callers = pre ++ (i, caller) :: post) :
    ∀ e ∈ pre ++ post, e.2.Proper T c.running := by
  intro e he
  refine h.proper e ?_
  rw [hc]
  exact (List.Sublist.refl pre |>.append (List.sublist_cons_self _ _)).subset he

/-- One caller is in order. -/
theorem Sound.proper_of {pre post : List (ℕ × Caller Req Resp ε α)} {i : ℕ}
    {caller : Caller Req Resp ε α} (h : Sound T c)
    (hc : c.callers = pre ++ (i, caller) :: post) : caller.Proper T c.running :=
  h.proper (i, caller) (hc ▸ List.mem_append_right _ (List.mem_cons_self ..))

/-- A caller may go on when its message stays where it is. -/
theorem Sound.goesOn {pre post : List (ℕ × Caller Req Resp ε α)} {i : ℕ}
    {caller caller' : Caller Req Resp ε α} (h : Sound T c)
    (hc : c.callers = pre ++ (i, caller) :: post) (hp : caller'.Proper T c.running)
    (hm : Caller.message (i, caller') = Caller.message (i, caller)) (s : σ)
    (rs : List (Except ε α)) :
    Sound T { c with state := s, callers := pre ++ (i, caller') :: post, returned := rs } := by
  refine ⟨(h.replace hc).1, (h.replace hc).2, ?_, h.stopped, h.room, h.proper_replace hc hp⟩
  have hperm := h.queued
  rw [hc] at hperm
  simpa only [List.filterMap_append, List.filterMap_cons, hm] using hperm

/-- A caller may leave when it has no message in the channel. -/
theorem Sound.leaves {pre post : List (ℕ × Caller Req Resp ε α)} {i : ℕ}
    {caller : Caller Req Resp ε α} (h : Sound T c)
    (hc : c.callers = pre ++ (i, caller) :: post) (hm : Caller.message (i, caller) = none)
    (rs : List (Except ε α)) :
    Sound T { c with callers := pre ++ post, returned := rs } := by
  have hn := h.remove hc
  refine ⟨hn.1, hn.2, ?_, h.stopped, h.room, h.proper_remove hc⟩
  have hperm := h.queued
  rwa [hc, filterMap_message hm, ← List.filterMap_append] at hperm

/-- The callers that are left when the channel is dropped know so. -/
theorem proper_hangUp {callers : List (ℕ × Caller Req Resp ε α)} {running : Bool}
    (h : ∀ e ∈ callers, e.2.Proper T running) :
    ∀ e ∈ callers.filterMap fun e => e.2.hangUp.map fun caller => (e.1, caller),
      e.2.Proper T false := by
  intro e he
  obtain ⟨⟨i, caller⟩, hmem, hup⟩ := List.mem_filterMap.mp he
  obtain ⟨caller', hcaller, rfl⟩ := Option.map_eq_some_iff.mp hup
  have hold := h _ hmem
  cases caller with
  | active p =>
      cases hcaller
      trivial
  | waiting req next reply =>
      cases reply with
      | pending =>
          cases hcaller
          exact ⟨hold, rfl⟩
      | abandoned => cases hcaller
      | sent answer =>
          cases hcaller
          trivial
      | closed =>
          cases hcaller
          exact ⟨hold.1, rfl⟩

/-- The callers that are left when the channel is dropped, by their numbers. -/
theorem map_fst_hangUp_sublist (callers : List (ℕ × Caller Req Resp ε α)) :
    ((callers.filterMap fun e => e.2.hangUp.map fun caller => (e.1, caller)).map
      Prod.fst).Sublist (callers.map Prod.fst) := by
  induction callers with
  | nil => exact .slnil
  | cons e callers ih => cases he : e.2.hangUp <;> simp [he, ih, List.Sublist.cons]

/-- **What a step of the task or of a caller keeps.** -/
theorem Sound.advance (h : Sound T c) (hstep : Advance T event c c') : Sound T c' := by
  cases hstep with
  | perform pre hc hin hh => exact h.goesOn hc (by trivial) (by rfl) _ _
  | sendFails pre hc hin hrun => exact h.goesOn hc (by trivial) (by rfl) _ _
  | receive pre hc => exact h.goesOn hc (by trivial) (by rfl) _ _
  | receiveFails pre hc => exact h.goesOn hc (by trivial) (by rfl) _ _
  | finish pre hc => exact h.leaves hc rfl _
  | send pre hc hin hrun hroom =>
      refine ⟨(h.replace hc).1, (h.replace hc).2, ?_, fun hstop => ?_,
        by simpa using Nat.succ_le_of_lt hroom, h.proper_replace hc hin⟩
      · rw [filterMap_message_some rfl]
        have hperm := h.queued
        rw [hc, filterMap_message rfl] at hperm
        exact (List.perm_append_singleton _ _).trans
          ((hperm.cons _).trans List.perm_middle.symm)
      · cases hrun.symm.trans hstop
  | answer pre hq hc hh =>
      refine ⟨(h.replace hc).1, (h.replace hc).2, ?_, fun hstop => ?_, ?_,
        h.proper_replace hc trivial⟩
      · rw [filterMap_message rfl]
        exact h.taken hq hc rfl
      · cases (h.running_of_cons hq).symm.trans hstop
      · exact (Nat.le_succ _).trans (by simpa [hq] using h.room)
  | discard pre hq hc hh =>
      refine ⟨(h.remove hc).1, (h.remove hc).2, ?_, fun hstop => ?_, ?_, h.proper_remove hc⟩
      · rw [List.filterMap_append]
        exact h.taken hq hc rfl
      · cases (h.running_of_cons hq).symm.trans hstop
      · exact (Nat.le_succ _).trans (by simpa [hq] using h.room)
  | crash hq hh =>
      have hn := h.numbers (map_fst_hangUp_sublist c.callers)
      exact ⟨hn.1, hn.2, by simp [filterMap_message_hangUp], fun _ => rfl, Nat.zero_le _,
        proper_hangUp h.proper⟩

/-- **What every step keeps.** -/
theorem Sound.step (h : Sound T c) (hstep : Step T mayStart event c c') : Sound T c' := by
  cases hstep with
  | spawn p hp =>
      refine ⟨List.nodup_cons.mpr ⟨fun hmem => ?_, h.nodup⟩, fun e he => ?_, h.queued, h.stopped,
        h.room, fun e he => ?_⟩
      · obtain ⟨e, he, heq⟩ := List.mem_map.mp hmem
        exact absurd (heq ▸ h.fresh e he) (lt_irrefl _)
      · rcases List.mem_cons.mp he with rfl | he
        · exact Nat.lt_succ_self _
        · exact Nat.lt_succ_of_lt (h.fresh e he)
      · rcases List.mem_cons.mp he with rfl | he
        · trivial
        · exact h.proper e he
  | advance hadv => exact h.advance hadv
  | abandon pre hc =>
      have hin := h.proper_of hc
      exact h.goesOn hc (by exact hin) (by rfl) _ _
  | drop pre hc hm => exact h.leaves hc hm _

/-- **What every run keeps.** -/
theorem Sound.runs (h : Sound T c₀) (hruns : Runs T mayStart c₀ events c) : Sound T c := by
  induction hruns with
  | refl => exact h
  | tail _ hstep ih => exact ih.step hstep

/-! ## Requests in one step -/

/-- What a mailbox is to its callers: the state, whether the task runs, the programs and their
results. -/
structure Abstracts (c : Mailbox Req Resp ε α σ)
    (a : Pool Req Resp ε α (Option Refusal × σ)) : Prop where
  state : a.state.2 = c.state
  running : a.state.1 = none ↔ c.running = true
  tasks : a.tasks = c.callers.map fun e => e.2.view
  returned : a.returned = c.returned

variable {a : Pool Req Resp ε α (Option Refusal × σ)}

/-- The steps of the pool. -/
abbrev Atomically (T : Task Req Resp σ) (mayStart : Resumption Req Resp ε α → Prop) :
    Pool Req Resp ε α (Option Refusal × σ) → Pool Req Resp ε α (Option Refusal × σ) → Prop :=
  Relation.ReflTransGen (Pool.Step T.atomic T.Outage mayStart)

/-- Where a task has panicked, a pool may refuse requests either way. -/
theorem Abstracts.refuse (h : Abstracts c a) (hrun : c.running = false) (why : Refusal) :
    Atomically T mayStart a { a with state := (some why, c.state) } := by
  obtain ⟨⟨down, s⟩, ts, rs⟩ := a
  cases down with
  | none => cases hrun.symm.trans (h.running.mp rfl)
  | some why' =>
      rw [show c.state = s from h.state.symm]
      exact .single (.interfere (.refusal why' why s))

/-- Callers that have been dropped leave a pool one by one. -/
theorem atomically_sublist {ts ts' : List (Resumption Req Resp ε α)} (h : ts'.Sublist ts)
    (s : Option Refusal × σ) (pre : List (Resumption Req Resp ε α)) (rs : List (Except ε α)) :
    Atomically T mayStart ⟨s, pre ++ ts, rs⟩ ⟨s, pre ++ ts', rs⟩ := by
  induction h generalizing pre with
  | slnil => exact .refl
  | cons p _ ih => exact .head (.abort p) (ih pre)
  | cons_cons p _ ih => simpa using ih (pre ++ [p])

/-- The programs that are left when the channel is dropped. -/
theorem map_view_hangUp_sublist (callers : List (ℕ × Caller Req Resp ε α)) :
    ((callers.filterMap fun e => e.2.hangUp.map fun caller => (e.1, caller)).map fun e =>
      e.2.view).Sublist (callers.map fun e => e.2.view) := by
  induction callers with
  | nil => exact .slnil
  | cons e callers ih =>
      obtain ⟨i, caller⟩ := e
      cases caller with
      | active p => exact ih.cons_cons _
      | waiting req next reply =>
          cases reply with
          | pending => exact ih.cons_cons _
          | abandoned => exact ih.cons _
          | sent answer => exact ih.cons_cons _
          | closed => exact ih.cons_cons _

/-- A caller whose request has been answered has made a step of the pool. -/
theorem Abstracts.served {pre post : List (ℕ × Caller Req Resp ε α)} {i : ℕ} {req : Req}
    {next : Resp req → Resumption Req Resp ε α} {caller : Caller Req Resp ε α}
    {s : Option Refusal × σ} {rs : List (Except ε α)}
    (hc : c.callers = pre ++ (i, caller) :: post) (hv : caller.view = .call req next) :
    Pool.Step T.atomic T.Outage mayStart ⟨s, c.callers.map fun e => e.2.view, rs⟩
      ⟨(T.atomic req s).2, pre.map (fun e => e.2.view) ++
        next (T.atomic req s).1 :: post.map (fun e => e.2.view), rs⟩ := by
  rw [hc, List.map_append, List.map_cons, hv]
  exact .serve req next


/-- **Refinement, one step.** What a mailbox does in one step, its callers see as steps of a pool in
which a request is one step. -/
theorem Step.refines (hs : Sound T c) (ha : Abstracts c a) (hstep : Step T mayStart event c c') :
    ∃ a', Atomically T mayStart a a' ∧ Abstracts c' a' := by
  obtain ⟨⟨down, s⟩, ts, rs⟩ := a
  obtain ⟨hstate, hrun, htasks, hreturned⟩ := ha
  dsimp only at hstate hrun htasks hreturned
  subst hstate htasks hreturned
  cases hstep with
  | spawn p hp => exact ⟨_, .single (.spawn p hp), rfl, hrun, rfl, rfl⟩
  | abandon pre hc => exact ⟨_, .refl, rfl, hrun, by simp [hc, Caller.view], rfl⟩
  | drop pre hc hm =>
      refine ⟨_, atomically_sublist (List.Sublist.map _ ?_) _ [] _, rfl, hrun, rfl, rfl⟩
      rw [hc]
      exact (List.Sublist.refl _).append (List.sublist_cons_self _ _)
  | advance hadv =>
      cases hadv with
      | perform pre hc hin hh =>
          refine ⟨_, .single (Abstracts.served hc rfl), ?_⟩
          rw [T.atomic_answer (.inl hin) hh]
          exact ⟨rfl, hrun, by simp [Caller.view], rfl⟩
      | send pre hc hin hup hroom => exact ⟨_, .refl, rfl, hrun, by simp [hc, Caller.view], rfl⟩
      | sendFails pre hc hin hdown =>
          have hwhy : Atomically T mayStart ⟨(down, c.state), _, c.returned⟩ _ :=
            Abstracts.refuse ⟨rfl, hrun, rfl, rfl⟩ hdown .send
          refine ⟨_, hwhy.tail (Abstracts.served hc rfl), ?_⟩
          rw [T.atomic_refuse hin]
          exact ⟨rfl, by simp [hdown], by simp [Caller.view], rfl⟩
      | answer pre hq hc hh =>
          have hup := hrun.mpr (hs.running_of_cons hq)
          refine ⟨_, .single (Abstracts.served hc rfl), ?_⟩
          rw [T.atomic_answer (.inr hup) hh]
          exact ⟨rfl, hrun, by simp [Caller.view], rfl⟩
      | discard pre hq hc hh =>
          have hup := hrun.mpr (hs.running_of_cons hq)
          refine ⟨_, .tail (.single (Abstracts.served hc rfl)) (.abort _), ?_⟩
          rw [T.atomic_answer (.inr hup) hh]
          exact ⟨rfl, hrun, by simp, rfl⟩
      | crash hq hh =>
          have hup := hrun.mpr (hs.running_of_cons hq)
          subst hup
          exact ⟨_, .head (.interfere (.crash _ hh))
            (atomically_sublist (map_view_hangUp_sublist _) _ [] _), rfl, by simp, rfl, rfl⟩
      | receive pre hc => exact ⟨_, .refl, rfl, hrun, by simp [hc, Caller.view], rfl⟩
      | receiveFails pre hc =>
          obtain ⟨hin, hdown⟩ := hs.proper_of hc
          have hwhy : Atomically T mayStart ⟨(down, c.state), _, c.returned⟩ _ :=
            Abstracts.refuse ⟨rfl, hrun, rfl, rfl⟩ hdown .receive
          refine ⟨_, hwhy.tail (Abstracts.served hc rfl), ?_⟩
          rw [T.atomic_refuse hin]
          exact ⟨rfl, by simp [hdown], by simp [Caller.view], rfl⟩
      | finish pre hc =>
          refine ⟨⟨(down, c.state), _, _ :: c.returned⟩, .single ?_, rfl, hrun, rfl, rfl⟩
          rw [hc, List.map_append, List.map_cons, List.map_append]
          exact .finish _

/-- **Refinement.** Every run of a mailbox is a run of the pool to its callers. -/
theorem Runs.refines (hs : Sound T c₀) (ha : Abstracts c₀ a)
    (hruns : Runs T mayStart c₀ events c) :
    ∃ a', Atomically T mayStart a a' ∧ Abstracts c a' := by
  induction hruns with
  | refl => exact ⟨a, .refl, ha⟩
  | tail hruns hstep ih =>
      obtain ⟨mid, hmid, hc⟩ := ih
      obtain ⟨a', hlast, ha'⟩ := hstep.refines (hs.runs hruns) hc
      exact ⟨a', hmid.trans hlast, ha'⟩

/-- A mailbox without callers is a pool without tasks. -/
theorem Abstracts.start (s : σ) :
    Abstracts (start s : Mailbox Req Resp ε α σ) ⟨(none, s), [], []⟩ :=
  ⟨rfl, by simp [Mailbox.start], rfl, rfl⟩

/-- What the callers of a task that does not panic see of a mailbox. -/
def seen (c : Mailbox Req Resp ε α σ) : Pool Req Resp ε α σ :=
  ⟨c.state, c.callers.map fun e => e.2.view, c.returned⟩

/-- **Refinement, for a task that does not panic.** Its callers see a pool that carries out each
request in one step. -/
theorem Runs.refines_pool {f : (req : Req) → σ → Resp req × σ}
    (hT : ∀ req s, T.handle req s = (some (f req s).1, (f req s).2)) (hs : Sound T c₀)
    (hrun : c₀.running = true) (hruns : Runs T mayStart c₀ events c) :
    Relation.ReflTransGen (Pool.Step f (fun _ _ => False) mayStart) c₀.seen c.seen := by
  obtain ⟨a, hsteps, ha⟩ := hruns.refines (a := ⟨(none, c₀.state), _, c₀.returned⟩) hs
    ⟨rfl, by simp [hrun], rfl, rfl⟩
  have hproject : a.state.1 = none ∧ Relation.ReflTransGen
      (Pool.Step f (fun _ _ => False) mayStart) c₀.seen ⟨a.state.2, a.tasks, a.returned⟩ := by
    clear ha hruns
    induction hsteps with
    | refl => exact ⟨rfl, .refl⟩
    | tail _ hstep ih =>
        obtain ⟨hup, hpool⟩ := ih
        cases hstep with
        | spawn p hp => exact ⟨hup, hpool.tail (.spawn p hp)⟩
        | @serve s pre post rs req next =>
            obtain ⟨down, s⟩ := s
            cases hup
            rw [T.atomic_answer (.inr rfl) (hT req s)]
            exact ⟨rfl, hpool.tail (.serve req next)⟩
        | finish r => exact ⟨hup, hpool.tail (.finish r)⟩
        | abort p => exact ⟨hup, hpool.tail (.abort p)⟩
        | interfere hout =>
            cases hout with
            | crash req hh => cases (hT _ _).symm.trans hh
            | refusal why why' s => cases hup
  have hseen : (⟨a.state.2, a.tasks, a.returned⟩ : Pool Req Resp ε α σ) = c.seen := by
    rw [ha.state, ha.tasks, ha.returned, seen]
  exact hseen ▸ hproject.2

/-- A task that does not panic keeps running. -/
theorem Runs.running {f : (req : Req) → σ → Resp req × σ}
    (hT : ∀ req s, T.handle req s = (some (f req s).1, (f req s).2))
    (hruns : Runs T mayStart c₀ events c) (hrun : c₀.running = true) : c.running = true := by
  induction hruns with
  | refl => exact hrun
  | tail _ hstep ih =>
      cases hstep with
      | spawn p hp => exact ih
      | abandon pre hc => exact ih
      | drop pre hc hm => exact ih
      | advance hadv =>
          cases hadv with
          | crash hq hh => cases (hT _ _).symm.trans hh
          | _ => exact ih

/-! ## The order of the messages -/

/-- What a step does to the channel. -/
theorem Step.queue_eq (hstep : Step T mayStart event c c') :
    (event.handle?.toList ++ c'.queue = c.queue ++ event.send?.toList) ∨
      (c'.running = false ∧ c'.queue = [] ∧ event.send? = none ∧
        ∃ rest, event.handle?.toList ++ rest = c.queue) := by
  cases hstep with
  | spawn p hp => exact .inl (List.append_nil _).symm
  | abandon pre hc => exact .inl (List.append_nil _).symm
  | drop pre hc hm => exact .inl (List.append_nil _).symm
  | advance hadv =>
      cases hadv with
      | send pre hc hin hrun hroom => exact .inl rfl
      | answer pre hq hc hh => exact .inl (by rw [hq]; exact (List.append_nil _).symm)
      | discard pre hq hc hh => exact .inl (by rw [hq]; exact (List.append_nil _).symm)
      | crash hq hh => exact .inr ⟨rfl, rfl, rfl, _, hq.symm⟩
      | perform pre hc hin hh => exact .inl (List.append_nil _).symm
      | sendFails pre hc hin hrun => exact .inl (List.append_nil _).symm
      | receive pre hc => exact .inl (List.append_nil _).symm
      | receiveFails pre hc => exact .inl (List.append_nil _).symm
      | finish pre hc => exact .inl (List.append_nil _).symm

/-- A task that has panicked stays so, and takes no message. -/
theorem Step.stopped (hs : Sound T c) (hstep : Step T mayStart event c c')
    (hrun : c.running = false) :
    c'.running = false ∧ event.send? = none ∧ event.handle? = none ∧
      ∀ req ∈ event.request?, T.inPlace req = true := by
  have hnil := hs.stopped hrun
  have hquiet : ∀ req ∈ (MailEvent.other : MailEvent Req).request?, T.inPlace req = true :=
    fun req hreq => by cases hreq
  cases hstep with
  | spawn p hp => exact ⟨hrun, rfl, rfl, hquiet⟩
  | abandon pre hc => exact ⟨hrun, rfl, rfl, hquiet⟩
  | drop pre hc hm => exact ⟨hrun, rfl, rfl, hquiet⟩
  | advance hadv =>
      cases hadv with
      | send pre hc hin hup hroom => cases hup.symm.trans hrun
      | answer pre hq hc hh => cases hq.symm.trans hnil
      | discard pre hq hc hh => cases hq.symm.trans hnil
      | crash hq hh => cases hq.symm.trans hnil
      | perform pre hc hin hh =>
          refine ⟨hrun, rfl, rfl, fun req hreq => ?_⟩
          cases hreq
          exact hin
      | sendFails pre hc hin hdown => exact ⟨hrun, rfl, rfl, hquiet⟩
      | receive pre hc => exact ⟨hrun, rfl, rfl, hquiet⟩
      | receiveFails pre hc => exact ⟨hrun, rfl, rfl, hquiet⟩
      | finish pre hc => exact ⟨hrun, rfl, rfl, hquiet⟩

/-- The messages sent in a run, oldest first. -/
def sentIn (events : List (MailEvent Req)) : List (ℕ × Req) := events.filterMap MailEvent.send?

/-- The messages handled in a run, oldest first. -/
def handledIn (events : List (MailEvent Req)) : List (ℕ × Req) :=
  events.filterMap MailEvent.handle?

theorem filterMap_append_singleton {β γ : Type} (f : β → Option γ) (l : List β) (b : β) :
    (l ++ [b]).filterMap f = l.filterMap f ++ (f b).toList := by
  rw [List.filterMap_append]
  cases h : f b <;> simp [h]

/-- **First in, first out.** The messages handled are the oldest of those sent, each once and in the
order in which they were sent; while the task runs the others are in the channel. -/
theorem Runs.inOrder (hs : Sound T c₀) (hq : c₀.queue = [])
    (hruns : Runs T mayStart c₀ events c) :
    handledIn events ++ c.queue <+: sentIn events ∧
      (c.running = true → handledIn events ++ c.queue = sentIn events) := by
  induction hruns with
  | refl => simp [handledIn, sentIn, hq]
  | @tail events event c c' hruns hstep ih =>
      have hsound := hs.runs hruns
      simp only [handledIn, sentIn, filterMap_append_singleton] at ih ⊢
      cases hrun : c.running with
      | false =>
          obtain ⟨hstop, hsend, hhandle, -⟩ := hstep.stopped hsound hrun
          have hempty := hsound.stopped hrun
          have hempty' := (hsound.step hstep).stopped hstop
          refine ⟨?_, fun hup => by cases hup.symm.trans hstop⟩
          simpa [hsend, hhandle, hempty, hempty'] using ih.1
      | true =>
          have heq := ih.2 hrun
          rcases hstep.queue_eq with hqueue | ⟨hstop, hempty, hsend, rest, hrest⟩
          · have hall : events.filterMap MailEvent.handle? ++ event.handle?.toList ++ c'.queue =
                events.filterMap MailEvent.send? ++ event.send?.toList := by
              rw [List.append_assoc, hqueue, ← List.append_assoc, heq]
            exact ⟨hall ▸ List.prefix_refl _, fun _ => hall⟩
          · refine ⟨⟨rest, ?_⟩, fun hup => by cases hup.symm.trans hstop⟩
            rw [hempty, hsend, List.append_nil, List.append_assoc, hrest, heq]
            exact (List.append_nil _).symm

/-- The requests carried out in a run, oldest first. -/
def requestsIn (events : List (MailEvent Req)) : List Req := events.filterMap MailEvent.request?

/-- What a step does to the state. -/
theorem Step.state_eq (hstep : Step T mayStart event c c') :
    c'.state = event.request?.toList.foldl (fun s req => (T.handle req s).2) c.state := by
  cases hstep with
  | spawn p hp => rfl
  | abandon pre hc => rfl
  | drop pre hc hm => rfl
  | advance hadv =>
      cases hadv with
      | perform pre hc hin hh => exact (congrArg Prod.snd hh).symm
      | answer pre hq hc hh => exact (congrArg Prod.snd hh).symm
      | discard pre hq hc hh => exact (congrArg Prod.snd hh).symm
      | crash hq hh => exact (congrArg Prod.snd hh).symm
      | send pre hc hin hrun hroom => rfl
      | sendFails pre hc hin hrun => rfl
      | receive pre hc => rfl
      | receiveFails pre hc => rfl
      | finish pre hc => rfl

/-- **The state is that of the requests in turn.** Nothing but the requests carried out changes
it. -/
theorem Runs.state_eq (hruns : Runs T mayStart c₀ events c) :
    c.state = (requestsIn events).foldl (fun s req => (T.handle req s).2) c₀.state := by
  induction hruns with
  | refl => rfl
  | tail hruns hstep ih =>
      rw [requestsIn, filterMap_append_singleton, List.foldl_append, ← requestsIn, ← ih]
      exact hstep.state_eq

/-- **After a panic** only what callers carry out themselves changes the state. -/
theorem Runs.stopped (hs : Sound T c₀) (hruns : Runs T mayStart c₀ events c)
    (hrun : c₀.running = false) {P : σ → Prop} (hP : P c₀.state)
    (hperform : ∀ req s, T.inPlace req = true → P s → P (T.handle req s).2) :
    c.running = false ∧ P c.state := by
  induction hruns with
  | refl => exact ⟨hrun, hP⟩
  | @tail events event c c' hruns hstep ih =>
      obtain ⟨hstop, hP⟩ := ih
      obtain ⟨hstop', -, -, hin⟩ := hstep.stopped (hs.runs hruns) hstop
      refine ⟨hstop', ?_⟩
      rw [hstep.state_eq]
      cases hreq : event.request? with
      | none => exact hP
      | some req => exact hperform req _ (hin req (by rw [hreq]; rfl)) hP

/-! ## Going on and coming to an end -/

/-- A message in the channel has a caller. -/
theorem Sound.caller_of_mem {m : ℕ × Req} (h : Sound T c) (hm : m ∈ c.queue) :
    ∃ pre post caller, c.callers = pre ++ (m.1, caller) :: post ∧
      Caller.message (m.1, caller) = some m := by
  obtain ⟨⟨i, caller⟩, hmem, hmessage⟩ := List.mem_filterMap.mp (h.queued.subset hm)
  have hi : m.1 = i := by
    cases caller with
    | active p => cases hmessage
    | waiting req next reply => cases reply <;> cases hmessage <;> rfl
  obtain ⟨pre, post, hc⟩ := List.append_of_mem hmem
  exact ⟨pre, post, caller, hi ▸ hc, hi ▸ hmessage⟩

/-- A task with a message in its channel handles it. -/
theorem Sound.handles {i : ℕ} {req : Req} {rest : List (ℕ × Req)} (h : Sound T c)
    (hq : c.queue = (i, req) :: rest) : ∃ event c', Advance T event c c' := by
  obtain ⟨pre, post, caller, hc, hm⟩ := h.caller_of_mem (m := (i, req)) (by simp [hq])
  obtain ⟨answer, s', hh⟩ : ∃ answer s', T.handle req c.state = (answer, s') := ⟨_, _, rfl⟩
  cases answer with
  | none => exact ⟨_, _, .crash hq hh⟩
  | some answer =>
      cases caller with
      | active p => cases hm
      | waiting req' next reply =>
          cases reply with
          | pending =>
              cases hm
              exact ⟨_, _, .answer _ hq hc hh⟩
          | abandoned =>
              cases hm
              exact ⟨_, _, .discard _ hq hc hh⟩
          | sent answer' => cases hm
          | closed => cases hm

/-- **Progress.** As long as there are callers, the task or one of them can go on. -/
theorem Sound.progress (h : Sound T c) (hcapacity : 0 < T.capacity)
    (hperform : ∀ req s, T.inPlace req = true → (T.handle req s).1.isSome)
    (hcallers : c.callers ≠ []) : ∃ event c', Advance T event c c' := by
  rcases hq : c.queue with _ | ⟨⟨i, req⟩, rest⟩
  · -- The channel is empty, so that every caller can go on.
    obtain ⟨⟨i, caller⟩, post, hc⟩ := List.exists_cons_of_ne_nil hcallers
    have hc : c.callers = [] ++ (i, caller) :: post := hc
    have hnone : Caller.message (i, caller) = none := by
      have hperm := h.queued
      rw [hq, hc] at hperm
      exact List.filterMap_eq_nil_iff.mp hperm.nil_eq.symm _ (by simp)
    cases caller with
    | active p =>
        cases p with
        | done r => exact ⟨_, _, .finish _ hc⟩
        | call req next =>
            cases hin : T.inPlace req with
            | true =>
                obtain ⟨answer, hanswer⟩ := Option.isSome_iff_exists.mp (hperform req c.state hin)
                exact ⟨_, _, .perform _ hc hin (Prod.ext hanswer rfl)⟩
            | false =>
                cases hrun : c.running with
                | true => exact ⟨_, _, .send _ hc hin hrun (by simpa [hq] using hcapacity)⟩
                | false => exact ⟨_, _, .sendFails _ hc hin hrun⟩
    | waiting req next reply =>
        cases reply with
        | pending => cases hnone
        | abandoned => cases hnone
        | sent answer => exact ⟨_, _, .receive _ hc⟩
        | closed => exact ⟨_, _, .receiveFails _ hc⟩
  · exact h.handles hq

/-- How far a caller is from its next answer. -/
def remaining : Caller Req Resp ε α → ℕ
  | .active _ => 2
  | .waiting _ _ .pending => 1
  | .waiting _ _ .abandoned => 0
  | .waiting _ _ (.sent _) => 3
  | .waiting _ _ .closed => 0

/-- What a mailbox has still to do: a task that may panic, the programs of its callers and the steps
to their next answers. -/
def toDo (c : Mailbox Req Resp ε α σ) : ℕ × Multiset (Resumption Req Resp ε α) × ℕ :=
  (c.running.toNat, (c.callers.map fun e => e.2.view : List _),
    (c.callers.map fun e => remaining e.2).sum)

/-- The order of what there is to do. An answer makes a program smaller, whatever it is. -/
def Less : ℕ × Multiset (Resumption Req Resp ε α) × ℕ →
    ℕ × Multiset (Resumption Req Resp ε α) × ℕ → Prop :=
  Prod.Lex (· < ·) (Prod.Lex (Relation.CutExpand Resumption.Child) (· < ·))

theorem wellFounded_less : WellFounded (@Less Req Resp ε α) :=
  WellFounded.prod_lex Nat.lt_wfRel.wf
    (WellFounded.prod_lex Resumption.wellFounded_child.cutExpand Nat.lt_wfRel.wf)

section Less

variable {pre post : List (ℕ × Caller Req Resp ε α)} {i : ℕ}
  {caller caller' : Caller Req Resp ε α}

/-- A caller that has been answered has less to do. -/
theorem less_of_child (hc : c.callers = pre ++ (i, caller) :: post)
    (hc' : c'.callers = pre ++ (i, caller') :: post) (hrun : c'.running = c.running)
    (hchild : Resumption.Child caller'.view caller.view) :
    Less c'.toDo c.toDo := by
  rw [toDo, toDo, hrun, hc, hc']
  refine .right _ (.left _ _ ?_)
  simp only [List.map_append, List.map_cons, ← Multiset.coe_add, ← Multiset.cons_coe,
    ← Multiset.singleton_add]
  exact (Relation.cutExpand_add_left _).mpr (Relation.cutExpand_single_add hchild _)

/-- A caller that has left has nothing to do. -/
theorem less_of_left (hc : c.callers = pre ++ (i, caller) :: post)
    (hc' : c'.callers = pre ++ post) (hrun : c'.running = c.running) : Less c'.toDo c.toDo := by
  rw [toDo, toDo, hrun, hc, hc']
  refine .right _ (.left _ _ ⟨0, caller.view, by simp, ?_⟩)
  simp only [List.map_append, List.map_cons, ← Multiset.coe_add, ← Multiset.cons_coe,
    ← Multiset.singleton_add, add_zero]
  rw [add_assoc, add_comm ({caller.view} : Multiset _)]

/-- A caller on the way to its next answer has less to do. -/
theorem less_of_remaining (hc : c.callers = pre ++ (i, caller) :: post)
    (hc' : c'.callers = pre ++ (i, caller') :: post) (hrun : c'.running = c.running)
    (hview : caller'.view = caller.view) (hless : remaining caller' < remaining caller) :
    Less c'.toDo c.toDo := by
  rw [toDo, toDo, hrun, hc, hc']
  simp only [List.map_append, List.map_cons, hview, List.sum_append, List.sum_cons]
  exact .right _ (.right _ (by omega))

end Less

/-- Nobody starts. -/
def Nobody (_ : Resumption Req Resp ε α) : Prop := False

/-- **Every step without new callers leaves less to do.** -/
theorem Step.less (hs : Sound T c) (hstep : Step T Nobody event c c') : Less c'.toDo c.toDo := by
  cases hstep with
  | spawn p hp => exact hp.elim
  | abandon pre hc => exact less_of_remaining hc rfl rfl rfl (by simp [remaining])
  | drop pre hc hm => exact less_of_left hc rfl rfl
  | advance hadv =>
      cases hadv with
      | perform pre hc hin hh => exact less_of_child hc rfl rfl (.next _ _ _)
      | send pre hc hin hrun hroom => exact less_of_remaining hc rfl rfl rfl (by simp [remaining])
      | sendFails pre hc hin hrun => exact less_of_child hc rfl rfl (.next _ _ _)
      | answer pre hq hc hh => exact less_of_child hc rfl rfl (.next _ _ _)
      | discard pre hq hc hh => exact less_of_left hc rfl rfl
      | crash hq hh =>
          refine .left _ _ ?_
          rw [hs.running_of_cons hq]
          exact Nat.zero_lt_one
      | receive pre hc => exact less_of_remaining hc rfl rfl rfl (by simp [remaining])
      | receiveFails pre hc => exact less_of_child hc rfl rfl (.next _ _ _)
      | finish pre hc => exact less_of_left hc rfl rfl

/-- **Termination.** Without new callers there is no run without end. -/
theorem no_endless_run (run : ℕ → Mailbox Req Resp ε α σ) (hs : Sound T (run 0)) :
    ¬ ∀ n, ∃ event, Step T Nobody event (run n) (run (n + 1)) := by
  intro hsteps
  have hsound : ∀ n, Sound T (run n) := by
    intro n
    induction n with
    | zero => exact hs
    | succ n ih =>
        obtain ⟨event, hstep⟩ := hsteps n
        exact ih.step hstep
  have hless : ∀ n, Less (run (n + 1)).toDo (run n).toDo := by
    intro n
    obtain ⟨event, hstep⟩ := hsteps n
    exact hstep.less (hsound n)
  exact (wellFounded_iff_isEmpty_descending_chain.mp wellFounded_less).false
    ⟨fun n => (run n).toDo, hless⟩

/-! ## One caller alone -/

theorem Runs.trans {events' : List (MailEvent Req)} (h : Runs T mayStart c₀ events c)
    (h' : Runs T mayStart c events' c') : Runs T mayStart c₀ (events ++ events') c' := by
  induction h' with
  | refl => rwa [List.append_nil]
  | tail _ hstep ih =>
      rw [← List.append_assoc]
      exact ih.tail hstep

/-- A run that goes on from where another one ends. -/
theorem Runs.onward (_ : Runs T mayStart c₀ events c) : Runs T mayStart c [] c := .refl

/-- **Two callers at once**: both messages are in the channel before one of them is handled. -/
theorem Runs.twoMessages {f : (req : Req) → σ → Resp req × σ}
    (hT : ∀ req s, T.handle req s = (some (f req s).1, (f req s).2)) (hcapacity : 1 < T.capacity)
    {p q : Resumption Req Resp ε α} {s : σ} {i j k : ℕ} {rs : List (Except ε α)}
    (h : Runs T mayStart c₀ events ⟨s, true, [], [(i, .active p), (j, .active q)], k, rs⟩)
    {a b : Req} {next : Resp a → Resumption Req Resp ε α}
    {next' : Resp b → Resumption Req Resp ε α} (hp : p = .call a next) (hq : q = .call b next')
    (ha : T.inPlace a = false) (hb : T.inPlace b = false) :
    ∃ events', Runs T mayStart c₀ events' ⟨(f b (f a s).2).2, true, [],
      [(i, .active (next (f a s).1)), (j, .active (next' (f b (f a s).2).1))], k, rs⟩ := by
  subst hp hq
  have hsent : Runs T mayStart c₀ (events ++ [.sent i a] ++ [.sent j b]) ⟨s, true, [(i, a), (j, b)],
      [(i, .waiting a next .pending), (j, .waiting b next' .pending)], k, rs⟩ := by
    refine (h.tail (.advance (.send [] rfl ha rfl ?_))).tail
      (.advance (.send [(i, .waiting a next .pending)] rfl hb rfl ?_))
    · exact Nat.zero_lt_of_lt hcapacity
    · exact hcapacity
  have hanswered := (hsent.tail (.advance (.answer [] rfl rfl (hT a s)))).tail
    (.advance (.answer [(i, .waiting a next (.sent (f a s).1))] rfl rfl (hT b _)))
  exact ⟨_, (hanswered.tail (.advance (.receive [] rfl))).tail
    (.advance (.receive [(i, .active (next (f a s).1))] rfl))⟩

/-- **A caller alone** gets its program's result, as if it had the state to itself. -/
theorem Runs.lastCaller {f : (req : Req) → σ → Resp req × σ}
    (hT : ∀ req s, T.handle req s = (some (f req s).1, (f req s).2)) (hcapacity : 0 < T.capacity)
    {p : Resumption Req Resp ε α} {s : σ} {i k : ℕ} {rs : List (Except ε α)}
    (h : Runs T mayStart c₀ events ⟨s, true, [], [(i, .active p)], k, rs⟩) :
    ∃ events', Runs T mayStart c₀ events'
      ⟨(p.run f s).2, true, [], [], k, (p.run f s).1 :: rs⟩ := by
  induction p generalizing s events with
  | done r => exact ⟨_, h.tail (.advance (.finish [] rfl))⟩
  | call req next ih =>
      cases hin : T.inPlace req with
      | true => exact ih _ (h.tail (.advance (.perform [] rfl hin (hT req s))))
      | false =>
          have hsent : Runs T mayStart c₀ (events ++ [.sent i req])
              ⟨s, true, [(i, req)], [(i, .waiting req next .pending)], k, rs⟩ :=
            h.tail (.advance (.send [] rfl hin rfl hcapacity))
          have hanswered := hsent.tail (.advance (.answer [] rfl rfl (hT req s)))
          exact ih _ (hanswered.tail (.advance (.receive [] rfl)))

end Mailbox

end AcceptXmr
