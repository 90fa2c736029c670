import AcceptXmr.Pubsub.Publisher
import AcceptXmr.Server.Api
import Mathlib.Logic.Relation

/-! # Invoice updates over a websocket

`handle_websocket` of `server/src/server/api/external.rs`: a task that sends the updates of one
subscriber to a client, and closes the socket behind an update of an invoice that is confirmed or
expired. The task goes on receiving after that, and an error of a send is only logged. While a send or
the closing waits for the network, the task waits with it. The sending half of the socket is the
crate's, and a parameter.

* **`Step`** — one step of the task or of something that happens beside it.
* **`shown`** — the messages that a client is to be sent for some updates.
* **`websocket_shows_updates`** — what the client gets to see of the updates. -/

namespace AcceptXmr

namespace Websocket

/-- `CloseFrame`. -/
structure CloseFrame where
  code : ℕ
  reason : String
  deriving DecidableEq

/-- A message to the client. -/
inductive Message where
  /-- The JSON of an update. -/
  | text (update : InvoiceUpdate)
  | close (frame : Option CloseFrame)
  deriving DecidableEq

/-- Whether a message closes the socket. -/
def Message.closes : Message → Bool
  | .text _ => false
  | .close _ => true

/-- `close_code::NORMAL`. -/
def normal : ℕ := 1000

/-! ## Sockets -/

/-- The sending half of a socket. -/
structure SplitSink (σ : Type) where
  /-- `send`, and whether it is `Ok`. -/
  send : Message → σ → Bool × σ
  /-- `close`. -/
  close : σ → σ
  /-- The network takes no more for now, and a send or a close waits. -/
  waits : σ → Bool
  /-- What can become of the socket by the network and by the messages of the client. -/
  Meanwhile : σ → σ → Prop
  /-- The messages that have gone out. -/
  sent : σ → List Message

namespace SplitSink

variable {σ : Type} (sink : SplitSink σ)

/-- A close message has gone out. -/
def Closed (s : σ) : Prop := ∃ m ∈ sink.sent s, m.closes = true

/-- Nothing goes out but a close message, and not behind another one. -/
def Closes (s s' : σ) : Prop :=
  sink.sent s' = sink.sent s ∨
    ¬ sink.Closed s ∧ ∃ frame, sink.sent s' = sink.sent s ++ [.close frame]

/-- **What the code relies on**: a send that is `Ok` has put the message behind the others, one that
fails may have, and nothing is sent behind a close message. -/
structure Documented : Prop where
  send_ok : ∀ m s, (sink.send m s).1 = true → sink.sent (sink.send m s).2 = sink.sent s ++ [m]
  send : ∀ m s, sink.sent (sink.send m s).2 = sink.sent s ∨
    sink.sent (sink.send m s).2 = sink.sent s ++ [m]
  send_closed : ∀ m s, sink.Closed s → sink.sent (sink.send m s).2 = sink.sent s
  close : ∀ s, sink.Closes s (sink.close s)
  meanwhile : ∀ s s', sink.Meanwhile s s' → sink.Closes s s'

end SplitSink

/-! ## The task -/

/-- The close message behind an update, if it is the last one to be shown. -/
def closeFrame (invoice : Invoice) : Option CloseFrame :=
  if invoice.isConfirmed then some ⟨normal, "Invoice Complete"⟩
  else if invoice.isExpired then some ⟨normal, "Invoice Expired"⟩
  else none

/-- Where the task stands. -/
inductive Phase where
  /-- In `recv`. -/
  | receiving
  /-- At the send of an update. -/
  | texting (invoice : Invoice)
  /-- At the send of a close message. -/
  | closing (frame : CloseFrame)
  /-- Behind it, at `close`. -/
  | shutting
  /-- The last of these is done, and its await is to return. -/
  | flushing
  | ended

/-- Whether the task awaits its socket. -/
def Phase.awaitsSocket : Phase → Bool
  | .receiving | .ended => false
  | .texting _ | .closing _ | .shutting | .flushing => true

/-- The task with its channel and its socket. -/
structure Forwarding (σ : Type) where
  channel : Channel
  /-- Whether the publisher has a sender of the channel. -/
  attached : Bool
  phase : Phase
  socket : σ
  /-- The messages that were to be sent so far, and whether that was `Ok`. -/
  attempts : List (Message × Bool)

variable (crates : ApiCrates) {σ : Type} (sink : SplitSink σ)

namespace Forwarding

/-- A new subscriber and a new socket. -/
def start (socket : σ) : Forwarding σ := ⟨{}, true, .receiving, socket, []⟩

/-- Send a message. An error is logged. -/
def send (m : Message) (phase : Phase) (self : Forwarding σ) : Forwarding σ :=
  { self with
    phase := phase
    socket := (sink.send m self.socket).2
    attempts := self.attempts ++ [(m, (sink.send m self.socket).1)] }

/-- The task awaits its socket, which waits for the network. -/
def stalled (self : Forwarding σ) : Bool := self.phase.awaitsSocket && sink.waits self.socket

/-- **One step of the task**. None if it waits for an update or for the network, or has ended. -/
def advance (self : Forwarding σ) : Option (Forwarding σ) :=
  if self.stalled sink then none else
  match self.phase with
  | .receiving =>
      match self.channel.sent[self.channel.received]? with
      | some invoice => some { self with channel := self.channel.recv, phase := .texting invoice }
      | none =>
          if self.attached then none
          -- The subscriber is dropped.
          else some { self with channel := self.channel.close, phase := .ended }
  | .texting invoice =>
      some <| self.send sink (.text (.ofInvoice crates invoice)) <|
        match closeFrame invoice with
        | some frame => .closing frame
        | none => .flushing
  | .closing frame => some (self.send sink (.close (some frame)) .shutting)
  | .shutting => some { self with phase := .flushing, socket := sink.close self.socket }
  | .flushing => some { self with phase := .receiving }
  | .ended => none

end Forwarding

/-- **A step of the task or beside it.** -/
inductive Step : Forwarding σ → Forwarding σ → Prop where
  | task {s s' : Forwarding σ} (h : s.advance crates sink = some s') : Step s s'
  /-- The publisher sends an update, for which there has to be room. -/
  | publish {s : Forwarding σ} (invoice : Invoice) (hattached : s.attached = true)
      (hroom : s.channel.isFull = false) : Step s { s with channel := s.channel.push invoice }
  /-- The publisher drops its sender. -/
  | detach {s : Forwarding σ} : Step s { s with attached := false }
  | meanwhile {s : Forwarding σ} {socket : σ} (h : sink.Meanwhile s.socket socket) :
      Step s { s with socket := socket }

/-- The states of a run that starts with a new subscriber and a socket that has sent nothing. -/
def Reachable (s : Forwarding σ) : Prop :=
  ∃ socket, sink.sent socket = [] ∧ Relation.ReflTransGen (Step crates sink) (.start socket) s

/-! ## What is to be sent -/

/-- The messages for an update. -/
def messages (invoice : Invoice) : List Message :=
  .text (.ofInvoice crates invoice) :: (closeFrame invoice).toList.map fun frame => .close (some frame)

/-- The messages for an update that are still to be sent. -/
def Phase.todo : Phase → List Message
  | .texting invoice => messages crates invoice
  | .closing frame => [.close (some frame)]
  | .receiving | .shutting | .flushing | .ended => []

/-- **What the client is to be shown** of some updates: all up to the first one of an invoice that is
confirmed or expired, and then the close message for it. -/
def shown : List Invoice → List Message
  | [] => []
  | invoice :: rest => .text (.ofInvoice crates invoice) ::
      match closeFrame invoice with
      | some frame => [.close (some frame)]
      | none => shown rest

/-- The messages up to the first one that closes. -/
def upToClose : List Message → List Message
  | [] => []
  | m :: rest => m :: if m.closes then [] else upToClose rest

/-- Messages that do not close the socket stay in front. -/
theorem upToClose_append_of_open {l : List Message} (h : ∀ m ∈ l, m.closes = false)
    (rest : List Message) : upToClose (l ++ rest) = l ++ upToClose rest := by
  induction l with
  | nil => rfl
  | cons m l ih =>
      rw [List.forall_mem_cons] at h
      rw [List.cons_append, upToClose, h.1, ih h.2]
      rfl

/-- One message is not cut off. -/
@[simp] theorem upToClose_singleton (m : Message) : upToClose [m] = [m] := by
  rw [upToClose]
  split <;> rfl

/-- What stands behind a message that closes is cut off. -/
theorem upToClose_append {l : List Message} (h : ∃ m ∈ l, m.closes = true) (rest : List Message) :
    upToClose (l ++ rest) = upToClose l := by
  induction l with
  | nil => simp at h
  | cons m l ih =>
      rw [List.cons_append, upToClose, upToClose]
      cases hm : m.closes with
      | true => rfl
      | false =>
          obtain ⟨m', hmem, hm'⟩ := h
          rcases List.mem_cons.mp hmem with rfl | hmem
          · rw [hm] at hm'
            cases hm'
          · rw [ih ⟨m', hmem, hm'⟩]

/-- The first message that closes is not cut off. -/
theorem exists_closes_upToClose {l : List Message} (h : ∃ m ∈ l, m.closes = true) :
    ∃ m ∈ upToClose l, m.closes = true := by
  induction l with
  | nil => simp at h
  | cons m l ih =>
      rw [upToClose]
      cases hm : m.closes with
      | true => exact ⟨m, List.mem_cons_self, hm⟩
      | false =>
          obtain ⟨m', hmem, hm'⟩ := h
          rcases List.mem_cons.mp hmem with rfl | hmem
          · rw [hm] at hm'
            cases hm'
          · obtain ⟨m'', hmem'', hm''⟩ := ih ⟨m', hmem, hm'⟩
            exact ⟨m'', List.mem_cons_of_mem _ hmem'', hm''⟩

/-- What is shown of some updates are their messages up to the first one that closes. -/
theorem upToClose_messages (updates : List Invoice) :
    upToClose (updates.flatMap (messages crates)) = shown crates updates := by
  induction updates with
  | nil => rfl
  | cons invoice rest ih =>
      rw [List.flatMap_cons, messages, shown, List.cons_append, upToClose, ← ih]
      cases closeFrame invoice with
      | none => rfl
      | some frame => rfl

/-- The texts among the messages. -/
theorem filter_messages (updates : List Invoice) :
    (updates.flatMap (messages crates)).filter (fun m => !m.closes)
      = updates.map fun invoice => .text (.ofInvoice crates invoice) := by
  induction updates with
  | nil => rfl
  | cons invoice rest ih =>
      rw [List.flatMap_cons, List.filter_append, ih, messages, List.map_cons]
      cases closeFrame invoice with
      | none => rfl
      | some frame => rfl

/-! ## What goes out -/

/-- Every send up to the first close message was `Ok`. -/
def Delivers (attempts : List (Message × Bool)) : Prop :=
  ∀ before m rest, attempts = before ++ (m, false) :: rest → ∃ a ∈ before, a.1.closes = true

/-- What has been delivered so far was so before. -/
theorem Delivers.of_append {attempts rest : List (Message × Bool)} (h : Delivers (attempts ++ rest)) :
    Delivers attempts := by
  intro before m after heq
  refine h before m (after ++ rest) ?_
  rw [heq, List.append_assoc, List.cons_append]

/-- **Some messages in order**: texts that are among others, each once, and behind them at most one
close message. -/
def InOrder (all sent : List Message) : Prop :=
  ∃ texts closing, sent = texts ++ closing ∧ texts.Sublist all ∧ (∀ m ∈ texts, m.closes = false) ∧
    closing.length ≤ 1 ∧ ∀ m ∈ closing, m.closes = true

/-- **The messages that have gone out**, against those that were to be sent: some of them in order, and
if the sends were `Ok`, all up to the first close message. -/
structure Shaped (attempts : List (Message × Bool)) (sent : List Message) : Prop where
  inOrder : InOrder (attempts.map Prod.fst) sent
  delivered : Delivers attempts → ∃ reply, sent = upToClose (attempts.map Prod.fst) ++ reply ∧
    (∀ m ∈ reply, m.closes = true) ∧
    (reply ≠ [] → ∀ m ∈ attempts.map Prod.fst, m.closes = false)

/-- Nothing has gone out of nothing. -/
theorem shaped_nil : Shaped [] [] where
  inOrder := ⟨[], [], rfl, .refl _, by simp, by simp, by simp⟩
  delivered _ := ⟨[], rfl, by simp, by simp⟩

section Shaped

variable {sink} {attempts : List (Message × Bool)} {s s' : σ}

/-- A message that goes out finds the socket open. -/
theorem SplitSink.Documented.open_of_sent (hsink : sink.Documented) {m : Message}
    (hsent : sink.sent (sink.send m s).2 = sink.sent s ++ [m]) : ¬ sink.Closed s := by
  intro hclosed
  rw [hsink.send_closed m s hclosed] at hsent
  simp at hsent

/-- On an open socket neither side has closed it. -/
theorem reply_eq_nil {l reply : List Message} (hopen : ¬ sink.Closed s)
    (hsent : sink.sent s = l ++ reply) (hreply : ∀ m ∈ reply, m.closes = true) : reply = [] := by
  rw [List.eq_nil_iff_forall_not_mem]
  intro m hmem
  refine hopen ⟨m, ?_, hreply m hmem⟩
  rw [hsent]
  exact List.mem_append_right _ hmem

/-- A close message up to which all has gone out has closed the socket. -/
theorem closed_of_upToClose {l reply : List Message} (hsent : sink.sent s = upToClose l ++ reply)
    (h : ∃ m ∈ l, m.closes = true) : sink.Closed s := by
  obtain ⟨m, hmem, hm⟩ := exists_closes_upToClose h
  refine ⟨m, ?_, hm⟩
  rw [hsent]
  exact List.mem_append_left _ hmem

/-- Before the socket is closed there is no close message. -/
theorem Shaped.open_of_not_closed (h : Shaped attempts (sink.sent s)) (hopen : ¬ sink.Closed s) :
    (sink.sent s).Sublist (attempts.map Prod.fst) ∧ ∀ m ∈ sink.sent s, m.closes = false := by
  obtain ⟨texts, closing, hsent, hsub, htexts, -, hclosing⟩ := h.inOrder
  have hnil := reply_eq_nil hopen hsent hclosing
  rw [hsent, hnil, List.append_nil]
  exact ⟨hsub, htexts⟩

/-- A message that goes out on an open socket. -/
theorem Shaped.inOrder_append (h : Shaped attempts (sink.sent s)) (hopen : ¬ sink.Closed s)
    {attempts' : List (Message × Bool)} {m : Message}
    (hattempts : (attempts.map Prod.fst).Sublist (attempts'.map Prod.fst))
    (hm : m.closes = false → (attempts.map Prod.fst ++ [m]).Sublist (attempts'.map Prod.fst)) :
    InOrder (attempts'.map Prod.fst) (sink.sent s ++ [m]) := by
  obtain ⟨hsub, htexts⟩ := h.open_of_not_closed hopen
  cases hcloses : m.closes with
  | true => exact ⟨sink.sent s, [m], rfl, hsub.trans hattempts, htexts, by simp, by simpa⟩
  | false =>
      have hall := (hsub.append (.refl _)).trans (hm hcloses)
      refine ⟨sink.sent s ++ [m], [], by simp, hall, ?_, by simp, by simp⟩
      intro m' hmem
      rcases List.mem_append.mp hmem with hmem | hmem
      · exact htexts m' hmem
      · rw [List.mem_singleton.mp hmem]
        exact hcloses

/-- Closing keeps the shape. -/
theorem Shaped.closes (h : Shaped attempts (sink.sent s)) (hcloses : sink.Closes s s') :
    Shaped attempts (sink.sent s') := by
  rcases hcloses with hsame | ⟨hopen, frame, hsent⟩
  · rw [hsame]
    exact h
  · rw [hsent]
    refine ⟨h.inOrder_append hopen (.refl _) nofun, fun hdelivers => ?_⟩
    obtain ⟨reply, hbegins, hreply, -⟩ := h.delivered hdelivers
    have hnil := reply_eq_nil hopen hbegins hreply
    subst hnil
    refine ⟨[.close frame], by rw [hbegins, List.append_nil], ?_, fun _ m hmem => ?_⟩
    · intro m hmem
      rw [List.mem_singleton.mp hmem]
      rfl
    · rw [← Bool.not_eq_true]
      exact fun hm => hopen (closed_of_upToClose hbegins ⟨m, hmem, hm⟩)

/-- **A send keeps the shape.** -/
theorem Shaped.send (hsink : sink.Documented) (h : Shaped attempts (sink.sent s)) (m : Message) :
    Shaped (attempts ++ [(m, (sink.send m s).1)]) (sink.sent (sink.send m s).2) := by
  have hmap : (attempts ++ [(m, (sink.send m s).1)]).map Prod.fst = attempts.map Prod.fst ++ [m] := by
    rw [List.map_append, List.map_singleton]
  constructor
  · rcases hsink.send m s with hsame | hsent
    · obtain ⟨texts, closing, heq, hsub, hrest⟩ := h.inOrder
      rw [hsame, hmap]
      exact ⟨texts, closing, heq, hsub.trans (List.sublist_append_left _ _), hrest⟩
    · rw [hsent]
      refine h.inOrder_append (hsink.open_of_sent hsent) ?_ fun _ => ?_
      · rw [hmap]
        exact List.sublist_append_left _ _
      · rw [hmap]
  · intro hdelivers
    obtain ⟨reply, hbegins, hreply, hclean⟩ := h.delivered hdelivers.of_append
    rw [hmap]
    by_cases hclose : ∃ m ∈ attempts.map Prod.fst, m.closes = true
    · -- The socket is closed, and the message does not go out.
      rw [hsink.send_closed m s (closed_of_upToClose hbegins hclose), upToClose_append hclose]
      refine ⟨reply, hbegins, hreply, fun hne => ?_⟩
      obtain ⟨m', hmem', hm'⟩ := hclose
      rw [hclean hne m' hmem'] at hm'
      cases hm'
    · have hopen : ∀ m ∈ attempts.map Prod.fst, m.closes = false := by
        intro m' hmem'
        rw [← Bool.not_eq_true]
        exact fun hm' => hclose ⟨m', hmem', hm'⟩
      have hok : (sink.send m s).1 = true := by
        by_contra hfailed
        rw [Bool.not_eq_true] at hfailed
        rw [hfailed] at hdelivers
        obtain ⟨a, ha, hcloses⟩ := hdelivers attempts m [] rfl
        exact hclose ⟨a.1, List.mem_map_of_mem ha, hcloses⟩
      have hsent := hsink.send_ok m s hok
      -- No reply has gone out before, for then this send would have failed.
      have hnil := reply_eq_nil (hsink.open_of_sent hsent) hbegins hreply
      subst hnil
      refine ⟨[], ?_, by simp, by simp⟩
      have hall : upToClose (attempts.map Prod.fst) = attempts.map Prod.fst := by
        simpa [upToClose] using upToClose_append_of_open hopen []
      rw [hsent, hbegins, List.append_nil, List.append_nil, hall, upToClose_append_of_open hopen,
        upToClose_singleton]

end Shaped

/-! ## Runs -/

/-- The updates that the task has received. -/
def Forwarding.updates (self : Forwarding σ) : List Invoice :=
  self.channel.sent.take self.channel.received

/-- **The invariant**: what was to be sent and what is left make up the messages for the updates
received so far, and what has gone out has its shape. -/
structure Sound (s : Forwarding σ) : Prop where
  attempted : s.attempts.map Prod.fst ++ s.phase.todo crates = s.updates.flatMap (messages crates)
  received_le : s.channel.received ≤ s.channel.sent.length
  shaped : Shaped s.attempts (sink.sent s.socket)
  /-- The subscriber is dropped only at the end. -/
  subscribed : s.phase = .ended ∨ s.channel.isOpen = true
  ended : s.phase = .ended → s.attached = false ∧ s.channel.received = s.channel.sent.length

variable {crates sink}

/-- At the start nothing has been received and nothing has gone out. -/
theorem sound_start {socket : σ} (h : sink.sent socket = []) : Sound crates sink (.start socket) where
  attempted := rfl
  received_le := Nat.le_refl 0
  shaped := h ▸ shaped_nil
  subscribed := .inr rfl
  ended := nofun

/-- A message that is sent. -/
theorem Sound.send {s : Forwarding σ} (h : Sound crates sink s) (hsink : sink.Documented)
    {m : Message} {phase : Phase}
    (htodo : s.phase.todo crates = m :: phase.todo crates) (hopen : s.channel.isOpen = true)
    (hphase : phase ≠ .ended) : Sound crates sink (s.send sink m phase) where
  attempted := by
    have hattempted := h.attempted
    rw [htodo] at hattempted
    dsimp only [Forwarding.send]
    rw [List.map_append, List.append_assoc]
    exact hattempted
  received_le := h.received_le
  shaped := h.shaped.send hsink m
  subscribed := .inr hopen
  ended hended := absurd hended hphase

/-- **A step of the task.** -/
theorem Sound.advance {s s' : Forwarding σ} (h : Sound crates sink s) (hsink : sink.Documented)
    (hs : s.advance crates sink = some s') : Sound crates sink s' := by
  rw [Forwarding.advance] at hs
  split at hs
  · cases hs
  have hopen : s.phase ≠ .ended → s.channel.isOpen = true := h.subscribed.resolve_left
  cases hphase : s.phase with
  | receiving =>
      rw [hphase] at hs hopen
      have htodo : s.phase.todo crates = [] := by rw [hphase]; rfl
      have hattempted := h.attempted
      rw [htodo, List.append_nil] at hattempted
      cases hget : s.channel.sent[s.channel.received]? with
      | some invoice =>
          simp only [hget, Option.some.injEq] at hs
          subst hs
          obtain ⟨hlt, hinvoice⟩ := List.getElem?_eq_some_iff.mp hget
          have hrecv : s.channel.recv = { s.channel with received := s.channel.received + 1 } :=
            if_pos hlt
          rw [hrecv]
          refine ⟨?_, hlt, h.shaped, .inr (hopen nofun), nofun⟩
          dsimp only [Forwarding.updates] at hattempted ⊢
          rw [List.take_succ_eq_append_getElem hlt, List.flatMap_append, ← hattempted, hinvoice,
            List.flatMap_singleton]
          rfl
      | none =>
          cases hattached : s.attached with
          | true => simp [hget, hattached] at hs
          | false =>
              simp only [hget, hattached, Bool.false_eq_true, if_false, Option.some.injEq] at hs
              subst hs
              refine ⟨?_, h.received_le, h.shaped, .inl rfl, fun _ => ⟨rfl, ?_⟩⟩
              · exact (List.append_nil _).trans hattempted
              · exact Nat.le_antisymm h.received_le (List.getElem?_eq_none_iff.mp hget)
  | texting invoice =>
      rw [hphase] at hs hopen
      dsimp only at hs
      cases hs
      refine h.send hsink ?_ (hopen nofun) ?_
      · rw [hphase, Phase.todo, messages]
        cases closeFrame invoice with
        | none => rfl
        | some frame => rfl
      · cases closeFrame invoice with
        | none => exact nofun
        | some frame => exact nofun
  | closing frame =>
      rw [hphase] at hs hopen
      dsimp only at hs
      cases hs
      refine h.send hsink ?_ (hopen nofun) nofun
      rw [hphase]
      rfl
  | shutting =>
      rw [hphase] at hs hopen
      dsimp only at hs
      cases hs
      have hattempted := h.attempted
      rw [hphase] at hattempted
      exact ⟨hattempted, h.received_le, h.shaped.closes (hsink.close _), .inr (hopen nofun), nofun⟩
  | flushing =>
      rw [hphase] at hs hopen
      dsimp only at hs
      cases hs
      have hattempted := h.attempted
      rw [hphase] at hattempted
      exact ⟨hattempted, h.received_le, h.shaped, .inr (hopen nofun), nofun⟩
  | ended =>
      rw [hphase] at hs
      cases hs

/-- **Every step** keeps the invariant. -/
theorem Sound.step {s s' : Forwarding σ} (h : Sound crates sink s) (hsink : sink.Documented)
    (hs : Step crates sink s s') : Sound crates sink s' := by
  cases hs with
  | task hs => exact h.advance hsink hs
  | publish invoice hattached hroom =>
      refine ⟨?_, ?_, h.shaped, h.subscribed, fun hended => ?_⟩
      · dsimp only [Channel.push, Forwarding.updates]
        rw [List.take_append_of_le_length h.received_le]
        exact h.attempted
      · dsimp only [Channel.push]
        rw [List.length_append]
        exact Nat.le_trans h.received_le (Nat.le_add_right _ _)
      · rw [(h.ended hended).1] at hattached
        cases hattached
  | detach =>
      refine ⟨h.attempted, h.received_le, h.shaped, h.subscribed, fun hended => ?_⟩
      exact ⟨rfl, (h.ended hended).2⟩
  | meanwhile hmeanwhile =>
      exact ⟨h.attempted, h.received_le, h.shaped.closes (hsink.meanwhile _ _ hmeanwhile),
        h.subscribed, h.ended⟩

/-- Every state of a run satisfies the invariant. -/
theorem Reachable.sound {s : Forwarding σ} (h : Reachable crates sink s) (hsink : sink.Documented) :
    Sound crates sink s := by
  obtain ⟨socket, hsocket, hsteps⟩ := h
  induction hsteps with
  | refl => exact sound_start hsocket
  | tail _ hstep ih => exact ih.step hsink hstep

variable (crates sink)

/-- **What the client gets to see**, and that the task keeps receiving. -/
structure Shows (s : Forwarding σ) : Prop where
  /-- Updates that have been received, in order and each at most once, then at most one close message. -/
  inOrder : InOrder (s.updates.map fun invoice => .text (.ofInvoice crates invoice))
    (sink.sent s.socket)
  /-- While the task waits for an update, and if no send has failed before a close message: all that is
  to be shown; then the client's own close message, if it has closed the socket first. -/
  delivered : s.phase = .receiving → Delivers s.attempts →
    ∃ reply, sink.sent s.socket = shown crates s.updates ++ reply ∧
      (∀ m ∈ reply, m.closes = true) ∧
      (reply ≠ [] → ∀ invoice ∈ s.updates, closeFrame invoice = none)
  /-- The task waits, or has ended, only when it has received all updates, or its socket waits for the
  network. -/
  receives : s.advance crates sink = none →
    s.channel.received = s.channel.sent.length ∨ s.stalled sink = true
  /-- It goes on when its socket does. -/
  resumes : s.stalled sink = true → ∀ socket, sink.waits socket = false →
    ∃ s', Forwarding.advance crates sink { s with socket := socket } = some s'
  /-- The subscriber is not dropped as long as the publisher has a sender. -/
  subscribed : s.attached = true → s.channel.isOpen = true

/-- **A websocket shows the updates** of its subscriber, up to the first one that ends it, however the
publisher, the client and the network come between. -/
theorem websocket_shows_updates (hsink : sink.Documented) {s : Forwarding σ}
    (h : Reachable crates sink s) : Shows crates sink s := by
  have hsound := h.sound hsink
  refine ⟨?_, fun hphase hdelivers => ?_, fun hwaits => ?_, fun hstalled socket hsocket => ?_,
    fun hattached => ?_⟩
  · obtain ⟨texts, closing, hsent, hsub, htexts, hclosing⟩ := hsound.shaped.inOrder
    refine ⟨texts, closing, hsent, ?_, htexts, hclosing⟩
    have hfilter : texts.filter (fun m => !m.closes) = texts := by
      rw [List.filter_eq_self]
      intro m hmem
      rw [htexts m hmem]
      rfl
    rw [← filter_messages, ← hsound.attempted, ← hfilter]
    exact (hsub.trans (List.sublist_append_left _ _)).filter _
  · obtain ⟨reply, hsent, hreply, hclean⟩ := hsound.shaped.delivered hdelivers
    have hattempted := hsound.attempted
    rw [hphase, Phase.todo, List.append_nil] at hattempted
    rw [hattempted, upToClose_messages] at hsent
    refine ⟨reply, hsent, hreply, fun hne invoice hmem => ?_⟩
    rw [hattempted] at hclean
    cases hframe : closeFrame invoice with
    | none => rfl
    | some frame =>
        have hmessage : Message.close (some frame) ∈ messages crates invoice := by
          simp [messages, hframe]
        cases hclean hne _ (List.mem_flatMap.mpr ⟨invoice, hmem, hmessage⟩)
  · cases hstalled : s.stalled sink with
    | true => exact .inr rfl
    | false =>
        simp only [Forwarding.advance, hstalled, Bool.false_eq_true, if_false] at hwaits
        cases hphase : s.phase with
        | receiving =>
            rw [hphase] at hwaits
            cases hget : s.channel.sent[s.channel.received]? with
            | some invoice => simp [hget] at hwaits
            | none =>
                exact .inl (Nat.le_antisymm hsound.received_le (List.getElem?_eq_none_iff.mp hget))
        | ended => exact .inl (hsound.ended hphase).2
        | texting | closing | shutting | flushing => simp [hphase] at hwaits
  · rw [Forwarding.stalled, Bool.and_eq_true] at hstalled
    cases hphase : s.phase with
    | receiving | ended =>
        rw [hphase] at hstalled
        cases hstalled.1
    | texting | closing | shutting | flushing =>
        simp [Forwarding.advance, Forwarding.stalled, hsocket]
  · rcases hsound.subscribed with hended | hopen
    · rw [(hsound.ended hended).1] at hattached
      cases hattached
    · exact hopen

/-- A socket that has no failures of its own. -/
structure PlainSocket where
  sent : List Message
  /-- The client does not read. -/
  full : Bool

/-- The client may stop reading, and go on. -/
def plainSink : SplitSink PlainSocket where
  send m s := if s.sent.any Message.closes then (false, s) else (true, { s with sent := s.sent ++ [m] })
  close s :=
    if s.sent.any Message.closes then s else { s with sent := s.sent ++ [.close none] }
  waits := PlainSocket.full
  Meanwhile s s' := s'.sent = s.sent
  sent := PlainSocket.sent

/-- The plain socket is closed if a close message has gone out. -/
theorem plainSink_closed_iff {s : PlainSocket} :
    plainSink.Closed s ↔ s.sent.any Message.closes = true :=
  List.any_eq_true.symm

/-- It behaves as the crate documents. -/
theorem plainSink_documented : plainSink.Documented where
  send_ok m s h := by
    cases hclosed : s.sent.any Message.closes with
    | true =>
        simp only [plainSink, hclosed, if_true] at h
        cases h
    | false => simp only [plainSink, hclosed, Bool.false_eq_true, if_false]
  send m s := by
    cases hclosed : s.sent.any Message.closes with
    | true => exact .inl (by simp only [plainSink, hclosed, if_true])
    | false => exact .inr (by simp only [plainSink, hclosed, Bool.false_eq_true, if_false])
  send_closed m s h := by
    rw [plainSink_closed_iff] at h
    simp only [plainSink, h, if_true]
  close s := by
    rw [SplitSink.Closes, plainSink_closed_iff]
    cases hclosed : s.sent.any Message.closes with
    | true => exact .inl (by simp only [plainSink, hclosed, if_true])
    | false =>
        exact .inr ⟨nofun, none, by simp only [plainSink, hclosed, Bool.false_eq_true, if_false]⟩
  meanwhile s s' h := .inl h

/-- Crates that know no descriptions. -/
def plainCrates : ApiCrates where
  DecodeError := Unit
  InvalidUri := Unit
  JsonError := Unit
  TeraError := Unit
  engine := libraryEngine
  uriFromStr _ := .error ()
  toJson _ := .error ()
  fromJson _ := .error ()
  render _ := .error ()

/-- An update of an invoice that has expired is shown, and the socket is closed behind it, though the
client has not read for a while. -/
theorem websocket_shows_updates_expired :
    let expired : Invoice := .new "" ⟨0, 1⟩ 0 10 1 0 ""
    ∃ stalled s, Shows plainCrates plainSink stalled ∧ stalled.stalled plainSink = true ∧
      Shows plainCrates plainSink s ∧ s.phase = .receiving ∧ s.channel.sent = [expired] ∧
      plainSink.sent s.socket = shown plainCrates [expired] := by
  intro expired
  have hpublish : Step plainCrates plainSink (.start ⟨[], false⟩) { Forwarding.start ⟨[], false⟩ with
      channel := Channel.push {} expired } := .publish expired rfl rfl
  -- The task receives it and sends the text, and the client stops reading.
  have htext := ((Relation.ReflTransGen.single hpublish).tail (.task rfl)).tail (.task rfl)
  let text : Message := .text (.ofInvoice plainCrates expired)
  have hfull : plainSink.Meanwhile ⟨[text], false⟩ ⟨[text], true⟩ := rfl
  have hstalled := htext.tail (.meanwhile hfull)
  -- It reads again, and the task sends the close message and closes the socket.
  have hroom : plainSink.Meanwhile ⟨[text], true⟩ ⟨[text], false⟩ := rfl
  have hread := hstalled.tail (.meanwhile hroom)
  have hrun := ((hread.tail (.task rfl)).tail (.task rfl)).tail (.task rfl)
  exact ⟨_, _, websocket_shows_updates plainCrates plainSink plainSink_documented ⟨_, rfl, hstalled⟩,
    rfl, websocket_shows_updates plainCrates plainSink plainSink_documented ⟨_, rfl, hrun⟩,
    rfl, rfl, rfl⟩

end Websocket

end AcceptXmr
