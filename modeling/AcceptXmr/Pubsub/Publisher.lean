import AcceptXmr.Invoice
import AcceptXmr.Library.IndexMap
import Mathlib.Logic.Function.Basic

/-! # The publisher

`library/src/pubsub.rs`: subscribers of one invoice and of all invoices, each with a bounded
channel. Every method takes its lock, does one thing and releases it; `send_updates` calls them in a
loop and sends between them, so that a call of it is a machine whose steps other calls can come
between.

* **`advance`** — one step of a call of `send_updates`.
* **`Step`** — one step of the call or of something that happens beside it. -/

namespace AcceptXmr

/-- A sender's id in the publisher's maps. -/
abbrev SenderId := BitVec 128

/-- The sending half of a channel: channels are numbered in the order of their creation. -/
abbrev Sender := ℕ

/-- Max size of subscriber backlog. -/
def subscriptionBufferLen : ℕ := 2048

/-- A channel: whether its receiver still exists, all updates ever sent into it, oldest first, and
how many of them have been received. -/
structure Channel where
  isOpen : Bool := true
  sent : List Invoice := []
  received : ℕ := 0

/-- Whether a send has to wait. -/
def Channel.isFull (self : Channel) : Bool :=
  decide (subscriptionBufferLen ≤ self.sent.length - self.received)

/-- `Sender::send`, once it does not have to wait any more. -/
def Channel.push (self : Channel) (invoice : Invoice) : Channel :=
  { self with sent := self.sent ++ [invoice] }

/-- `Subscriber::recv`. -/
def Channel.recv (self : Channel) : Channel :=
  if self.received < self.sent.length then { self with received := self.received + 1 } else self

/-- The receiver is dropped. -/
def Channel.close (self : Channel) : Channel := { self with isOpen := false }

/-- A receive leaves the channel open. -/
@[simp] theorem Channel.recv_isOpen (self : Channel) : self.recv.isOpen = self.isOpen := by
  unfold Channel.recv
  split <;> rfl

/-- A receive takes nothing back of what has been sent. -/
@[simp] theorem Channel.recv_sent (self : Channel) : self.recv.sent = self.sent := by
  unfold Channel.recv
  split <;> rfl

/-! ## The publisher's maps -/

/-- The publisher. -/
structure Publisher where
  invoiceSubs : InvoiceId → Option (IndexMap SenderId Sender)
  globalSubs : IndexMap SenderId Sender

namespace Publisher

/-- `Publisher::new`. -/
def new : Publisher := ⟨fun _ => none, .empty⟩

/-- The subscribers of one invoice, or with `none` those of all invoices. -/
def subs (self : Publisher) : Option InvoiceId → Option (IndexMap SenderId Sender)
  | some id => self.invoiceSubs id
  | none => some self.globalSubs

/-- Change one of the maps, if it is there. -/
def modify (self : Publisher) (f : IndexMap SenderId Sender → IndexMap SenderId Sender) :
    Option InvoiceId → Publisher
  | some id => { self with
      invoiceSubs := Function.update self.invoiceSubs id ((self.invoiceSubs id).map f) }
  | none => { self with globalSubs := f self.globalSubs }

/-- `insert_invoice`. -/
def insertInvoice (self : Publisher) (invoiceId : InvoiceId) : Publisher :=
  { self with invoiceSubs := Function.update self.invoiceSubs invoiceId (some .empty) }

/-- `remove_invoice`. -/
def removeInvoice (self : Publisher) (invoiceId : InvoiceId) : Publisher :=
  { self with invoiceSubs := Function.update self.invoiceSubs invoiceId none }

/-- `get_sender_by_index`. -/
def getSenderByIndex (self : Publisher) (invoiceId : Option InvoiceId) (index : ℕ) :
    Option (SenderId × Sender) :=
  (self.subs invoiceId).bind fun map => map.getIndex index

/-- `remove_sender`. -/
def removeSender (self : Publisher) (invoiceId : Option InvoiceId) (senderId : SenderId) :
    Publisher :=
  self.modify (fun map => map.swapRemove senderId) invoiceId

/-- The registered senders, in order. -/
def senders (self : Publisher) (invoiceId : Option InvoiceId) : List (SenderId × Sender) :=
  ((self.subs invoiceId).map IndexMap.entries).getD []

/-- A change of one map leaves the others alone. -/
theorem subs_modify (self : Publisher) (f : IndexMap SenderId Sender → IndexMap SenderId Sender)
    (target target' : Option InvoiceId) :
    (self.modify f target).subs target'
      = if target' = target then (self.subs target).map f else self.subs target' := by
  cases target with
  | none =>
      cases target' with
      | none => rfl
      | some id' => rfl
  | some id =>
      cases target' with
      | none => rfl
      | some id' =>
          by_cases h : id' = id
          · simp [modify, subs, h]
          · simp [modify, subs, h]

/-- Changing one map leaves the senders of the others alone. -/
theorem senders_modify_of_ne (self : Publisher)
    (f : IndexMap SenderId Sender → IndexMap SenderId Sender) {target target' : Option InvoiceId}
    (h : target' ≠ target) : (self.modify f target).senders target' = self.senders target' := by
  rw [senders, subs_modify, if_neg h, senders]

/-- Senders are looked up by their place in the list of the map. -/
theorem getSenderByIndex_eq (self : Publisher) (target : Option InvoiceId) (index : ℕ) :
    self.getSenderByIndex target index = (self.senders target)[index]? := by
  unfold getSenderByIndex senders
  cases self.subs target <;> rfl

/-- **Removing a sender** keeps those before it and permutes those behind it. -/
theorem senders_removeSender {self : Publisher} {target : Option InvoiceId}
    {front back : List (SenderId × Sender)} {id : SenderId} {sender : Sender}
    (h : self.senders target = front ++ (id, sender) :: back) :
    ∃ rest, rest.Perm back ∧ (self.removeSender target id).senders target = front ++ rest := by
  unfold senders at h ⊢
  rw [removeSender, subs_modify, if_pos rfl]
  cases hsubs : self.subs target with
  | none => simp [hsubs] at h
  | some map =>
      rw [hsubs] at h
      exact IndexMap.entries_swapRemove h

end Publisher

/-! ## Publisher and channels -/

/-- The publisher with the channels that have been created. -/
structure Pubsub where
  publisher : Publisher
  channels : Sender → Channel
  created : ℕ

namespace Pubsub

/-- The registered senders. -/
abbrev senders (self : Pubsub) (target : Option InvoiceId) : List (SenderId × Sender) :=
  self.publisher.senders target

/-- Whether the receiver of a registered sender still exists. -/
def IsOpen (self : Pubsub) (e : SenderId × Sender) : Bool := (self.channels e.2).isOpen

/-- Register a new channel. -/
def register (self : Pubsub) (target : Option InvoiceId) (senderId : SenderId) : Pubsub :=
  ⟨self.publisher.modify (fun map => map.insert senderId self.created) target, self.channels,
    self.created + 1⟩

/-- `subscribe`. The id is drawn at random. -/
def subscribe (self : Pubsub) (invoiceId : InvoiceId) (senderId : SenderId) :
    Option Sender × Pubsub :=
  match self.publisher.invoiceSubs invoiceId with
  | none => (none, { self with created := self.created + 1 })
  | some _ => (some self.created, self.register (some invoiceId) senderId)

/-- `subscribe_all`. -/
def subscribeAll (self : Pubsub) (senderId : SenderId) : Sender × Pubsub :=
  (self.created, self.register none senderId)

/-- Change one channel. -/
def onChannel (self : Pubsub) (sender : Sender) (f : Channel → Channel) : Pubsub :=
  { self with channels := Function.update self.channels sender (f (self.channels sender)) }

/-- What is done to the channel of a sender. -/
@[simp] theorem onChannel_self (self : Pubsub) (sender : Sender) (f : Channel → Channel) :
    (self.onChannel sender f).channels sender = f (self.channels sender) :=
  Function.update_self ..

/-- It is done to no other channel. -/
theorem onChannel_of_ne (self : Pubsub) {sender sender' : Sender} (f : Channel → Channel)
    (h : sender' ≠ sender) :
    (self.onChannel sender f).channels sender' = self.channels sender' :=
  Function.update_of_ne h ..

end Pubsub

/-! ## `send_updates` -/

/-- Where a call of `send_updates` stands: `target` says in which of its two loops. -/
inductive Phase where
  /-- At the head of the loop. -/
  | fetch (target : Option InvoiceId) (index : ℕ) (closed : Bool)
  /-- In the send to a sender that was fetched. -/
  | send (target : Option InvoiceId) (index : ℕ) (closed : Bool) (id : SenderId) (sender : Sender)
  /-- Behind the send. -/
  | settle (target : Option InvoiceId) (index : ℕ) (closed : Bool) (id : SenderId)
  | done
  deriving DecidableEq, Repr

/-- The state of a call. -/
structure Sending where
  pubsub : Pubsub
  phase : Phase

namespace Sending

/-- A call starts with the subscribers of the invoice. -/
def start (pubsub : Pubsub) (invoice : Invoice) : Sending :=
  ⟨pubsub, .fetch (some invoice.id) 0 false⟩

/-- **One step of `send_updates`**. None if the call is over, or has to wait for room in the channel
of an open subscriber. `closed` is not reset within a loop. -/
def advance (invoice : Invoice) (self : Sending) : Option Sending :=
  match self.phase with
  | .fetch target index closed =>
      -- The read lock is held for this step only.
      match self.pubsub.publisher.getSenderByIndex target index with
      | some (id, sender) => some { self with phase := .send target index closed id sender }
      | none =>
          match target with
          -- First the subscribers of the invoice, then those of all invoices.
          | some _ => some { self with phase := .fetch none 0 false }
          | none => some { self with phase := .done }
  | .send target index closed id sender =>
      if (self.pubsub.channels sender).isOpen = false then
        some { self with phase := .settle target index true id }
      -- `send` waits for room; nothing else of the call goes on meanwhile.
      else if (self.pubsub.channels sender).isFull then none
      else some ⟨self.pubsub.onChannel sender fun channel => channel.push invoice,
        .settle target index closed id⟩
  | .settle target index closed id =>
      if closed then
        some ⟨{ self.pubsub with publisher := self.pubsub.publisher.removeSender target id },
          -- The last sender has come to this position, so that the index stays.
          .fetch target index closed⟩
      else some { self with phase := .fetch target (index + 1) closed }
  | .done => none

/-- What can happen while a call of `send_updates` runs. -/
inductive Label where
  | call
  | subscribe
  | recv
  | close
  deriving DecidableEq, Repr

/-- **A step of the call or beside it.** New sender ids are distinct from those in use. -/
inductive Step (invoice : Invoice) : Label → Sending → Sending → Prop where
  | call {c c' : Sending} (h : c.advance invoice = some c') : Step invoice .call c c'
  | subscribe {c : Sending} (invoiceId : InvoiceId) (senderId : SenderId)
      (hfresh : senderId ∉ (c.pubsub.senders (some invoiceId)).map Prod.fst) :
      Step invoice .subscribe c { c with pubsub := (c.pubsub.subscribe invoiceId senderId).2 }
  | subscribeAll {c : Sending} (senderId : SenderId)
      (hfresh : senderId ∉ (c.pubsub.senders none).map Prod.fst) :
      Step invoice .subscribe c { c with pubsub := (c.pubsub.subscribeAll senderId).2 }
  | recv {c : Sending} (sender : Sender) (hsender : sender < c.pubsub.created) :
      Step invoice .recv c { c with pubsub := c.pubsub.onChannel sender Channel.recv }
  | close {c : Sending} (sender : Sender) (hsender : sender < c.pubsub.created) :
      Step invoice .close c { c with pubsub := c.pubsub.onChannel sender Channel.close }

end Sending

/-! ## What the steps do -/

namespace Pubsub

/-- **What registering does to the senders**: nothing, or a new channel goes to the end of one map.
-/
structure Registers (s s' : Pubsub) (target : Option InvoiceId) (added : List (SenderId × Sender)) :
    Prop where
  channels : s'.channels = s.channels
  created : s'.created = s.created + 1
  senders : ∀ target', s'.senders target'
    = s.senders target' ++ if target' = target then added else []
  added : added = [] ∨ ∃ id, added = [(id, s.created)]

section Registers

variable {s s' : Pubsub} {target : Option InvoiceId} {added : List (SenderId × Sender)}

/-- Only the new channel is added, and only to one target. -/
theorem Registers.sender_eq (h : Registers s s' target added) {target' : Option InvoiceId}
    {e : SenderId × Sender} (he : e ∈ if target' = target then added else []) :
    target' = target ∧ e.2 = s.created := by
  split at he
  · rename_i heq
    rcases h.added with hnil | ⟨id, hone⟩
    · rw [hnil] at he
      cases he
    · rw [hone, List.mem_singleton] at he
      exact ⟨heq, by rw [he]⟩
  · cases he

/-- At most one sender is added at a time. -/
theorem Registers.length_le (h : Registers s s' target added) : added.length ≤ 1 := by
  rcases h.added with hnil | ⟨id, hone⟩
  · rw [hnil]
    exact Nat.zero_le 1
  · rw [hone]
    exact Nat.le_refl 1

/-- A sender was there before, or it is the new channel. -/
theorem Registers.mem_senders (h : Registers s s' target added) {target' : Option InvoiceId}
    {e : SenderId × Sender} (he : e ∈ s'.senders target') :
    e ∈ s.senders target' ∨ target' = target ∧ e.2 = s.created := by
  rw [h.senders, List.mem_append] at he
  exact he.imp id h.sender_eq

end Registers

/-- A fresh sender is added behind the others of its map, with a channel of its own. -/
theorem register_registers {s : Pubsub} {target : Option InvoiceId} {senderId : SenderId}
    (hfresh : senderId ∉ (s.senders target).map Prod.fst) {map : IndexMap SenderId Sender}
    (hmap : s.publisher.subs target = some map) :
    Registers s (s.register target senderId) target [(senderId, s.created)] := by
  refine ⟨rfl, rfl, fun target' => ?_, .inr ⟨senderId, rfl⟩⟩
  simp only [Pubsub.senders, register]
  by_cases h : target' = target
  · subst h
    have hentries : map.entries = s.senders target' := by
      simp [Pubsub.senders, Publisher.senders, hmap]
    rw [Publisher.senders, Publisher.subs_modify, if_pos rfl, hmap, Option.map_some,
      Option.map_some, Option.getD_some, if_pos rfl, IndexMap.entries_insert (by rwa [hentries]),
      hentries]
  · rw [Publisher.senders_modify_of_ne _ _ h, if_neg h, List.append_nil]

/-- `subscribe` registers the new sender for its invoice, or nothing if there is no map for the invoice.
-/
theorem subscribe_registers {s : Pubsub} {invoiceId : InvoiceId} {senderId : SenderId}
    (hfresh : senderId ∉ (s.senders (some invoiceId)).map Prod.fst) :
    ∃ added, Registers s (s.subscribe invoiceId senderId).2 (some invoiceId) added := by
  cases hsubs : s.publisher.invoiceSubs invoiceId with
  | none =>
      simp only [Pubsub.subscribe, hsubs]
      exact ⟨[], rfl, rfl, fun target' => by rw [ite_self, List.append_nil], .inl rfl⟩
  | some map =>
      simp only [Pubsub.subscribe, hsubs]
      exact ⟨_, register_registers hfresh hsubs⟩

end Pubsub

namespace Sending

variable {invoice : Invoice} {c c' : Sending}

/-- The step of subscribing. -/
theorem Step.registers (h : Step invoice .subscribe c c') :
    c'.phase = c.phase ∧ ∃ target added, Pubsub.Registers c.pubsub c'.pubsub target added := by
  cases h with
  | subscribe invoiceId senderId hfresh =>
      exact ⟨rfl, some invoiceId, Pubsub.subscribe_registers hfresh⟩
  | subscribeAll senderId hfresh =>
      exact ⟨rfl, none, _, Pubsub.register_registers hfresh rfl⟩

/-- The steps of the subscribers: a channel changes, but not what has been sent into it. -/
theorem Step.onChannel {label : Label} (h : Step invoice label c c')
    (hlabel : label = .recv ∨ label = .close) :
    c'.phase = c.phase ∧ c'.pubsub.publisher = c.pubsub.publisher ∧
      c'.pubsub.created = c.pubsub.created ∧
      ∀ sender, (c'.pubsub.channels sender).sent = (c.pubsub.channels sender).sent ∧
        ((c'.pubsub.channels sender).isOpen = true → (c.pubsub.channels sender).isOpen = true) ∧
        (label = .recv →
          (c'.pubsub.channels sender).isOpen = (c.pubsub.channels sender).isOpen) := by
  -- Neither receiving nor closing adds to what has been sent into a channel.
  have honly : ∀ (f : Channel → Channel) (sender sender' : Sender),
      (∀ channel, (f channel).sent = channel.sent) →
      ((c.pubsub.onChannel sender f).channels sender').sent = (c.pubsub.channels sender').sent := by
    intro f sender sender' hf
    by_cases hs : sender' = sender
    · rw [hs, Pubsub.onChannel_self, hf]
    · rw [Pubsub.onChannel_of_ne _ _ hs]
  cases h with
  | recv sender _ =>
      have hopen : ∀ sender', ((c.pubsub.onChannel sender Channel.recv).channels sender').isOpen
          = (c.pubsub.channels sender').isOpen := by
        intro sender'
        by_cases hs : sender' = sender
        · rw [hs, Pubsub.onChannel_self, Channel.recv_isOpen]
        · rw [Pubsub.onChannel_of_ne _ _ hs]
      exact ⟨rfl, rfl, rfl, fun sender' => ⟨honly _ _ _ Channel.recv_sent,
        fun h => (hopen sender').symm.trans h, fun _ => hopen sender'⟩⟩
  | close sender _ =>
      refine ⟨rfl, rfl, rfl, fun sender' => ⟨honly _ _ _ fun _ => rfl, fun h => ?_, nofun⟩⟩
      by_cases hs : sender' = sender
      · rw [hs] at h
        simp [Channel.close] at h
      · exact Pubsub.onChannel_of_ne _ _ hs ▸ h
  | call _ | subscribe _ _ _ | subscribeAll _ _ => simp at hlabel

/-- **What one step of the call does.** -/
inductive Advances (invoice : Invoice) (c : Sending) : Sending → Prop where
  | fetched {target : Option InvoiceId} {index : ℕ} {closed : Bool} {id : SenderId}
      {sender : Sender} (hphase : c.phase = .fetch target index closed)
      (hget : (c.pubsub.senders target)[index]? = some (id, sender)) :
      Advances invoice c { c with phase := .send target index closed id sender }
  | invoiceDone {invoiceId : InvoiceId} {index : ℕ} {closed : Bool}
      (hphase : c.phase = .fetch (some invoiceId) index closed)
      (hend : (c.pubsub.senders (some invoiceId)).length ≤ index) :
      Advances invoice c { c with phase := .fetch none 0 false }
  | globalDone {index : ℕ} {closed : Bool} (hphase : c.phase = .fetch none index closed)
      (hend : (c.pubsub.senders none).length ≤ index) :
      Advances invoice c { c with phase := .done }
  | refused {target : Option InvoiceId} {index : ℕ} {closed : Bool} {id : SenderId}
      {sender : Sender} (hphase : c.phase = .send target index closed id sender)
      (hclosed : (c.pubsub.channels sender).isOpen = false) :
      Advances invoice c { c with phase := .settle target index true id }
  | sent {target : Option InvoiceId} {index : ℕ} {closed : Bool} {id : SenderId}
      {sender : Sender} (hphase : c.phase = .send target index closed id sender)
      (hopen : (c.pubsub.channels sender).isOpen = true) :
      Advances invoice c ⟨c.pubsub.onChannel sender fun channel => channel.push invoice,
        .settle target index closed id⟩
  | removed {target : Option InvoiceId} {index : ℕ} {id : SenderId}
      (hphase : c.phase = .settle target index true id) :
      Advances invoice c
        ⟨{ c.pubsub with publisher := c.pubsub.publisher.removeSender target id },
          .fetch target index true⟩
  | next {target : Option InvoiceId} {index : ℕ} {id : SenderId}
      (hphase : c.phase = .settle target index false id) :
      Advances invoice c { c with phase := .fetch target (index + 1) false }

/-- A step of `send_updates` is one of those listed in `Advances`. -/
theorem advance_cases (h : c.advance invoice = some c') : Advances invoice c c' := by
  unfold advance at h
  split at h
  · -- The read lock: fetch the sender at the position.
    rename_i target index closed hphase
    rw [Publisher.getSenderByIndex_eq] at h
    split at h
    · rename_i id sender hget
      cases h
      exact .fetched hphase hget
    · rename_i hget
      rw [List.getElem?_eq_none_iff] at hget
      split at h
      · cases h
        exact .invoiceDone hphase hget
      · cases h
        exact .globalDone hphase hget
  · rename_i hphase
    split at h
    · rename_i hclosed
      cases h
      exact .refused hphase hclosed
    · rename_i hopen
      split at h
      · cases h
      · cases h
        exact .sent hphase (by simpa using hopen)
  · rename_i hphase
    split at h
    · rename_i hclosed
      cases h
      subst hclosed
      exact .removed hphase
    · rename_i hclosed
      cases h
      rw [Bool.not_eq_true] at hclosed
      subst hclosed
      exact .next hphase
  · cases h

end Sending

end AcceptXmr
