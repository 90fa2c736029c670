import AcceptXmr.Gateway
import AcceptXmr.Gateway.Calls
import AcceptXmr.Pubsub.Removal

/-! # Subscriptions across starts and restarts

A gateway with its subscribers: calls made one after the other, `run` and `stop`, and scans that
publish updates in between. `Scanner::new` registers every stored invoice with the publisher, in
place of what was registered before, so that a `run` cuts off the subscribers of all stored
invoices.

* **`run`** — `PaymentGateway::run`, up to the first scan.
* **`subscribers_survive`** — subscribers stay registered and get their updates, as long as no `run`
  finds an open subscriber of a stored invoice. -/

namespace AcceptXmr

open Sending

/-! ## Registering and removing invoices -/

namespace Publisher

/-- Register some invoices, one after the other. -/
def insertInvoices (self : Publisher) (ids : List InvoiceId) : Publisher :=
  ids.foldl Publisher.insertInvoice self

/-- Registering an invoice begins with an empty map, also where there has been one. -/
theorem senders_insertInvoice (self : Publisher) (id : InvoiceId) (target : Option InvoiceId) :
    (self.insertInvoice id).senders target = if target = some id then [] else self.senders target := by
  cases target with
  | none => rfl
  | some id' =>
      simp only [senders, subs, insertInvoice, Option.some.injEq]
      by_cases heq : id' = id
      · subst heq
        rw [Function.update_self, if_pos rfl]
        rfl
      · rw [Function.update_of_ne heq, if_neg heq]

/-- A removed invoice has no senders any more. -/
theorem senders_removeInvoice (self : Publisher) (id : InvoiceId) (target : Option InvoiceId) :
    (self.removeInvoice id).senders target = if target = some id then [] else self.senders target := by
  cases target with
  | none => rfl
  | some id' =>
      simp only [senders, subs, removeInvoice, Option.some.injEq]
      by_cases heq : id' = id
      · subst heq
        rw [Function.update_self, if_pos rfl]
        rfl
      · rw [Function.update_of_ne heq, if_neg heq]

/-- **Registering invoices** takes away their subscribers. -/
theorem senders_insertInvoices (ids : List InvoiceId) (self : Publisher)
    (target : Option InvoiceId) :
    (self.insertInvoices ids).senders target
      = if ∃ id ∈ ids, target = some id then [] else self.senders target := by
  induction ids generalizing self with
  | nil => simp [insertInvoices]
  | cons id ids ih =>
      rw [insertInvoices, List.foldl_cons]
      refine (ih (self.insertInvoice id)).trans ?_
      rw [senders_insertInvoice]
      by_cases hrest : ∃ id' ∈ ids, target = some id'
      · obtain ⟨id', hmem, heq⟩ := hrest
        rw [if_pos ⟨id', hmem, heq⟩, if_pos ⟨id', List.mem_cons_of_mem _ hmem, heq⟩]
      · rw [if_neg hrest]
        refine if_congr ⟨fun heq => ⟨id, List.mem_cons_self, heq⟩, ?_⟩ rfl rfl
        rintro ⟨id', hmem, heq⟩
        rcases List.mem_cons.mp hmem with rfl | hmem
        · exact heq
        · exact absurd ⟨id', hmem, heq⟩ hrest

/-- The ids that are registered afterwards. -/
theorem isSome_insertInvoices {ids : List InvoiceId} {self : Publisher} {id : InvoiceId}
    (h : ((self.insertInvoices ids).invoiceSubs id).isSome = true) :
    (self.invoiceSubs id).isSome = true ∨ id ∈ ids := by
  induction ids generalizing self with
  | nil => exact .inl h
  | cons id' ids ih =>
      have h : (((self.insertInvoice id').insertInvoices ids).invoiceSubs id).isSome = true := h
      rcases ih h with h | h
      · by_cases heq : id = id'
        · exact .inr (heq ▸ List.mem_cons_self)
        · simp only [insertInvoice, Function.update_of_ne heq] at h
          exact .inl h
      · exact .inr (List.mem_cons_of_mem _ h)

/-- Changing a map leaves the registered ids alone. -/
theorem isSome_modify (self : Publisher) (f : IndexMap SenderId Sender → IndexMap SenderId Sender)
    (target : Option InvoiceId) (id : InvoiceId) :
    ((self.modify f target).invoiceSubs id).isSome = (self.invoiceSubs id).isSome := by
  cases target with
  | none => rfl
  | some id' =>
      by_cases heq : id = id'
      · subst heq
        simp [modify]
      · simp [modify, Function.update_of_ne heq]

/-- A sender stands in the map of a registered invoice. -/
theorem isSome_of_mem_senders {self : Publisher} {id : InvoiceId} {e : SenderId × Sender}
    (h : e ∈ self.senders (some id)) : (self.invoiceSubs id).isSome = true := by
  cases hsubs : self.invoiceSubs id with
  | none =>
      simp only [senders, subs, hsubs, Option.map_none, Option.getD_none] at h
      cases h
  | some map => rfl

end Publisher

/-! ## Calls from beginning to end -/

/-- **A whole call**, with nothing in between. -/
def Call.Completes (S : Backend) (inner : PaymentGatewayInner) (call call' : Call)
    (inner' : PaymentGatewayInner) : Prop :=
  call'.inProgress = false ∧
    Relation.ReflTransGen (fun p p' : Call × PaymentGatewayInner =>
      ∃ env, p.1.advance S env p.2 = some p') (call, inner) (call', inner')

/-- What every step of a call preserves holds at its end. -/
theorem Call.Completes.invariant {S : Backend} {inner inner' : PaymentGatewayInner}
    {call call' : Call} {P : PaymentGatewayInner → Call → Prop}
    (h : Call.Completes S inner call call' inner') (hstart : P inner call)
    (hstep : ∀ env c c' i i', P i c → Call.Advances i env c c' i' → P i' c') : P inner' call' := by
  have hall : ∀ p : Call × PaymentGatewayInner, Relation.ReflTransGen
      (fun p p' : Call × PaymentGatewayInner => ∃ env, p.1.advance S env p.2 = some p')
        (call, inner) p → P p.2 p.1 := by
    intro p hp
    induction hp with
    | refl => exact hstart
    | tail _ hlast ih =>
        obtain ⟨env, hadvance⟩ := hlast
        exact hstep env _ _ _ _ ih (Call.advance_cases hadvance)
  exact hall _ h.2

/-- What a call of `new_invoice` has done so far. -/
def NewInvoiceSoFar (inner inner' : PaymentGatewayInner) : Call → Prop
  | .newInvoice _ | .addressed _ _ _ | .created _ | .newInvoiceReturned (.error _) | .panicked =>
      inner'.shared.store.getIds = inner.shared.store.getIds ∧ inner'.publisher = inner.publisher
  | .inserted id =>
      id ∉ inner.shared.store.getIds ∧
        inner'.shared.store.getIds = inner.shared.store.getIds ++ [id] ∧
        inner'.publisher = inner.publisher
  | .newInvoiceReturned (.ok id) =>
      id ∉ inner.shared.store.getIds ∧
        inner'.shared.store.getIds = inner.shared.store.getIds ++ [id] ∧
        inner'.publisher = inner.publisher.insertInvoice id
  | _ => False

/-- Each step of `new_invoice` goes from one of these states to another. -/
theorem NewInvoiceSoFar.advances {inner inner₁ inner₂ : PaymentGatewayInner} {env : CallEnv}
    {call call' : Call} (h : NewInvoiceSoFar inner inner₁ call)
    (hadvances : Call.Advances inner₁ env call call' inner₂) :
    NewInvoiceSoFar inner inner₂ call' := by
  cases hadvances with
  | addressed hremove | panicked | created creationHeight hheight | unanswered e
  | notInserted e hrefused => exact h
  | inserted hfault hinsert =>
      obtain ⟨hfresh, hstore⟩ := Store.insertInvoice_ok hinsert
      refine ⟨h.1 ▸ hfresh, ?_, h.2⟩
      rw [← h.1]
      simp only [Store.getIds, hstore, List.map_append, List.map_singleton]
  | registered => exact ⟨h.1, h.2.1, by rw [← h.2.2]⟩
  | removed hfault hstored | notRemoved result | putBack | unregistered => cases h

/-- **A whole call of `new_invoice`**: nothing, or an invoice is stored under a new id and
registered. -/
theorem Call.Completes.newInvoice {S : Backend} {inner inner' : PaymentGatewayInner}
    {args : InvoiceArgs} {call' : Call} (h : Call.Completes S inner (.newInvoice args) call' inner') :
    (inner'.shared.store.getIds = inner.shared.store.getIds ∧ inner'.publisher = inner.publisher) ∨
    ∃ id, id ∉ inner.shared.store.getIds ∧
      inner'.shared.store.getIds = inner.shared.store.getIds ++ [id] ∧
      inner'.publisher = inner.publisher.insertInvoice id := by
  have hend := h.invariant (P := NewInvoiceSoFar inner) ⟨rfl, rfl⟩
    fun _ _ _ _ _ hsofar hadvances => hsofar.advances hadvances
  have hover := h.1
  cases call' with
  | newInvoiceReturned result =>
      cases result with
      | error e => exact .inl hend
      | ok id => exact .inr ⟨id, hend⟩
  | panicked => exact .inl hend
  | removeInvoiceReturned result => cases hend
  | _ => cases hover

/-- What a call of `remove_invoice` has done so far. -/
def RemoveInvoiceSoFar (id : InvoiceId) (inner inner' : PaymentGatewayInner) : Call → Prop
  | .removeInvoice id' => id' = id ∧
      inner'.shared.store.getIds = inner.shared.store.getIds ∧ inner'.publisher = inner.publisher
  | .removed id' _ | .putBack id' _ => id' = id ∧
      inner'.shared.store.getIds = inner.shared.store.getIds.filter (fun id' => decide (id' ≠ id)) ∧
        inner'.publisher = inner.publisher
  | .removeInvoiceReturned _ =>
      (inner'.shared.store.getIds = inner.shared.store.getIds ∧
        inner'.publisher = inner.publisher) ∨
      (inner'.shared.store.getIds = inner.shared.store.getIds.filter (fun id' => decide (id' ≠ id)) ∧
        inner'.publisher = inner.publisher.removeInvoice id)
  | _ => False

/-- Each step of `remove_invoice` does so as well. -/
theorem RemoveInvoiceSoFar.advances {id : InvoiceId} {inner inner₁ inner₂ : PaymentGatewayInner}
    {env : CallEnv} {call call' : Call} (h : RemoveInvoiceSoFar id inner inner₁ call)
    (hadvances : Call.Advances inner₁ env call call' inner₂) :
    RemoveInvoiceSoFar id inner inner₂ call' := by
  cases hadvances with
  | addressed hremove | panicked | created creationHeight hheight | unanswered e
  | notInserted e hrefused | inserted hfault hinsert | registered => cases h
  | removed hfault hstored =>
      obtain ⟨rfl, hids, hpublisher⟩ := h
      refine ⟨rfl, ?_, hpublisher⟩
      rw [← hids]
      simp only [Store.getIds, Store.removeInvoice, List.filter_map]
      rfl
  | notRemoved result => exact .inl ⟨h.2.1, h.2.2⟩
  | putBack => exact h
  | unregistered =>
      obtain ⟨rfl, hids, hpublisher⟩ := h
      exact .inr ⟨hids, by rw [← hpublisher]⟩

/-- **A whole call of `remove_invoice`**: nothing, or an invoice goes from store and publisher. -/
theorem Call.Completes.removeInvoice {S : Backend} {inner inner' : PaymentGatewayInner}
    {id : InvoiceId} {call' : Call} (h : Call.Completes S inner (.removeInvoice id) call' inner') :
    (inner'.shared.store.getIds = inner.shared.store.getIds ∧ inner'.publisher = inner.publisher) ∨
    (inner'.shared.store.getIds = inner.shared.store.getIds.filter (fun id' => decide (id' ≠ id)) ∧
      inner'.publisher = inner.publisher.removeInvoice id) := by
  have hend := h.invariant (P := RemoveInvoiceSoFar id inner) ⟨rfl, rfl, rfl⟩
    fun _ _ _ _ _ hsofar hadvances => hsofar.advances hadvances
  have hover := h.1
  cases call' with
  | removeInvoiceReturned result => exact hend
  | newInvoiceReturned result => cases hend
  | panicked => cases hend
  | _ => cases hover

/-! ## A gateway with its subscribers -/

/-- A gateway, the channels of its subscribers, and its scanner while it runs. -/
structure OpenGateway where
  inner : PaymentGatewayInner
  channels : Sender → Channel
  created : ℕ
  scanner : Option Scanner

namespace OpenGateway

/-- A gateway as `build` makes it. -/
def build (store : Store) (viewpair : SubIndex → String) (majorIndex : UInt32) (rng : List ℕ) :
    OpenGateway :=
  ⟨.build store viewpair majorIndex rng .new 0, fun _ => {}, 0, none⟩

/-- Publisher and channels. -/
def pubsub (self : OpenGateway) : Pubsub := ⟨self.inner.publisher, self.channels, self.created⟩

/-- The gateway with another publisher and other channels. -/
def withPubsub (self : OpenGateway) (pubsub : Pubsub) : OpenGateway :=
  { self with
    inner := { self.inner with publisher := pubsub.publisher }
    channels := pubsub.channels
    created := pubsub.created }

/-- The ids of the stored invoices. -/
abbrev getIds (self : OpenGateway) : List InvoiceId := self.inner.shared.store.getIds

/-- **`run`**, up to the first scan. `Scanner::new` registers all stored invoices once the daemon
has told its height, also when it fails afterwards because a cache cannot be filled. -/
def run (client : MonerodClient) (blockCacheSize : ℕ) (initialHeight : Option ℕ)
    (self : OpenGateway) : Except AcceptXmrError Unit × OpenGateway :=
  match self.scanner with
  | some _ => (.error .alreadyRunning, self)
  | none =>
      match client.daemonHeight with
      | .error e => (.error (.scanner (.rpc e)), self)
      | .ok daemonHeight =>
          -- Every stored id gets an empty list of subscribers, also one that has some.
          let self := { self with inner := { self.inner with
            cachedDaemonHeight := daemonHeight
            publisher := self.inner.publisher.insertInvoices self.getIds } }
          match Scanner.new client self.inner.shared.store blockCacheSize initialHeight with
          | .error e => (.error (.scanner e), self)
          | .ok scanner => (.ok (), { self with scanner := some scanner })

/-- `stop`: the scan in progress is finished. -/
def stop (self : OpenGateway) : OpenGateway := { self with scanner := none }

/-- What can happen to a gateway, one after the other. -/
inductive Event where
  | newInvoice (args : InvoiceArgs)
  | removeInvoice (id : InvoiceId)
  | subscribe
  | recv
  | close
  | run (client : MonerodClient)
  | stop
  | scan (updates : List Invoice)

/-- The updates that an event publishes. -/
def Event.updates : Event → List Invoice
  | .scan updates => updates
  | _ => []

/-- Some calls of `send_updates`, one after the other, each begun in a state that is allowed. -/
inductive SendsAll (maySend : Pubsub → Invoice → Prop) : Pubsub → List Invoice → Pubsub → Prop where
  | nil (s : Pubsub) : SendsAll maySend s [] s
  | cons {s s' s'' : Pubsub} {invoice : Invoice} {rest : List Invoice} (hmay : maySend s invoice)
      (hsends : Sends invoice s s') (hrest : SendsAll maySend s' rest s'') :
      SendsAll maySend s (invoice :: rest) s''

/-- **One event.** `mayRun` and `maySend` say in which states `run` and `send_updates` are called.
-/
inductive Step (S : Backend) (mayRun : OpenGateway → MonerodClient → Prop)
    (maySend : Pubsub → Invoice → Prop) : Event → OpenGateway → OpenGateway → Prop where
  | newInvoice {s : OpenGateway} {args : InvoiceArgs} {call' : Call} {inner : PaymentGatewayInner}
      (h : Call.Completes S s.inner (.newInvoice args) call' inner) :
      Step S mayRun maySend (.newInvoice args) s { s with inner := inner }
  | removeInvoice {s : OpenGateway} {id : InvoiceId} {call' : Call} {inner : PaymentGatewayInner}
      (h : Call.Completes S s.inner (.removeInvoice id) call' inner) :
      Step S mayRun maySend (.removeInvoice id) s { s with inner := inner }
  | subscribe {s : OpenGateway} (id : InvoiceId) (senderId : SenderId)
      (hfresh : senderId ∉ (s.pubsub.senders (some id)).map Prod.fst) :
      Step S mayRun maySend .subscribe s (s.withPubsub (s.pubsub.subscribe id senderId).2)
  | subscribeAll {s : OpenGateway} (senderId : SenderId)
      (hfresh : senderId ∉ (s.pubsub.senders none).map Prod.fst) :
      Step S mayRun maySend .subscribe s (s.withPubsub (s.pubsub.subscribeAll senderId).2)
  | recv {s : OpenGateway} (sender : Sender) (hsender : sender < s.created) :
      Step S mayRun maySend .recv s (s.withPubsub (s.pubsub.onChannel sender Channel.recv))
  | close {s : OpenGateway} (sender : Sender) (hsender : sender < s.created) :
      Step S mayRun maySend .close s (s.withPubsub (s.pubsub.onChannel sender Channel.close))
  | run {s : OpenGateway} (client : MonerodClient) (blockCacheSize : ℕ) (initialHeight : Option ℕ)
      (hmay : mayRun s client) :
      Step S mayRun maySend (.run client) s (s.run client blockCacheSize initialHeight).2
  | stop {s : OpenGateway} : Step S mayRun maySend .stop s s.stop
  | scan {s : OpenGateway} {env : ScanEnv} {scanner scanner' : Scanner}
      {result : Except ScannerError Unit} {shared : Shared} {updates : List Invoice} {pubsub : Pubsub}
      (hscanner : s.scanner = some scanner)
      (hscan : (scanner.scan env).run (handle S) { s.inner.shared with faults := env.faults }
        = (.ok (result, scanner'), shared))
      (hupdates : shared.published = s.inner.shared.published ++ updates)
      (hsends : SendsAll maySend s.pubsub updates pubsub) :
      Step S mayRun maySend (.scan updates) s (withPubsub { s with
        inner := { s.inner with
          shared := shared
          cachedDaemonHeight := scanner'.blockCache.daemonHeight }
        scanner := some scanner' } pubsub)

/-- **A run of events** that are `allowed`, with the updates published in it. -/
inductive Runs (S : Backend) (mayRun : OpenGateway → MonerodClient → Prop)
    (maySend : Pubsub → Invoice → Prop) (allowed : Event → Prop) (s₀ : OpenGateway) :
    List Invoice → OpenGateway → Prop where
  | refl : Runs S mayRun maySend allowed s₀ [] s₀
  | step {updates : List Invoice} {s s' : OpenGateway} {event : Event}
      (h : Runs S mayRun maySend allowed s₀ updates s) (hallowed : allowed event)
      (hstep : Step S mayRun maySend event s s') :
      Runs S mayRun maySend allowed s₀ (updates ++ event.updates) s'

/-- **Whether a `run` cuts nobody off**: it is refused, or does not reach the daemon, or no stored
invoice has a subscriber that is still there. -/
def CutsNobodyOff (s : OpenGateway) (client : MonerodClient) : Prop :=
  s.scanner = none → (∃ daemonHeight, client.daemonHeight = .ok daemonHeight) →
    ∀ id ∈ s.getIds, ∀ e ∈ s.pubsub.senders (some id), s.pubsub.IsOpen e = false

/-! ## What the events do to the maps -/

variable {S : Backend} {mayRun : OpenGateway → MonerodClient → Prop}
  {maySend : Pubsub → Invoice → Prop} {s s' : OpenGateway} {event : Event}

/-- A `run` that reaches the daemon registers all stored invoices. -/
theorem run_registers {client : MonerodClient} {daemonHeight : ℕ} (hscanner : s.scanner = none)
    (hdaemon : client.daemonHeight = .ok daemonHeight) (blockCacheSize : ℕ)
    (initialHeight : Option ℕ) :
    (s.run client blockCacheSize initialHeight).2.pubsub
        = ⟨s.inner.publisher.insertInvoices s.getIds, s.channels, s.created⟩ ∧
      (s.run client blockCacheSize initialHeight).2.getIds = s.getIds := by
  simp only [run, hscanner, hdaemon]
  split <;> exact ⟨rfl, rfl⟩

/-- What `run` does to the publisher: nothing, or all stored invoices are registered. -/
theorem run_cases (client : MonerodClient) (blockCacheSize : ℕ) (initialHeight : Option ℕ)
    (s : OpenGateway) :
    (s.run client blockCacheSize initialHeight).2 = s ∨
    (s.scanner = none ∧ (∃ daemonHeight, client.daemonHeight = .ok daemonHeight) ∧
      (s.run client blockCacheSize initialHeight).2.pubsub
        = ⟨s.inner.publisher.insertInvoices s.getIds, s.channels, s.created⟩ ∧
      (s.run client blockCacheSize initialHeight).2.getIds = s.getIds) := by
  cases hscanner : s.scanner with
  | some scanner =>
      left
      simp only [run, hscanner]
  | none =>
      cases hdaemon : client.daemonHeight with
      | error e =>
          left
          simp only [run, hscanner, hdaemon]
      | ok daemonHeight =>
          exact .inr ⟨rfl, ⟨daemonHeight, rfl⟩, run_registers hscanner hdaemon _ _⟩

/-- No call of `send_updates` registers an invoice or takes one away. -/
theorem isSome_of_sends {invoice : Invoice} {p p' : Pubsub} (h : Sends invoice p p')
    (id : InvoiceId) :
    (p'.publisher.invoiceSubs id).isSome = (p.publisher.invoiceSubs id).isSome := by
  have hall : ∀ c, Relation.ReflTransGen (Proceeds invoice) (Sending.start p invoice) c →
      (c.pubsub.publisher.invoiceSubs id).isSome = (p.publisher.invoiceSubs id).isSome := by
    intro c hc
    induction hc with
    | refl => rfl
    | @tail c c' _ hlast ih =>
        rcases hlast with hcall | hrecv
        · cases hcall with
          | call hadvance =>
              cases advance_cases hadvance with
              | removed hphase =>
                  rw [← ih]
                  exact Publisher.isSome_modify _ _ _ _
              | _ => exact ih
        · rw [(Step.onChannel hrecv (.inl rfl)).2.1]
          exact ih
  exact hall _ h

/-- **What holds after any events**: channels are registered once, and only stored invoices are
registered. -/
structure Sound (s : OpenGateway) : Prop where
  registered : s.pubsub.Registered
  stored : ∀ id, (s.inner.publisher.invoiceSubs id).isSome = true → id ∈ s.getIds

/-- A new gateway has no subscribers yet. -/
theorem Sound.build (store : Store) (viewpair : SubIndex → String) (majorIndex : UInt32)
    (rng : List ℕ) : Sound (build store viewpair majorIndex rng) where
  registered := Pubsub.Registered.new _ fun target => by cases target <;> rfl
  stored id h := by cases h

/-- Sending updates keeps the registration of the senders in order. -/
theorem SendsAll.registered {p p' : Pubsub} {updates : List Invoice}
    (h : SendsAll maySend p updates p') (hp : p.Registered) : p'.Registered := by
  induction h with
  | nil p => exact hp
  | cons hmay hsends hrest ih => exact ih (hsends.registered hp)

/-- Sending updates neither registers an invoice nor takes one out. -/
theorem SendsAll.isSome {p p' : Pubsub} {updates : List Invoice}
    (h : SendsAll maySend p updates p') (id : InvoiceId) :
    (p'.publisher.invoiceSubs id).isSome = (p.publisher.invoiceSubs id).isSome := by
  induction h with
  | nil p => rfl
  | cons hmay hsends hrest ih => rw [ih, isSome_of_sends hsends]

/-- A call that changes neither the ids nor the publisher. -/
theorem Sound.of_same (hs : Sound s) {inner : PaymentGatewayInner}
    (hids : inner.shared.store.getIds = s.getIds) (hpublisher : inner.publisher = s.inner.publisher) :
    Sound { s with inner := inner } := by
  refine ⟨?_, fun id hid => ?_⟩
  · simp only [pubsub, hpublisher]
    exact hs.registered
  · simp only [hpublisher] at hid
    simp only [getIds, hids]
    exact hs.stored id hid

/-- A call of `new_invoice` keeps the gateway sound. -/
theorem Sound.newInvoice (hs : Sound s) {args : InvoiceArgs} {call' : Call}
    {inner : PaymentGatewayInner} (h : Call.Completes S s.inner (.newInvoice args) call' inner) :
    Sound { s with inner := inner } := by
  obtain ⟨hids, hpublisher⟩ | ⟨id, -, hids, hpublisher⟩ := h.newInvoice
  · exact hs.of_same hids hpublisher
  · refine ⟨?_, fun id' hid' => ?_⟩
    · simp only [pubsub, hpublisher]
      refine hs.registered.emptied fun target => ?_
      rw [Publisher.senders_insertInvoice]
      exact ite_eq_or_eq _ _ _
    · simp only [hpublisher] at hid'
      simp only [getIds, hids, List.mem_append]
      exact (@Publisher.isSome_insertInvoices [id] _ _ hid').imp (hs.stored id') fun h => h

/-- A call of `remove_invoice` keeps it sound. -/
theorem Sound.removeInvoice (hs : Sound s) {id : InvoiceId} {call' : Call}
    {inner : PaymentGatewayInner} (h : Call.Completes S s.inner (.removeInvoice id) call' inner) :
    Sound { s with inner := inner } := by
  obtain ⟨hids, hpublisher⟩ | ⟨hids, hpublisher⟩ := h.removeInvoice
  · exact hs.of_same hids hpublisher
  · refine ⟨?_, fun id' hid' => ?_⟩
    · simp only [pubsub, hpublisher]
      refine hs.registered.emptied fun target => ?_
      rw [Publisher.senders_removeInvoice]
      exact ite_eq_or_eq _ _ _
    · -- The removed id is registered no longer, and every other one is still stored.
      by_cases heq : id' = id
      · simp [hpublisher, Publisher.removeInvoice, heq] at hid'
      · simp only [hpublisher, Publisher.removeInvoice, Function.update_of_ne heq] at hid'
        simp only [getIds, hids]
        exact List.mem_filter.mpr ⟨hs.stored id' hid', decide_eq_true heq⟩

/-- So does `run`, which registers all stored invoices anew. -/
theorem Sound.run (hs : Sound s) (client : MonerodClient) (blockCacheSize : ℕ)
    (initialHeight : Option ℕ) : Sound (s.run client blockCacheSize initialHeight).2 := by
  obtain hsame | ⟨-, -, hpubsub, hids⟩ := run_cases client blockCacheSize initialHeight s
  · rw [hsame]
    exact hs
  · refine ⟨?_, fun id hid => ?_⟩
    · rw [hpubsub]
      refine hs.registered.emptied fun target => ?_
      rw [Publisher.senders_insertInvoices]
      exact ite_eq_or_eq _ _ _
    · have hpublisher := congrArg Pubsub.publisher hpubsub
      simp only [pubsub] at hpublisher
      rw [hpublisher] at hid
      rw [hids]
      exact (Publisher.isSome_insertInvoices hid).elim (hs.stored id) fun h => h

/-- **Every event** keeps this. -/
theorem Sound.step (hs : Sound s) (h : Step S mayRun maySend event s s') : Sound s' := by
  cases h with
  | newInvoice hcompletes => exact hs.newInvoice hcompletes
  | removeInvoice hcompletes => exact hs.removeInvoice hcompletes
  | subscribe id senderId hfresh =>
      obtain ⟨added, hregisters⟩ := Pubsub.subscribe_registers hfresh
      refine ⟨hs.registered.registers hregisters, fun id' hid' => hs.stored id' ?_⟩
      rw [← hid']
      simp only [withPubsub, Pubsub.subscribe]
      split
      · rfl
      · exact (Publisher.isSome_modify s.inner.publisher (fun map => map.insert senderId s.created)
          (some id) id').symm
  | subscribeAll senderId hfresh =>
      exact ⟨hs.registered.registers (Pubsub.register_registers hfresh rfl), hs.stored⟩
  | recv sender hsender => exact ⟨hs.registered.onChannel sender Channel.recv_sent, hs.stored⟩
  | close sender hsender => exact ⟨hs.registered.onChannel sender fun _ => rfl, hs.stored⟩
  | run client blockCacheSize initialHeight hmay => exact hs.run client blockCacheSize initialHeight
  | stop => exact ⟨hs.registered, hs.stored⟩
  | @scan _ env scanner _ _ _ _ _ hscanner hscan hupdates hsends =>
      -- A scan updates invoices, and neither stores nor removes any.
      refine ⟨hsends.registered hs.registered, fun id hid => ?_⟩
      have hids := (Scanner.scan_follows env scanner).getIds_run (S := S)
        { s.inner.shared with faults := env.faults }
      rw [hscan] at hids
      simp only [withPubsub, getIds, hids]
      exact hs.stored id ((hsends.isSome id).symm.trans hid)

/-- Every state of a run is sound. -/
theorem Runs.sound {allowed : Event → Prop} {updates : List Invoice}
    (h : Runs S mayRun maySend allowed s updates s') (hs : Sound s) : Sound s' := by
  induction h with
  | refl => exact hs
  | step _ _ hstep ih => exact ih.step hstep

/-! ## Who stays registered -/

/-- A subscriber `e` of an invoice that is registered as long as it is open, and has got the updates
of the invoice. -/
structure Stays (id : InvoiceId) (e : SenderId × Sender) (updates : List Invoice)
    (s : OpenGateway) : Prop where
  sound : Sound s
  kept : s.pubsub.IsOpen e = true → e ∈ s.pubsub.senders (some id) ∧
    (s.channels e.2).sent = updatesFor (some id) updates

section Stays

variable {id : InvoiceId} {e : SenderId × Sender} {updates : List Invoice}

/-- What does not touch the map of the invoice. -/
theorem Stays.of_senders (h : Stays id e updates s) (hsound : Sound s')
    (hchannels : s'.channels = s.channels)
    (hsenders : e ∈ s.pubsub.senders (some id) → s.pubsub.IsOpen e = true →
      e ∈ s'.pubsub.senders (some id)) : Stays id e updates s' := by
  refine ⟨hsound, fun hopen => ?_⟩
  have hwas : s.pubsub.IsOpen e = true := by
    simp only [Pubsub.IsOpen, pubsub, hchannels] at hopen
    exact hopen
  obtain ⟨hmem, hsent⟩ := h.kept hwas
  rw [hchannels]
  exact ⟨hsenders hmem hwas, hsent⟩

/-- A new invoice has another id. -/
theorem Stays.newInvoice (h : Stays id e updates s) {args : InvoiceArgs} {call' : Call}
    {inner : PaymentGatewayInner}
    (hcompletes : Call.Completes S s.inner (.newInvoice args) call' inner) :
    Stays id e updates { s with inner := inner } := by
  refine h.of_senders (h.sound.newInvoice hcompletes) rfl fun hmem _ => ?_
  obtain ⟨-, hpublisher⟩ | ⟨id', hfresh, -, hpublisher⟩ := hcompletes.newInvoice
  · simp only [pubsub, hpublisher]
    exact hmem
  · -- A registered invoice is stored, and the new one was not.
    have hne : some id ≠ some id' := by
      intro heq
      have hstored := h.sound.stored id (Publisher.isSome_of_mem_senders hmem)
      exact hfresh (Option.some.inj heq ▸ hstored)
    simp only [pubsub, hpublisher, Pubsub.senders, Publisher.senders_insertInvoice, if_neg hne]
    exact hmem

/-- Another invoice is removed. -/
theorem Stays.removeInvoice (h : Stays id e updates s) {id' : InvoiceId} {call' : Call}
    {inner : PaymentGatewayInner} (hne : id ≠ id')
    (hcompletes : Call.Completes S s.inner (.removeInvoice id') call' inner) :
    Stays id e updates { s with inner := inner } := by
  refine h.of_senders (h.sound.removeInvoice hcompletes) rfl fun hmem _ => ?_
  obtain ⟨-, hpublisher⟩ | ⟨-, hpublisher⟩ := hcompletes.removeInvoice
  · simp only [pubsub, hpublisher]
    exact hmem
  · have hne' : some id ≠ some id' := fun heq => hne (Option.some.inj heq)
    simp only [pubsub, hpublisher, Pubsub.senders, Publisher.senders_removeInvoice, if_neg hne']
    exact hmem

/-- **A `run` that cuts nobody off.** -/
theorem Stays.run (h : Stays id e updates s) {client : MonerodClient} (blockCacheSize : ℕ)
    (initialHeight : Option ℕ) (hnobody : s.CutsNobodyOff client) :
    Stays id e updates (s.run client blockCacheSize initialHeight).2 := by
  obtain hsame | ⟨hscanner, hdaemon, hpubsub, -⟩ := run_cases client blockCacheSize initialHeight s
  · rw [hsame]
    exact h
  · -- The invoice is stored and its subscriber is open: such a `run` is not allowed.
    refine h.of_senders (h.sound.run _ _ _) (congrArg Pubsub.channels hpubsub) fun hmem hopen => ?_
    have hstored := h.sound.stored id (Publisher.isSome_of_mem_senders hmem)
    exact absurd (hnobody hscanner hdaemon id hstored e hmem) (by simp [hopen])

/-- Sending updates closes no receiver. -/
theorem SendsAll.isOpen {p p' : Pubsub} {new : List Invoice} (h : SendsAll maySend p new p')
    (hp : p.Registered) : p'.IsOpen e = p.IsOpen e := by
  induction h with
  | nil p => rfl
  | cons hmay hsends hrest ih =>
      rw [ih (hsends.registered hp), (Sends.invariants hp hsends).2.isOpen]

/-- **Sending** keeps the open subscribers, if nobody stands behind a closed one. -/
theorem keeps_sendsAll {p p' : Pubsub} {new : List Invoice}
    (h : SendsAll NoneBehindClosed p new p') (hp : p.Registered)
    (hmem : e ∈ p.senders (some id)) (hopen : p'.IsOpen e = true) :
    e ∈ p'.senders (some id) ∧
      (p'.channels e.2).sent = (p.channels e.2).sent ++ updatesFor (some id) new := by
  induction h with
  | nil p => exact ⟨hmem, (List.append_nil _).symm⟩
  | @cons p mid p' invoice rest hnone hsends hrest ih =>
      -- Sending opens no channel, so that the subscriber is open in between.
      have hopenMid : mid.IsOpen e = true := by
        rw [← hrest.isOpen (hsends.registered hp)]
        exact hopen
      obtain ⟨hmemMid, hsentMid⟩ := hsends.keeps hp hnone hmem hopenMid
      obtain ⟨hmem', hsent'⟩ := ih (hsends.registered hp) hmemMid hopen
      refine ⟨hmem', ?_⟩
      rw [hsent', hsentMid, List.append_assoc, updatesFor, updatesFor, updatesFor,
        ← List.filter_append, List.singleton_append]

/-- A subscriber receives or closes its channel. -/
theorem Stays.onChannel (h : Stays id e updates s) (sender : Sender) {f : Channel → Channel}
    (hsent : ∀ channel, (f channel).sent = channel.sent)
    (hopen : ∀ channel, (f channel).isOpen = true → channel.isOpen = true) :
    Stays id e updates (s.withPubsub (s.pubsub.onChannel sender f)) := by
  refine ⟨⟨h.sound.registered.onChannel sender hsent, h.sound.stored⟩, fun hopen' => ?_⟩
  obtain ⟨hsame, hwas⟩ := channels_onChannel s.pubsub sender hsent hopen e.2
  obtain ⟨hmem, hgot⟩ := h.kept (hwas hopen')
  exact ⟨hmem, hsame.trans hgot⟩

/-- **A new subscriber** is registered and has got nothing yet. -/
theorem Stays.subscribe (hs : Sound s) {senderId : SenderId} {sender : Sender} {p : Pubsub}
    (hfresh : senderId ∉ (s.pubsub.senders (some id)).map Prod.fst)
    (hsubscribe : s.pubsub.subscribe id senderId = (some sender, p)) :
    Stays id (senderId, sender) [] (s.withPubsub p) := by
  have hstep : Step .exact (fun _ _ => True) (fun _ _ => True) .subscribe s
      (s.withPubsub (s.pubsub.subscribe id senderId).2) := .subscribe id senderId hfresh
  rw [hsubscribe] at hstep
  refine ⟨hs.step hstep, fun _ => ?_⟩
  unfold Pubsub.subscribe at hsubscribe
  split at hsubscribe
  · cases hsubscribe
  · rename_i map hmap
    obtain ⟨hsender, rfl⟩ := Prod.mk.inj hsubscribe
    obtain rfl := Option.some.inj hsender
    refine ⟨?_, hs.registered.fresh _ (Nat.le_refl _)⟩
    have hsenders := (Pubsub.register_registers hfresh hmap).senders (some id)
    rw [if_pos rfl] at hsenders
    exact hsenders ▸ List.mem_append_right _ List.mem_cons_self

/-- **Every event** that neither removes the invoice nor cuts anybody off. -/
theorem Stays.step (h : Stays id e updates s) (hevent : event ≠ .removeInvoice id)
    (hstep : Step S CutsNobodyOff NoneBehindClosed event s s') :
    Stays id e (updates ++ event.updates) s' := by
  have hsound := h.sound.step hstep
  -- Only scans publish updates.
  have hquiet : event.updates = [] → Stays id e updates s' →
      Stays id e (updates ++ event.updates) s' := by
    intro hnil hstays
    rw [hnil, List.append_nil]
    exact hstays
  cases hstep with
  | newInvoice hcompletes => exact hquiet rfl (h.newInvoice hcompletes)
  | removeInvoice hcompletes =>
      exact hquiet rfl (h.removeInvoice (fun heq => hevent (by rw [heq])) hcompletes)
  | subscribe id' senderId hfresh =>
      obtain ⟨added, hregisters⟩ := Pubsub.subscribe_registers hfresh
      refine hquiet rfl (h.of_senders hsound hregisters.channels fun hmem _ => ?_)
      have hsenders := hregisters.senders (some id)
      exact hsenders ▸ List.mem_append_left _ hmem
  | subscribeAll senderId hfresh => exact hquiet rfl (h.of_senders hsound rfl fun hmem _ => hmem)
  | recv sender hsender =>
      exact hquiet rfl (h.onChannel sender Channel.recv_sent fun channel hopen =>
        channel.recv_isOpen ▸ hopen)
  | close sender hsender =>
      exact hquiet rfl (h.onChannel sender (fun _ => rfl) fun _ hopen => nomatch hopen)
  | run client blockCacheSize initialHeight hnobody =>
      exact hquiet rfl (h.run blockCacheSize initialHeight hnobody)
  | stop => exact hquiet rfl (h.of_senders hsound rfl fun hmem _ => hmem)
  | scan hscanner hscan hupdates hsends =>
      -- Who is open after all updates was open before, and has got those that are for it.
      refine ⟨hsound, fun hopen => ?_⟩
      have hwas : s.pubsub.IsOpen e = true := by
        rw [← hsends.isOpen h.sound.registered]
        exact hopen
      obtain ⟨hmem, hsent⟩ := h.kept hwas
      obtain ⟨hmem', hsent'⟩ := keeps_sendsAll hsends h.sound.registered hmem hopen
      refine ⟨hmem', hsent'.trans ?_⟩
      rw [show (s.pubsub.channels e.2).sent = _ from hsent, updatesFor, updatesFor, updatesFor,
        ← List.filter_append, Event.updates]

end Stays

/-- **Subscriptions survive starts and restarts**, as long as no `run` cuts anybody off. A
subscriber obtained for an invoice, in any state that a gateway can come to, is registered and has
got every update of the invoice published since, as long as it is open and the invoice is not
removed, in every run in which no `run` finds an open subscriber of a stored invoice and no
`send_updates` one behind a closed one. Any other `run` takes such a subscriber away. -/
theorem subscribers_survive (store : Store) (viewpair : SubIndex → String) (majorIndex : UInt32)
    (rng : List ℕ) :
    (∀ updates₀ s₀, Runs S (fun _ _ => True) (fun _ _ => True) (fun _ => True)
        (build store viewpair majorIndex rng) updates₀ s₀ →
      ∀ id senderId sender p, senderId ∉ (s₀.pubsub.senders (some id)).map Prod.fst →
        s₀.pubsub.subscribe id senderId = (some sender, p) →
      ∀ updates s, Runs S CutsNobodyOff NoneBehindClosed (fun event => event ≠ .removeInvoice id)
        (s₀.withPubsub p) updates s → (s.channels sender).isOpen = true →
      (senderId, sender) ∈ s.pubsub.senders (some id) ∧
        (s.channels sender).sent = updatesFor (some id) updates) ∧
    (∀ (s : OpenGateway) client blockCacheSize initialHeight, ¬ s.CutsNobodyOff client →
      ∃ id ∈ s.getIds, ∃ e ∈ s.pubsub.senders (some id),
        (s.run client blockCacheSize initialHeight).2.pubsub.IsOpen e = true ∧
        (s.run client blockCacheSize initialHeight).2.pubsub.senders (some id) = []) := by
  constructor
  · intro updates₀ s₀ hreached id senderId sender p hfresh hsubscribe updates s hrun hopen
    have hsound := hreached.sound (Sound.build store viewpair majorIndex rng)
    -- From the subscription on, every event of the run keeps the subscriber.
    have hstays : Stays id (senderId, sender) updates s := by
      clear hopen
      induction hrun with
      | refl => exact .subscribe hsound hfresh hsubscribe
      | step _ hevent hstep ih => exact ih.step hevent hstep
    exact hstays.kept hopen
  · -- Registering an invoice again empties its map, also when the rest of `run` fails.
    intro s client blockCacheSize initialHeight hcuts
    simp only [CutsNobodyOff, not_forall, Bool.not_eq_false] at hcuts
    obtain ⟨hscanner, ⟨daemonHeight, hdaemon⟩, id, hstored, e, hmem, hopen⟩ := hcuts
    obtain ⟨hpubsub, -⟩ := run_registers hscanner hdaemon blockCacheSize initialHeight
    refine ⟨id, hstored, e, hmem, ?_, ?_⟩
    · rw [hpubsub]
      exact hopen
    · rw [hpubsub, Pubsub.senders, Publisher.senders_insertInvoices, if_pos ⟨id, hstored, rfl⟩]

/-! ## One invoice and one subscriber -/

/-- A chain of three blocks, without payments. -/
def shortChain : Daemon := ⟨[(1, []), (2, []), (3, [])], []⟩

/-- The id of the stored invoice. -/
def smallId : InvoiceId := ⟨⟨0, 1⟩, 1⟩

/-- A gateway that has been started on a store with one invoice. -/
def started : OpenGateway := ((build smallStore (fun _ => "") 0 []).run shortChain.client 2 none).2

/-- A subscriber of the invoice. -/
def subscribed : OpenGateway := started.withPubsub (started.pubsub.subscribe smallId 7).2

/-- The started gateway is one that a run reaches. -/
theorem started_reached {mayRun : OpenGateway → MonerodClient → Prop}
    (hmay : mayRun (build smallStore (fun _ => "") 0 []) shortChain.client) :
    Runs .exact mayRun maySend (fun _ => True) (build smallStore (fun _ => "") 0 []) [] started :=
  .step .refl trivial (.run shortChain.client 2 none hmay)

/-- What the first scan does. -/
def firstScan : Except ScannerError (Except ScannerError Unit × Scanner) × Shared :=
  ((Gateway.smallStart shortChain smallStore).scanner.scan (plainEnv shortChain)).run (handle .exact)
    { store := smallStore }

/-- The first scan publishes an update, and the subscriber gets it. -/
theorem subscribers_survive_scan :
    ∃ updates s, Runs .exact CutsNobodyOff NoneBehindClosed
        (fun event => event ≠ .removeInvoice smallId) subscribed updates s ∧
      updates ≠ [] ∧ (7, 0) ∈ s.pubsub.senders (some smallId) ∧
      (s.channels 0).sent = updatesFor (some smallId) updates := by
  obtain ⟨result, scanner', hresult⟩ :
      ∃ result scanner', firstScan.1 = .ok (result, scanner') := ⟨_, _, rfl⟩
  obtain ⟨update, hupdate, hid⟩ : ∃ update, firstScan.2.published = [update] ∧
      update.id = smallId := ⟨_, rfl, rfl⟩
  have hsubscribe : Step .exact (fun _ _ => True) (fun _ _ => True) .subscribe started
      subscribed := .subscribe smallId 7 (by decide +kernel)
  have hsound : Sound subscribed := (Sound.run (Sound.build _ _ _ _) _ _ _).step hsubscribe
  obtain ⟨pubsub, hsends⟩ := exists_sends hsound.registered update
  have hnone : NoneBehindClosed subscribed.pubsub update := by
    rintro target (rfl | rfl)
    · rw [hid]
      exact List.pairwise_singleton _ ((7 : SenderId), (0 : Sender))
    · exact List.Pairwise.nil
  have hscan : ((Gateway.smallStart shortChain smallStore).scanner.scan (plainEnv shortChain)).run
      (handle .exact) { subscribed.inner.shared with faults := (plainEnv shortChain).faults }
        = (.ok (result, scanner'), firstScan.2) := Prod.ext hresult rfl
  have hruns : Runs .exact CutsNobodyOff NoneBehindClosed
      (fun event => event ≠ .removeInvoice smallId) subscribed _ _ :=
    .step .refl (by simp) (.scan rfl hscan hupdate (.cons hnone hsends (.nil _)))
  have hopen : (pubsub.channels 0).isOpen = true := by
    have hsame := congrFun (Sends.invariants hsound.registered hsends).2.isOpen
      ((7 : SenderId), (0 : Sender))
    exact hsame.trans rfl
  refine ⟨_, _, hruns, List.cons_ne_nil _ _, ?_⟩
  exact (subscribers_survive smallStore (fun _ => "") 0 []).1 [] started (started_reached trivial)
    smallId 7 0 _ (by decide +kernel) rfl _ _ hruns hopen

/-- **A restart cuts a subscriber off**: the gateway is stopped and run again, and the subscriber,
open as it is, is not registered any more. -/
theorem restart_cuts_off :
    (∃ updates₀, Runs .exact (fun _ _ => True) (fun _ _ => True) (fun _ => True)
      (build smallStore (fun _ => "") 0 []) updates₀ started) ∧
    (started.pubsub.subscribe smallId 7).1 = some 0 ∧
    ∃ updates s, Runs .exact (fun _ _ => True) (fun _ _ => True)
        (fun event => event ≠ .removeInvoice smallId) subscribed updates s ∧
      (s.channels 0).isOpen = true ∧ smallId ∈ s.getIds ∧ s.pubsub.senders (some smallId) = [] := by
  have hruns : Runs .exact (fun _ _ => True) (fun _ _ => True)
      (fun event => event ≠ .removeInvoice smallId) subscribed _ _ :=
    .step (.step .refl (by simp) .stop) (by simp) (.run shortChain.client 2 none trivial)
  refine ⟨⟨[], started_reached trivial⟩, rfl, _, _, hruns, rfl, ?_, ?_⟩
  · decide +kernel
  · decide +kernel

end OpenGateway

end AcceptXmr
