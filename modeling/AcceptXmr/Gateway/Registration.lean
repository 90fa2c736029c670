import AcceptXmr.Gateway.Calls

/-! # Publisher and store

`new_invoice` stores an invoice and then registers it with the publisher; `remove_invoice` takes it
from the store, puts its address back and then takes it from the publisher. The two agree while no
call is in progress, unless calls for one id have got between these steps of each other.

* **`Balanced`** — stored or being removed is the same as registered or being inserted.
* **`registered_iff_stored`** — publisher and store agree after calls that do not cross. -/

namespace AcceptXmr

namespace Call

/-- Whether a call has stored an invoice of this id, and not registered it yet. -/
def isInserting (id : InvoiceId) : Call → Bool
  | .inserted id' => decide (id' = id)
  | _ => false

/-- Whether a call has taken an invoice of this id from the store, and not from the publisher yet.
-/
def isRemoving (id : InvoiceId) : Call → Bool
  | .removed id' _ | .putBack id' _ => decide (id' = id)
  | _ => false

end Call

namespace System

variable {S : Backend} {s s' : System}

/-- The calls that have an invoice still to register. -/
def inserting (s : System) (id : InvoiceId) : ℕ := s.calls.countP (Call.isInserting id)

/-- The calls that have an invoice still to take from the publisher. -/
def removing (s : System) (id : InvoiceId) : ℕ := s.calls.countP (Call.isRemoving id)

/-- Whether an id is registered, as a number. -/
def registered (s : System) (id : InvoiceId) : ℕ :=
  if (s.inner.publisher.invoiceSubs id).isSome then 1 else 0

/-- **Whether a turn does not cross another call**: an invoice is stored only while no call is
removing one of its id, and taken from the store only while no call is inserting one. -/
def uncrossed (s : System) : Turn → Bool
  | .call i env =>
      match s.calls[i]? with
      -- An insertion that is about to succeed, while a removal of the same id is not through.
      | some (.created invoice) =>
          env.fault.isSome || s.inner.shared.store.getIds.contains invoice.id ||
            decide (s.removing invoice.id = 0)
      -- A removal that is about to succeed, while an insertion of the same id is not through.
      | some (.removeInvoice id) =>
          env.fault.isSome || !s.inner.shared.store.getIds.contains id ||
            decide (s.inserting id = 0)
      | _ => true
  | _ => true

/-- **The balance**: stored or being removed is the same as registered or being inserted, and at
most one call at a time does either for an id. -/
structure Balanced (s : System) : Prop where
  balance : ∀ id, s.inner.shared.store.getIds.count id + s.removing id
    = s.registered id + s.inserting id
  alone : ∀ id, s.inserting id + s.removing id ≤ 1

/-- The count of calls when one of them is singled out. -/
theorem countP_calls {front back : List Call} {call : Call} (p : Call → Bool)
    (hcalls : s.calls = front ++ call :: back) :
    s.calls.countP p = front.countP p + back.countP p + if p call then 1 else 0 := by
  rw [hcalls, List.countP_append, List.countP_cons, Nat.add_assoc]

/-- One if the call is inserting the id. -/
abbrev insertingOne (id : InvoiceId) (call : Call) : ℕ := if call.isInserting id then 1 else 0

/-- One if the call is removing the id. -/
abbrev removingOne (id : InvoiceId) (call : Call) : ℕ := if call.isRemoving id then 1 else 0

/-- The balance after a step of a call, from the balance before it. The other calls are `a` that
insert and `b` that remove. -/
theorem Balanced.set (h : Balanced s) {front back : List Call} {call call' : Call}
    {inner : PaymentGatewayInner} (hcalls : s.calls = front ++ call :: back)
    (hid : ∀ (id : InvoiceId) (a b : ℕ), s.inserting id = a + insertingOne id call →
      s.removing id = b + removingOne id call →
      s.inner.shared.store.getIds.count id + (b + removingOne id call)
        = s.registered id + (a + insertingOne id call) →
      a + insertingOne id call + (b + removingOne id call) ≤ 1 →
      inner.shared.store.getIds.count id + (b + removingOne id call')
          = registered ⟨inner, front ++ call' :: back, s.scanning⟩ id + (a + insertingOne id call') ∧
        a + insertingOne id call' + (b + removingOne id call') ≤ 1) :
    Balanced ⟨inner, front ++ call' :: back, s.scanning⟩ := by
  have hafter : ∀ id, _ := fun id => by
    have hins := countP_calls (Call.isInserting id) hcalls
    have hrem := countP_calls (Call.isRemoving id) hcalls
    have hbalance := h.balance id
    have halone := h.alone id
    rw [removing, inserting, hins, hrem] at hbalance halone
    exact hid id _ _ hins hrem hbalance halone
  refine ⟨fun id => ?_, fun id => ?_⟩
  · rw [removing, inserting, countP_calls _ rfl, countP_calls _ rfl]
    exact (hafter id).1
  · rw [removing, inserting, countP_calls _ rfl, countP_calls _ rfl]
    exact (hafter id).2

/-- An invoice is registered once or not at all. -/
theorem registered_le_one (s : System) (id : InvoiceId) : s.registered id ≤ 1 := by
  unfold registered
  split <;> omega

/-- What is registered after an invoice has been. -/
theorem registered_insertInvoice (s : System) (calls : List Call) (id₀ id : InvoiceId) :
    registered ⟨{ s.inner with publisher := s.inner.publisher.insertInvoice id₀ }, calls,
      s.scanning⟩ id = if id₀ = id then 1 else s.registered id := by
  simp only [registered, Publisher.insertInvoice]
  by_cases heq : id₀ = id
  · subst heq
    simp
  · simp [heq, Function.update_of_ne (Ne.symm heq)]

/-- What is registered after an invoice has been taken from the publisher. -/
theorem registered_removeInvoice (s : System) (calls : List Call) (id₀ id : InvoiceId) :
    registered ⟨{ s.inner with publisher := s.inner.publisher.removeInvoice id₀ }, calls,
      s.scanning⟩ id = if id₀ = id then 0 else s.registered id := by
  simp only [registered, Publisher.removeInvoice]
  by_cases heq : id₀ = id
  · subst heq
    simp
  · simp [heq, Function.update_of_ne (Ne.symm heq)]

/-- **Storing an invoice** that nobody is removing keeps the balance. -/
theorem Balanced.inserted (h : Balanced s) {front back : List Call} {invoice : Invoice}
    {store : Store} (hcalls : s.calls = front ++ .created invoice :: back)
    (hinsert : s.inner.shared.store.insertInvoice invoice = .ok store)
    (hremoving : s.removing invoice.id = 0) :
    Balanced ⟨{ s.inner with shared := { s.inner.shared with store := store } },
      front ++ .inserted invoice.id :: back, s.scanning⟩ := by
  obtain ⟨hfresh, hstore⟩ := Store.insertInvoice_ok hinsert
  refine h.set hcalls fun id a b hins hrem hbalance halone => ?_
  have hids : store.getIds.count id
      = s.inner.shared.store.getIds.count id + if invoice.id = id then 1 else 0 := by
    simp only [Store.getIds, hstore, List.map_append, List.map_singleton, List.count_append,
      List.count_singleton, beq_iff_eq]
  rw [hids]
  simp only [registered, insertingOne, removingOne, Call.isInserting, Call.isRemoving,
    Bool.false_eq_true, if_false, decide_eq_true_eq] at hbalance halone hins hrem ⊢
  by_cases heq : invoice.id = id
  · -- Nothing was stored, and nobody is removing: nobody else can be inserting.
    subst heq
    have hzero := List.count_eq_zero.mpr hfresh
    rw [hremoving] at hrem
    rw [if_pos rfl]
    omega
  · rw [if_neg heq]
    omega

/-- **Taking an invoice from the store** that nobody is inserting keeps the balance. -/
theorem Balanced.removed (h : Balanced s) {front back : List Call} {id₀ : InvoiceId} {old : Invoice}
    (hcalls : s.calls = front ++ .removeInvoice id₀ :: back)
    (hstored : s.inner.shared.store.getInvoice id₀ = some old)
    (hinserting : s.inserting id₀ = 0) :
    Balanced ⟨{ s.inner with
        shared := { s.inner.shared with store := s.inner.shared.store.removeInvoice id₀ } },
      front ++ .removed id₀ old :: back, s.scanning⟩ := by
  obtain ⟨-, hid⟩ := Store.mem_of_getInvoice hstored
  refine h.set hcalls fun id a b hins hrem hbalance halone => ?_
  have hbefore := ((Store.perm_removeInvoice hstored).map Invoice.id).count_eq id
  rw [List.map_cons, List.count_cons, hid] at hbefore
  have hpublisher := s.registered_le_one id
  simp only [registered, insertingOne, removingOne, Call.isInserting, Call.isRemoving,
    Bool.false_eq_true, if_false, decide_eq_true_eq, Store.getIds, beq_iff_eq]
    at hbalance halone hins hbefore hpublisher ⊢
  by_cases heq : id₀ = id
  · -- It was stored, and nobody is inserting: nobody else can be removing.
    subst heq
    rw [hinserting] at hins
    rw [if_pos rfl] at hbefore ⊢
    omega
  · rw [if_neg heq] at hbefore ⊢
    omega

/-- **A step of a call** that does not cross another keeps the balance. -/
theorem Balanced.call (h : Balanced s) {front back : List Call} {call call' : Call} {env : CallEnv}
    {inner : PaymentGatewayInner} (hcalls : s.calls = front ++ call :: back)
    (hadvances : Call.Advances s.inner env call call' inner)
    (huncrossed : s.uncrossed (.call front.length env) = true) :
    Balanced ⟨inner, front ++ call' :: back, s.scanning⟩ := by
  have hget : s.calls[front.length]? = some call := by simp [hcalls]
  simp only [uncrossed, hget] at huncrossed
  cases hadvances with
  -- Storing an invoice and registering it are two steps, and in between the call owes a
  -- registration.
  | inserted hfault hinsert =>
      obtain ⟨hfresh, -⟩ := Store.insertInvoice_ok hinsert
      simp only [hfault, Option.isSome_none, Bool.false_or, List.contains_eq_mem, hfresh,
        decide_false, decide_eq_true_eq] at huncrossed
      exact h.inserted hcalls hinsert huncrossed
  | @registered id₀ =>
      refine h.set hcalls fun id a b hins hrem hbalance halone => ?_
      rw [registered_insertInvoice]
      have hstored : s.inner.shared.store.getIds.count id ≤ 1 :=
        List.nodup_iff_count_le_one.mp s.inner.shared.store.nodupIds id
      simp only [insertingOne, removingOne, Call.isInserting, Call.isRemoving, Bool.false_eq_true,
        if_false, decide_eq_true_eq] at hbalance halone ⊢
      by_cases heq : id₀ = id
      · -- It is stored or being removed, and so it was not registered yet.
        simp only [heq, if_true] at hbalance halone ⊢
        omega
      · simp only [heq, if_false] at hbalance halone ⊢
        omega
  -- From here on the removal owes the end of the registration.
  | @removed id₀ old hfault hstored =>
      have hcontains : id₀ ∈ s.inner.shared.store.getIds := by
        obtain ⟨hmem, hid⟩ := Store.mem_of_getInvoice hstored
        rw [← hid]
        exact List.mem_map_of_mem hmem
      simp only [hfault, Option.isSome_none, Bool.false_or, List.contains_eq_mem, hcontains,
        decide_true, Bool.not_true, decide_eq_true_eq] at huncrossed
      exact h.removed hcalls hstored huncrossed
  | @unregistered id₀ old =>
      refine h.set hcalls fun id a b hins hrem hbalance halone => ?_
      rw [registered_removeInvoice]
      have hpublisher := s.registered_le_one id
      simp only [insertingOne, removingOne, Call.isInserting, Call.isRemoving, Bool.false_eq_true,
        if_false, decide_eq_true_eq] at hbalance halone ⊢
      by_cases heq : id₀ = id
      · simp only [heq, if_true] at hbalance halone ⊢
        omega
      · simp only [heq, if_false] at hbalance halone ⊢
        omega
  -- The other steps touch neither the store nor the publisher, and owe nothing.
  | addressed hremove | panicked | created creationHeight hheight | unanswered e
  | notInserted e hrefused | notRemoved result | putBack =>
      exact h.set hcalls fun id a b _ _ hbalance halone => ⟨hbalance, halone⟩

/-- **Every step** that does not cross a call keeps the balance. -/
theorem Balanced.turns (h : Balanced s) (hs : SoundScan s) {t : Turn}
    (huncrossed : s.uncrossed t = true) (hturns : Turns S s t s') : Balanced s' := by
  cases hturns with
  | newInvoice args | removeInvoice id =>
      refine ⟨fun id => ?_, fun id => ?_⟩
      · simp only [removing, inserting, List.countP_append]
        exact h.balance id
      · simp only [removing, inserting, List.countP_append]
        exact h.alone id
  | call hcalls hadvances => exact h.call hcalls hadvances huncrossed
  | startScan hscanning => exact ⟨h.balance, h.alone⟩
  | finished hscanning => exact ⟨h.balance, h.alone⟩
  | served hscanning =>
      refine ⟨fun id => ?_, h.alone⟩
      simp only [hs.getIds_served hscanning]
      exact h.balance id

/-- **Publisher and store agree** after calls that do not cross. If they agree before any call, then
in every run in which no turn crosses another call they agree whenever no call is in progress:
exactly the stored invoices are registered, and exactly they can be subscribed to. -/
theorem registered_iff_stored {inner : PaymentGatewayInner} {scanner : Scanner}
    (hstart : ∀ id, (inner.publisher.invoiceSubs id).isSome = true ↔ id ∈ inner.shared.store.getIds)
    (h : Reaches S (fun s t => s.uncrossed t = true) (start inner scanner) s)
    (hidle : ∀ call ∈ s.calls, call.inProgress = false) (id : InvoiceId) :
    ((s.inner.publisher.invoiceSubs id).isSome = true ↔ id ∈ s.inner.shared.store.getIds) ∧
    ∀ channels created senderId,
      ((Pubsub.subscribe ⟨s.inner.publisher, channels, created⟩ id senderId).1.isSome = true ↔
        id ∈ s.inner.shared.store.getIds) := by
  have hbalanced : Balanced (start inner scanner) := by
    refine ⟨fun id => ?_, fun id => Nat.zero_le 1⟩
    simp only [removing, inserting, start, List.countP_nil, registered, Nat.add_zero, hstart]
    split
    · rename_i hmem
      exact List.count_eq_one_of_mem inner.shared.store.nodupIds hmem
    · rename_i hmem
      exact List.count_eq_zero.mpr hmem
  obtain ⟨-, hend⟩ := h.invariant
    (fun _ _ _ hs hP huncrossed hturns => Balanced.turns hP hs huncrossed hturns) (.start _ _)
    hbalanced
  -- No call is in progress, so that nothing is being inserted or removed.
  have hnone : ∀ p : Call → Bool, (∀ call, p call = true → call.inProgress = true) →
      s.calls.countP p = 0 := by
    intro p hp
    refine List.countP_eq_zero.mpr fun call hcall hpcall => ?_
    exact absurd (hp call hpcall) (by simp [hidle call hcall])
  have hinserting : s.inserting id = 0 := hnone _ fun call hcall => by
    cases call <;> first | rfl | cases hcall
  have hremoving : s.removing id = 0 := hnone _ fun call hcall => by
    cases call <;> first | rfl | cases hcall
  have hbalance := hend.balance id
  have hagree : (s.inner.publisher.invoiceSubs id).isSome = true ↔
      id ∈ s.inner.shared.store.getIds := by
    rw [← List.count_pos_iff]
    unfold registered at hbalance
    split at hbalance
    · rename_i hsome
      exact ⟨fun _ => by omega, fun _ => hsome⟩
    · rename_i hnot
      exact ⟨fun hsome => absurd hsome hnot, fun _ => by omega⟩
  refine ⟨hagree, fun channels created senderId => ?_⟩
  rw [← hagree, Pubsub.subscribe]
  cases s.inner.publisher.invoiceSubs id <;> simp

/-- Calls that are all seen to be idle. -/
theorem idle_of_map {calls : List Call} {n : ℕ}
    (h : calls.map Call.inProgress = List.replicate n false) :
    ∀ call ∈ calls, call.inProgress = false := by
  intro call hcall
  have hmem : call.inProgress ∈ List.replicate n false := h ▸ List.mem_map_of_mem hcall
  exact List.eq_of_mem_replicate hmem

/-- The calls of a new invoice and of its removal, one after the other. -/
theorem registered_iff_stored_after :
    ∃ s, Reaches .exact (fun s t => s.uncrossed t = true) (small .empty []) s ∧
      s.inner.shared.store.getIds = [⟨⟨0, 1⟩, 5⟩] ∧
      ((s.inner.publisher.invoiceSubs ⟨⟨0, 1⟩, 5⟩).isSome = true ↔
        (⟨⟨0, 1⟩, 5⟩ : InvoiceId) ∈ s.inner.shared.store.getIds) := by
  have hend : (after .exact uncrossed
      (.newInvoice smallArgs :: List.replicate 4 (.call 0 {}) ++
        .removeInvoice ⟨⟨0, 0⟩, 5⟩ :: List.replicate 3 (.call 1 {}) ++
        .newInvoice smallArgs :: List.replicate 4 (.call 2 {})) (small .empty [])).map
          (fun s => (s.calls.map Call.inProgress, s.inner.shared.store.getIds))
      = some ([false, false, false], [⟨⟨0, 1⟩, 5⟩]) := by decide +kernel
  obtain ⟨s, hs, heq⟩ := Option.map_eq_some_iff.mp hend
  obtain ⟨hcalls, hids⟩ := Prod.mk.inj heq
  have hidle : ∀ call ∈ s.calls, call.inProgress = false := idle_of_map (n := 3) hcalls
  have hreaches : Reaches .exact (fun s t => s.uncrossed t = true) _ s :=
    after_reaches (fun _ _ h => h) hs
  refine ⟨s, hreaches, hids, (registered_iff_stored (fun id => ?_) hreaches hidle _).1⟩
  exact ⟨nofun, nofun⟩

/-- **An invoice that is registered and not stored**: it is removed between being stored and being
registered. -/
theorem registered_not_stored :
    ∃ s, Reaches .exact anyTurn (small .empty []) s ∧
      (∀ call ∈ s.calls, call.inProgress = false) ∧
      (s.inner.publisher.invoiceSubs ⟨⟨0, 0⟩, 5⟩).isSome = true ∧
      s.inner.shared.store.getIds = [] := by
  have hend : (after .exact (fun _ _ => true)
      (.newInvoice smallArgs :: List.replicate 3 (.call 0 {}) ++
        .removeInvoice ⟨⟨0, 0⟩, 5⟩ :: List.replicate 3 (.call 1 {}) ++ [.call 0 {}])
      (small .empty [])).map
          (fun s => (s.calls.map Call.inProgress,
            (s.inner.publisher.invoiceSubs ⟨⟨0, 0⟩, 5⟩).isSome, s.inner.shared.store.getIds))
      = some ([false, false], true, []) := by decide +kernel
  obtain ⟨s, hs, heq⟩ := Option.map_eq_some_iff.mp hend
  obtain ⟨hcalls, hregistered, hids⟩ : _ ∧ _ ∧ _ := by simpa only [Prod.mk.injEq] using heq
  exact ⟨s, after_reaches (fun _ _ _ => trivial) hs, idle_of_map (n := 2) hcalls, hregistered, hids⟩

end System

end AcceptXmr
