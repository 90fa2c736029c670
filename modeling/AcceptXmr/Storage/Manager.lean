import AcceptXmr.Library.Resumption
import AcceptXmr.Storage.Store

/-! # The storage manager

`library/src/storage/mod.rs`: a single task that takes requests from a channel and runs the
corresponding storage method, one at a time. Clients reach the store only through it, so each
request is atomic and everything between two requests of one client may be interleaved with the
requests of others. Publishing an invoice update is one more request here, since a scan
interleaves it with its saves.

Any request may fail: `Faults` lists which of the coming requests do. A request that fails leaves
the store as it was. -/

namespace AcceptXmr

/-- The messages of the storage manager, and the publication of an update. -/
inductive Request where
  | insertInvoice (invoice : Invoice)
  | removeInvoice (id : InvoiceId)
  | updateInvoice (invoice : Invoice)
  | getInvoice (id : InvoiceId)
  | getInvoiceIds
  | containsSubIndex (index : SubIndex)
  /-- Answered by what the closure is called with, item by item. -/
  | forEachInvoice
  | lowestInvoiceHeight
  | getHeight
  | upsertHeight (height : ℕ)
  | getOutputKeyId (key : OutputPubKey)
  | insertOutputKey (key : OutputPubKey) (outputId : OutputId)
  | flush
  /-- `Publisher::send_updates`. -/
  | sendUpdates (invoice : Invoice)

/-- What a request is answered with. -/
@[reducible] def Request.Response : Request → Type
  | .insertInvoice _ => Except StorageError Unit
  | .removeInvoice _ => Except StorageError (Option Invoice)
  | .updateInvoice _ => Except StorageError (Option Invoice)
  | .getInvoice _ => Except StorageError (Option Invoice)
  | .getInvoiceIds => Except StorageError (List InvoiceId)
  | .containsSubIndex _ => Except StorageError Bool
  | .forEachInvoice => Except StorageError (List (Except StoreError Invoice))
  | .lowestInvoiceHeight => Except StorageError (Option ℕ)
  | .getHeight => Except StorageError (Option ℕ)
  | .upsertHeight _ => Except StorageError (Option ℕ)
  | .getOutputKeyId _ => Except StorageError (Option OutputId)
  | .insertOutputKey _ _ => Except StorageError Unit
  | .flush => Except StorageError Unit
  | .sendUpdates _ => Unit

/-- Which requests fail. `key` lists the outcomes of the coming output-key and subaddress requests
in the order in which they are served; requests past its end succeed. -/
structure Faults where
  key : List (Option StorageError) := []
  forEach : Option StorageError := none
  /-- Invoices that cannot be read while iterating. -/
  unreadable : InvoiceId → Bool := fun _ => false
  save : InvoiceId → Option StorageError := fun _ => none
  upsertHeight : Option StorageError := none
  flush : Option StorageError := none

/-- What an iteration over all invoices gets for one of them. -/
def Faults.read (self : Faults) (invoice : Invoice) : Except StoreError Invoice :=
  if self.unreadable invoice.id then .error .database else .ok invoice

/-- An invoice that can be read is read as it is stored. -/
theorem Faults.read_eq_ok {self : Faults} {invoice read : Invoice} :
    self.read invoice = .ok read ↔ self.unreadable invoice.id = false ∧ invoice = read := by
  unfold Faults.read
  split <;> simp [*]

/-- The state behind the requests: the store, the faults still to come and the updates published,
oldest first. -/
structure Shared where
  store : Store
  faults : Faults := {}
  published : List Invoice := []

/-- The outcome of the next output-key or subaddress request. -/
def Shared.nextFault (self : Shared) : Option StorageError × Shared :=
  match self.faults.key with
  | [] => (none, self)
  | fault :: rest => (fault, { self with faults := { self.faults with key := rest } })

/-- Serve a request that fails if a fault is due, and otherwise goes to the store. -/
def serve {α : Type} (fault : Option StorageError) (self : Shared)
    (method : Store → Except StoreError α × Store) : Except StorageError α × Shared :=
  match fault with
  | some e => (.error e, self)
  | none =>
      let (result, store) := method self.store
      (result.mapError .internal, { self with store := store })

/-- `Manager::handle`. -/
def handle (S : Backend) : (req : Request) → Shared → req.Response × Shared
  | .insertInvoice invoice, self =>
      serve none self fun store =>
        match store.insertInvoice invoice with
        | .error e => (.error e, store)
        | .ok store' => (.ok (), store')
  | .removeInvoice id, self =>
      serve none self fun store => (.ok (store.getInvoice id), store.removeInvoice id)
  -- An update of an id that is not stored does nothing and answers `none`.
  | .updateInvoice invoice, self =>
      serve (self.faults.save invoice.id) self fun store =>
        (.ok (store.getInvoice invoice.id), store.updateInvoice invoice)
  | .getInvoice id, self => serve none self fun store => (.ok (store.getInvoice id), store)
  | .getInvoiceIds, self => serve none self fun store => (.ok store.getIds, store)
  | .containsSubIndex index, self =>
      let (fault, self) := self.nextFault
      serve fault self fun store => (.ok (S.containsSubIndex store.invoices index), store)
  -- Invoices that cannot be read are passed to the closure as errors.
  | .forEachInvoice, self =>
      serve self.faults.forEach self fun store =>
        (.ok (store.invoices.map self.faults.read), store)
  | .lowestInvoiceHeight, self => serve none self fun store => (.ok store.lowestHeight, store)
  | .getHeight, self => serve none self fun store => (.ok store.height, store)
  | .upsertHeight height, self =>
      serve self.faults.upsertHeight self fun store =>
        (.ok store.height, store.upsertHeight height)
  | .getOutputKeyId key, self =>
      let (fault, self) := self.nextFault
      serve fault self fun store => (.ok (store.outputKeys key), store)
  | .insertOutputKey key outputId, self =>
      let (fault, self) := self.nextFault
      serve fault self fun store =>
        match store.insertOutputKey key outputId with
        | .error e => (.error e, store)
        | .ok store' => (.ok (), store')
  | .flush, self => serve self.faults.flush self fun store => (.ok (), store)
  | .sendUpdates invoice, self => ((), { self with published := self.published ++ [invoice] })

/-! ## What the key requests can do -/

/-- **Growth of the output keys**: the only change that scanning transactions makes. Recorded keys
stay, invoices and height do not change, faults are used up. -/
structure Grows (s s' : Shared) : Prop where
  invoices : s'.store.invoices = s.store.invoices
  height : s'.store.height = s.store.height
  published : s'.published = s.published
  keys : ∀ key id, s.store.outputKeys key = some id → s'.store.outputKeys key = some id
  faults : s'.faults = { s.faults with key := s'.faults.key }
  exhausted : s.faults.key = [] → s'.faults.key = []

/-- Nothing done is a step of growth. -/
theorem Grows.refl (s : Shared) : Grows s s := ⟨rfl, rfl, rfl, fun _ _ h => h, rfl, id⟩

/-- Steps of growth make up one. -/
theorem Grows.trans {s s' s'' : Shared} (h : Grows s s') (h' : Grows s' s'') : Grows s s'' where
  invoices := h'.invoices.trans h.invoices
  height := h'.height.trans h.height
  published := h'.published.trans h.published
  keys key id hk := h'.keys key id (h.keys key id hk)
  faults := by rw [h'.faults, h.faults]
  exhausted hk := h'.exhausted (h.exhausted hk)

/-- Using up a fault is growth. -/
theorem Shared.nextFault_grows (s : Shared) : Grows s s.nextFault.2 := by
  unfold Shared.nextFault
  split
  · exact .refl s
  · rename_i hk
    exact ⟨rfl, rfl, rfl, fun _ _ h => h, rfl, fun h => absurd (hk.symm.trans h) (by simp)⟩

/-- Asking whether an index is tracked is growth. -/
theorem handle_containsSubIndex_grows (S : Backend) (index : SubIndex) (s : Shared) :
    Grows s (handle S (.containsSubIndex index) s).2 := by
  refine s.nextFault_grows.trans ?_
  simp only [handle, serve]
  split <;> exact .refl _

/-- A positive answer says that the index is tracked. -/
theorem handle_containsSubIndex_ok {S : Backend} {index : SubIndex} {s : Shared} {found : Bool}
    (h : (handle S (.containsSubIndex index) s).1 = .ok found) :
    found = S.containsSubIndex s.store.invoices index := by
  simp only [handle, serve] at h
  split at h
  · cases h
  · rw [← s.nextFault_grows.invoices]
    cases h
    rfl

/-- Looking up an output key is growth. -/
theorem handle_getOutputKeyId_grows (S : Backend) (key : OutputPubKey) (s : Shared) :
    Grows s (handle S (.getOutputKeyId key) s).2 := by
  refine s.nextFault_grows.trans ?_
  simp only [handle, serve]
  split <;> exact .refl _

/-- A key lookup that succeeds gives the recorded id, which is still recorded afterwards. -/
theorem handle_getOutputKeyId_ok {S : Backend} {key : OutputPubKey} {s : Shared}
    {found : Option OutputId} (h : (handle S (.getOutputKeyId key) s).1 = .ok found) :
    (handle S (.getOutputKeyId key) s).2.store.outputKeys key = found := by
  simp only [handle, serve] at h ⊢
  split at h
  · cases h
  · cases h
    simp_all

/-- Recording an output key is growth. -/
theorem handle_insertOutputKey_grows (S : Backend) (key : OutputPubKey) (outputId : OutputId)
    (s : Shared) : Grows s (handle S (.insertOutputKey key outputId) s).2 := by
  refine s.nextFault_grows.trans ?_
  simp only [handle, serve]
  split
  · exact .refl _
  · rename_i s' _
    simp only [Store.insertOutputKey]
    cases hk : s.nextFault.2.store.outputKeys key with
    | some id => exact .refl _
    | none =>
        refine ⟨rfl, rfl, rfl, fun key' id h => ?_, rfl, id⟩
        have hne : key' ≠ key := fun hkey => by rw [hkey, hk] at h; cases h
        simpa [Function.update_of_ne hne] using h

/-- A key that has been recorded is recorded under the given id. -/
theorem handle_insertOutputKey_ok {S : Backend} {key : OutputPubKey} {outputId : OutputId}
    {s : Shared} (h : (handle S (.insertOutputKey key outputId) s).1 = .ok ()) :
    (handle S (.insertOutputKey key outputId) s).2.store.outputKeys key = some outputId := by
  simp only [handle, serve] at h ⊢
  split at h
  · cases h
  · simp only [Store.insertOutputKey] at h ⊢
    cases hk : s.nextFault.2.store.outputKeys key with
    | some id =>
        rw [hk] at h
        cases h
    | none => simp

end AcceptXmr
