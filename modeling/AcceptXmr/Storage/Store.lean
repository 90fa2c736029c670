import AcceptXmr.MonerodClient
import Mathlib.Data.List.Nodup

/-! # The storage layer

What the traits of `library/src/storage` promise of a store: a map from invoice ids to invoices, a
map from output keys to output ids that never changes an entry, and a height. A `Store` carries the
proof that its invoice ids are distinct. `Backend` is the one place where the built-in stores
differ observably, the lookup of a subaddress index. -/

namespace AcceptXmr

/-- Why a store refuses an operation. -/
inductive StoreError where
  | duplicateInvoice
  | duplicateOutputKey
  | database
  deriving DecidableEq, Repr

/-- An error occurring while storing or retrieving values through the storage manager. -/
inductive StorageError where
  | send
  | receive
  | internal (cause : StoreError)
  deriving DecidableEq, Repr

/-- The contents of a store. -/
@[ext] structure Store where
  invoices : List Invoice
  outputKeys : OutputPubKey → Option OutputId
  height : Option ℕ
  /-- Invoices are keyed by their id. -/
  nodupIds : (invoices.map Invoice.id).Nodup

namespace Store

/-- An empty store. -/
def empty : Store := ⟨[], fun _ => none, none, List.nodup_nil⟩

/-! ## `InvoiceStorage` -/

/-- The ids of all stored invoices. -/
def getIds (self : Store) : List InvoiceId := self.invoices.map Invoice.id

/-- Retrieve an invoice, `none` if it does not exist. -/
def getInvoice (self : Store) (id : InvoiceId) : Option Invoice :=
  self.invoices.find? fun invoice => invoice.id = id

/-- Insert an invoice. Fails if its id is already present. -/
def insertInvoice (self : Store) (invoice : Invoice) : Except StoreError Store :=
  if h : invoice.id ∈ self.invoices.map Invoice.id then .error .duplicateInvoice
  else .ok { self with
    invoices := self.invoices ++ [invoice]
    nodupIds := by
      rw [List.map_append, List.map_singleton]
      exact self.nodupIds.append (List.nodup_singleton _) (by simpa using h) }

/-- The invoices without the one of the given id. -/
def removeInvoice (self : Store) (id : InvoiceId) : Store :=
  { self with
    invoices := self.invoices.filter fun invoice => decide (invoice.id ≠ id)
    nodupIds := self.nodupIds.sublist ((List.filter_sublist ..).map _) }

/-- Replacing invoices by invoices with the same id keeps the ids. -/
theorem map_id_map {f : Invoice → Invoice} (hf : ∀ invoice, (f invoice).id = invoice.id)
    (invoices : List Invoice) : (invoices.map f).map Invoice.id = invoices.map Invoice.id := by
  simp [Function.comp_def, hf]

/-- Replace every stored invoice by one with the same id. -/
def mapInvoices (self : Store) (f : Invoice → Invoice) (hf : ∀ invoice, (f invoice).id = invoice.id) :
    Store :=
  { self with
    invoices := self.invoices.map f
    nodupIds := by rw [map_id_map hf]; exact self.nodupIds }

/-- Overwrite the stored invoice with the same id, if there is one. -/
def updateInvoice (self : Store) (invoice : Invoice) : Store :=
  self.mapInvoices (fun old => if old.id = invoice.id then invoice else old) (by
    intro old
    split
    · rename_i h; exact h.symm
    · rfl)

/-- The lowest `current_height` of a stored invoice. -/
def lowestHeight (self : Store) : Option ℕ :=
  self.invoices.foldl (fun lowest invoice =>
    match lowest with
    | some l => if l > invoice.currentHeight then some invoice.currentHeight else some l
    | none => some invoice.currentHeight) none

/-- A fold that goes down to the key of every element ends below all of them. -/
theorem foldl_le {α : Type} {f : Option ℕ → α → Option ℕ} {key : α → ℕ}
    (hf : ∀ lowest a, ∃ l, f lowest a = some l ∧ l ≤ key a ∧ ∀ k, lowest = some k → l ≤ k)
    (as : List α) (lowest : Option ℕ) :
    (∀ k, lowest = some k → ∃ l, as.foldl f lowest = some l ∧ l ≤ k) ∧
      ∀ a ∈ as, ∃ l, as.foldl f lowest = some l ∧ l ≤ key a := by
  induction as generalizing lowest with
  | nil => exact ⟨fun k hk => ⟨k, hk, Nat.le_refl _⟩, by simp⟩
  | cons a as ih =>
      obtain ⟨l, hl, hkey, hlowest⟩ := hf lowest a
      obtain ⟨hstart, hrest⟩ := ih (f lowest a)
      obtain ⟨m, hm, hle⟩ := hstart l hl
      refine ⟨fun k hk => ⟨m, hm, Nat.le_trans hle (hlowest k hk)⟩, fun b hb => ?_⟩
      rcases List.mem_cons.mp hb with rfl | hb
      · exact ⟨m, hm, Nat.le_trans hle hkey⟩
      · exact hrest b hb

/-- The lowest height is not above that of any invoice. -/
theorem lowestHeight_le {self : Store} {invoice : Invoice} (h : invoice ∈ self.invoices) :
    ∃ l, self.lowestHeight = some l ∧ l ≤ invoice.currentHeight := by
  refine (foldl_le (fun lowest invoice => ?_) self.invoices none).2 invoice h
  cases lowest with
  | none => exact ⟨invoice.currentHeight, rfl, Nat.le_refl _, by simp⟩
  | some k =>
      simp only [Option.some.injEq, forall_eq']
      split
      · exact ⟨_, rfl, Nat.le_refl _, by omega⟩
      · exact ⟨_, rfl, by omega, Nat.le_refl _⟩

/-! ## `OutputKeyStorage` and `HeightStorage` -/

/-- Record an output key. Fails if the key is already recorded. -/
def insertOutputKey (self : Store) (key : OutputPubKey) (outputId : OutputId) :
    Except StoreError Store :=
  match self.outputKeys key with
  | some _ => .error .duplicateOutputKey
  | none => .ok { self with outputKeys := Function.update self.outputKeys key (some outputId) }

/-- Update the stored height. -/
def upsertHeight (self : Store) (height : ℕ) : Store := { self with height := some height }

/-! ## Lookups -/

@[simp] theorem removeInvoice_outputKeys (self : Store) (id : InvoiceId) :
    (self.removeInvoice id).outputKeys = self.outputKeys := rfl

theorem mem_of_getInvoice {self : Store} {id : InvoiceId} {invoice : Invoice}
    (h : self.getInvoice id = some invoice) : invoice ∈ self.invoices ∧ invoice.id = id :=
  ⟨List.mem_of_find?_eq_some h, by simpa using List.find?_some h⟩

/-- A stored invoice is the one found under its id. -/
theorem getInvoice_of_mem {self : Store} {invoice : Invoice} (h : invoice ∈ self.invoices) :
    self.getInvoice invoice.id = some invoice := by
  have hinj := List.inj_on_of_nodup_map self.nodupIds
  cases hfind : self.getInvoice invoice.id with
  | none =>
      rw [getInvoice, List.find?_eq_none] at hfind
      exact absurd (decide_eq_true rfl) (hfind invoice h)
  | some other =>
      obtain ⟨hmem, hid⟩ := mem_of_getInvoice hfind
      rw [hinj hmem h hid]

theorem getInvoice_eq_none_iff {self : Store} {id : InvoiceId} :
    self.getInvoice id = none ↔ id ∉ self.getIds := by
  rw [getInvoice, List.find?_eq_none, getIds, List.mem_map]
  simp

/-- Removing an id that is not there changes nothing. -/
theorem removeInvoice_of_getInvoice {self : Store} {id : InvoiceId} (h : self.getInvoice id = none) :
    self.removeInvoice id = self := by
  rw [getInvoice, List.find?_eq_none] at h
  refine Store.ext (List.filter_eq_self.mpr fun invoice hmem => ?_) rfl rfl
  simpa using h invoice hmem

/-- **Removing an invoice** takes it away and leaves the others. -/
theorem perm_removeInvoice {self : Store} {id : InvoiceId} {old : Invoice}
    (h : self.getInvoice id = some old) :
    (old :: (self.removeInvoice id).invoices).Perm self.invoices := by
  obtain ⟨hmem, rfl⟩ := mem_of_getInvoice h
  have hinj := List.inj_on_of_nodup_map self.nodupIds
  have herase : (self.removeInvoice old.id).invoices = self.invoices.erase old := by
    rw [(List.Nodup.of_map _ self.nodupIds).erase_eq_filter]
    refine List.filter_congr fun invoice hinvoice => ?_
    by_cases heq : invoice = old
    · simp [heq]
    · have hne : invoice.id ≠ old.id := fun hid => heq (hinj hinvoice hmem hid)
      simp [heq, hne]
  rw [herase]
  exact (List.perm_cons_erase hmem).symm

/-- An invoice that can be inserted goes to the end. -/
theorem insertInvoice_ok {self store : Store} {invoice : Invoice}
    (h : self.insertInvoice invoice = .ok store) :
    invoice.id ∉ self.getIds ∧ store.invoices = self.invoices ++ [invoice] := by
  unfold insertInvoice at h
  split at h
  · cases h
  · rename_i hnew
    cases h
    exact ⟨hnew, rfl⟩

/-- What is found after an invoice has been inserted. -/
theorem getInvoice_insertInvoice {self store : Store} {invoice : Invoice}
    (h : self.insertInvoice invoice = .ok store) :
    store.getInvoice = Function.update self.getInvoice invoice.id (some invoice) := by
  obtain ⟨hfresh, hinvoices⟩ := insertInvoice_ok h
  funext id
  rw [getInvoice, hinvoices, List.find?_append]
  by_cases heq : id = invoice.id
  · subst heq
    have hnone : self.invoices.find? (fun stored => stored.id = invoice.id) = none :=
      getInvoice_eq_none_iff.mpr hfresh
    simp [hnone]
  · rw [Function.update_of_ne heq, List.find?_singleton, if_neg (by simpa using Ne.symm heq)]
    exact Option.or_none

/-- What is found after an id has been removed. -/
theorem getInvoice_removeInvoice (self : Store) (id : InvoiceId) :
    (self.removeInvoice id).getInvoice = Function.update self.getInvoice id none := by
  funext id'
  by_cases heq : id' = id
  · subst heq
    rw [Function.update_self, getInvoice_eq_none_iff, getIds, removeInvoice, List.mem_map]
    rintro ⟨invoice, hmem, hid⟩
    exact absurd hid (by simpa using (List.mem_filter.mp hmem).2)
  · rw [Function.update_of_ne heq, getInvoice, removeInvoice, List.find?_filter]
    refine congrArg (fun p => self.invoices.find? p) (funext fun invoice => ?_)
    by_cases hid : invoice.id = id'
    · simp [hid, heq]
    · simp [hid]

/-- Inserting an invoice leaves the height. -/
theorem height_insertInvoice {self store : Store} {invoice : Invoice}
    (h : self.insertInvoice invoice = .ok store) : store.height = self.height := by
  unfold insertInvoice at h
  split at h
  · cases h
  · cases h
    rfl

/-- Inserting an invoice changes the store. -/
theorem insertInvoice_ne_self (self : Store) (invoice : Invoice) :
    self.insertInvoice invoice ≠ .ok self := by
  intro h
  have hlength := congrArg List.length (insertInvoice_ok h).2
  simp at hlength

/-- Inserting an output key changes the store. -/
theorem insertOutputKey_ne_self (self : Store) (key : OutputPubKey) (outputId : OutputId) :
    self.insertOutputKey key outputId ≠ .ok self := by
  intro h
  unfold insertOutputKey at h
  split at h
  · cases h
  · rename_i hnew
    have hkeys : Function.update self.outputKeys key (some outputId) key = self.outputKeys key :=
      congrFun (congrArg Store.outputKeys (Except.ok.inj h)) key
    rw [Function.update_self, hnew] at hkeys
    cases hkeys

/-- Inserting an invoice leaves the output keys. -/
theorem outputKeys_insertInvoice {self store : Store} {invoice : Invoice}
    (h : self.insertInvoice invoice = .ok store) : store.outputKeys = self.outputKeys := by
  unfold insertInvoice at h
  split at h
  · cases h
  · cases h
    rfl

/-- Only an id that is taken is refused. -/
theorem mem_getIds_of_insertInvoice {self : Store} {invoice : Invoice} {e : StoreError}
    (h : self.insertInvoice invoice = .error e) : invoice.id ∈ self.getIds := by
  unfold insertInvoice at h
  split at h
  · rename_i hmem
    exact hmem
  · cases h

/-- What is stored after an update. -/
theorem mem_updateInvoice {self : Store} {invoice stored : Invoice}
    (h : stored ∈ (self.updateInvoice invoice).invoices) :
    (stored = invoice ∧ invoice.id ∈ self.getIds) ∨
      (stored ∈ self.invoices ∧ stored.id ≠ invoice.id) := by
  obtain ⟨old, hold, rfl⟩ := List.mem_map.mp h
  by_cases hid : old.id = invoice.id
  · rw [if_pos hid, ← hid]
    exact .inl ⟨rfl, List.mem_map_of_mem hold⟩
  · rw [if_neg hid]
    exact .inr ⟨hold, hid⟩

/-- An update keeps the ids. -/
theorem getIds_updateInvoice (self : Store) (invoice : Invoice) :
    (self.updateInvoice invoice).getIds = self.getIds := by
  refine map_id_map (fun old => ?_) _
  split
  · rename_i h
    exact h.symm
  · rfl

/-- An updated invoice is stored if there was one with its id. -/
theorem mem_updateInvoice_self {self : Store} {invoice : Invoice} (h : invoice.id ∈ self.getIds) :
    invoice ∈ (self.updateInvoice invoice).invoices := by
  obtain ⟨old, hold, hid⟩ := List.mem_map.mp h
  exact List.mem_map.mpr ⟨old, hold, if_pos hid⟩

/-- Saving updates touches neither the output keys nor the height. -/
theorem foldl_updateInvoice_frame (updates : List Invoice) (self : Store) :
    (updates.foldl updateInvoice self).outputKeys = self.outputKeys ∧
      (updates.foldl updateInvoice self).height = self.height := by
  induction updates generalizing self with
  | nil => exact ⟨rfl, rfl⟩
  | cons invoice updates ih => exact ih (self.updateInvoice invoice)

/-- **Saving updates one by one** replaces each stored invoice that has an update. -/
theorem foldl_updateInvoice {g : Invoice → Option Invoice}
    (hg : ∀ old new, g old = some new → new.id = old.id) (l : List Invoice) (self : Store)
    (hl : (l.map Invoice.id).Nodup)
    (hmem : ∀ old ∈ self.invoices, ∀ x ∈ l, old.id = x.id → old = x) :
    ((l.filterMap g).foldl updateInvoice self).invoices
      = self.invoices.map fun old => if old ∈ l then (g old).getD old else old := by
  induction l generalizing self with
  | nil => simp
  | cons x l ih =>
      rw [List.map_cons, List.nodup_cons] at hl
      have hx : ∀ old ∈ self.invoices, old.id = x.id → old ∉ l := by
        intro old _ hid hold
        exact hl.1 (hid ▸ List.mem_map_of_mem hold)
      have hmem' : ∀ old ∈ self.invoices, ∀ y ∈ l, old.id = y.id → old = y :=
        fun old hold y hy => hmem old hold y (List.mem_cons_of_mem _ hy)
      -- The first of the list: without an update it is passed over, else it takes the place of the
      -- stored one.
      cases hgx : g x with
      | none =>
          rw [List.filterMap_cons_none hgx, ih self hl.2 hmem']
          refine List.map_congr_left fun old _ => ?_
          by_cases hold : old = x
          · simp [hold, hgx]
          · simp [hold]
      | some new =>
          have hid := hg x new hgx
          rw [List.filterMap_cons_some hgx, List.foldl_cons, ih (self.updateInvoice new) hl.2 ?_]
          · simp only [updateInvoice, mapInvoices, List.map_map]
            refine List.map_congr_left fun old hold => ?_
            -- Ids are unique, so that the updates of the rest do not touch it again.
            by_cases hox : old.id = x.id
            · have hnew : new ∉ l := fun h => hl.1 (hid ▸ List.mem_map_of_mem h)
              obtain rfl := hmem old hold x (List.mem_cons_self ..) hox
              simp [hid, hnew, hgx]
            · have hne : old ≠ x := fun h => hox (h ▸ rfl)
              simp [hid, hox, hne]
          · intro old hold y hy hy'
            obtain ⟨old', hold', rfl⟩ := List.mem_map.mp hold
            by_cases hox : old'.id = new.id
            · rw [if_pos hox, hid] at hy'
              exact absurd (hy' ▸ List.mem_map_of_mem hy) hl.1
            · rw [if_neg hox] at hy' ⊢
              exact hmem' old' hold' y hy hy'

end Store

/-- How a store answers whether some invoice uses a subaddress index. The scanner relies on the
answer being positive for every tracked invoice; a positive answer for an unused index is
harmless to it, and the in-memory store gives such answers. -/
structure Backend where
  containsSubIndex : List Invoice → SubIndex → Bool
  complete : ∀ {invoices : List Invoice} {invoice : Invoice}, invoice ∈ invoices →
    containsSubIndex invoices invoice.index = true

/-- The lookup as the storage trait documents it. -/
def Backend.exact : Backend where
  containsSubIndex invoices s := invoices.any fun invoice => invoice.index == s
  complete h := List.any_eq_true.mpr ⟨_, h, by simp⟩

end AcceptXmr
