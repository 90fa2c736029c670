import AcceptXmr.Scanner.ScanTransactions

/-! # Updating invoices with the transfers of a scan

The closure that `Scanner::update_invoices` runs on every stored invoice, as a function, and the
program that sends it to the storage manager.

* **`settle_transfers_perm`** — after an update, an invoice holds its transfers from below the
  deepest updated block and those of the scan that are addressed to it, whether the update was
  skipped or not. -/

namespace AcceptXmr

open scoped List

/-- One round of the loop that adds up an invoice's transfers. Amounts are `u64`. -/
def Invoice.addTransfer (self : Invoice) (transfer : Transfer) : Invoice :=
  let amountPaid := (self.amountPaid + transfer.amount) % u64Size
  { self with
    amountPaid := amountPaid
    paidHeight :=
      if amountPaid ≥ self.amountRequested ∧ self.paidHeight = none then transfer.height
      else self.paidHeight }

/-- Recalculate the amount paid and the height at which the invoice was paid. -/
def Invoice.recalculate (self : Invoice) : Invoice :=
  self.transfers.foldl Invoice.addTransfer { self with paidHeight := none, amountPaid := 0 }

namespace Scanner

/-- The transfers that survive: those below the deepest updated block. -/
def keptTransfers (deepestUpdate : ℕ) (old : Invoice) : List Transfer :=
  old.transfers.filter fun transfer => (transfer.cmpByHeight ⟨0, some deepestUpdate⟩).isLT

/-- The transfers of a scan that are added to an invoice. The bound is one below the creation
height because the creation height is one above the top block. -/
def addedTransfers (transfers : List (SubIndex × Transfer)) (old : Invoice) : List Transfer :=
  (transfers.filter fun e => decide (e.1 = old.index) &&
    (e.2.cmpByHeight ⟨0, some (U64.sub old.creationHeight 1)⟩).isGT).map Prod.snd

/-- The closure of `update_invoices`: the updated invoice, `none` if nothing changed. -/
def updateInvoice (transfers : List (SubIndex × Transfer)) (blockCacheHeight deepestUpdate : ℕ)
    (old : Invoice) : Option Invoice :=
  let invoice := { old with
    transfers := keptTransfers deepestUpdate old ++ addedTransfers transfers old
    currentHeight := blockCacheHeight + 1 }
  if invoice.eq old then none else some invoice.recalculate

/-- The invoices collected while iterating. Those that cannot be read are skipped. -/
def updatedInvoices (transfers : List (SubIndex × Transfer)) (blockCacheHeight deepestUpdate : ℕ)
    (items : List (Except StoreError Invoice)) : List Invoice :=
  items.filterMap fun
    | .error _ => none
    | .ok old => updateInvoice transfers blockCacheHeight deepestUpdate old

/-- `update_invoices`. The deepest update is `height - blocks_updated + 1` in wrapping arithmetic,
where it does not matter that the source subtracts before it adds. -/
def updateInvoices (transfers : List (SubIndex × Transfer)) (blockCacheHeight blocksUpdated : ℕ) :
    Program (List Invoice) := do
  let deepestUpdate := U64.sub (blockCacheHeight + 1) blocksUpdated
  let items ← StorageClient.forEachInvoice
  pure (updatedInvoices transfers blockCacheHeight deepestUpdate items)

end Scanner

/-! ## Frame of the recalculation -/

/-- The fields that no scan changes. -/
structure Invoice.SameTerms (old new : Invoice) : Prop where
  index : new.index = old.index
  creationHeight : new.creationHeight = old.creationHeight
  amountRequested : new.amountRequested = old.amountRequested
  expirationHeight : new.expirationHeight = old.expirationHeight
  confirmationsRequired : new.confirmationsRequired = old.confirmationsRequired

/-- The same terms mean the same id. -/
theorem Invoice.SameTerms.id {old new : Invoice} (h : old.SameTerms new) : new.id = old.id := by
  rw [Invoice.id, Invoice.id, h.index, h.creationHeight]

/-- What an invoice keeps from its creation on. -/
structure Invoice.Keeps (old new : Invoice) : Prop extends old.SameTerms new where
  address : new.address = old.address
  description : new.description = old.description

/-- An invoice keeps its own terms. -/
theorem Invoice.Keeps.refl (invoice : Invoice) : invoice.Keeps invoice :=
  ⟨⟨rfl, rfl, rfl, rfl, rfl⟩, rfl, rfl⟩

/-- Terms are kept over several updates. -/
theorem Invoice.Keeps.trans {a b c : Invoice} (hab : a.Keeps b) (hbc : b.Keeps c) : a.Keeps c where
  index := hbc.index.trans hab.index
  creationHeight := hbc.creationHeight.trans hab.creationHeight
  amountRequested := hbc.amountRequested.trans hab.amountRequested
  expirationHeight := hbc.expirationHeight.trans hab.expirationHeight
  confirmationsRequired := hbc.confirmationsRequired.trans hab.confirmationsRequired
  address := hbc.address.trans hab.address
  description := hbc.description.trans hab.description

/-- Adding up transfers changes the two calculated fields only. -/
theorem Invoice.foldl_addTransfer_eq (transfers : List Transfer) (invoice : Invoice) :
    transfers.foldl Invoice.addTransfer invoice = { invoice with
      amountPaid := (transfers.foldl Invoice.addTransfer invoice).amountPaid
      paidHeight := (transfers.foldl Invoice.addTransfer invoice).paidHeight } := by
  induction transfers generalizing invoice with
  | nil => rfl
  | cons t transfers ih =>
      rw [List.foldl_cons, ih]
      rfl

/-- Recalculating changes the two calculated fields only. -/
theorem Invoice.recalculate_eq (self : Invoice) :
    self.recalculate = { self with
      amountPaid := self.recalculate.amountPaid
      paidHeight := self.recalculate.paidHeight } :=
  Invoice.foldl_addTransfer_eq self.transfers _

namespace Scanner

/-- The two ways in which an update ends: skipped because nothing changed, or recalculated. -/
theorem updateInvoice_cases (transfers : List (SubIndex × Transfer))
    (blockCacheHeight deepestUpdate : ℕ) (old : Invoice) :
    (updateInvoice transfers blockCacheHeight deepestUpdate old = none ∧
      (keptTransfers deepestUpdate old ++ addedTransfers transfers old).Perm old.transfers ∧
      old.currentHeight = blockCacheHeight + 1) ∨
    ∃ invoice, updateInvoice transfers blockCacheHeight deepestUpdate old = some invoice ∧
      invoice = { old with
        transfers := keptTransfers deepestUpdate old ++ addedTransfers transfers old
        currentHeight := blockCacheHeight + 1 }.recalculate := by
  unfold updateInvoice
  by_cases heq : { old with
      transfers := keptTransfers deepestUpdate old ++ addedTransfers transfers old
      currentHeight := blockCacheHeight + 1 }.eq old = true
  · refine .inl ⟨if_pos heq, ?_⟩
    obtain ⟨hperm, hrest⟩ := Invoice.eq_iff.mp heq
    exact ⟨hperm, (congrArg Invoice.currentHeight hrest).symm⟩
  · exact .inr ⟨_, if_neg heq, rfl⟩

/-- The invoice as it is after an update that may have been skipped. -/
def settle (transfers : List (SubIndex × Transfer)) (blockCacheHeight deepestUpdate : ℕ)
    (old : Invoice) : Invoice :=
  (updateInvoice transfers blockCacheHeight deepestUpdate old).getD old

section Settle

variable (transfers : List (SubIndex × Transfer)) (blockCacheHeight deepestUpdate : ℕ)
  (old : Invoice)

/-- An update leaves alone what the invoice was created with. -/
theorem settle_keeps : old.Keeps (settle transfers blockCacheHeight deepestUpdate old) := by
  unfold settle
  obtain ⟨h, -⟩ | ⟨invoice, h, hinvoice⟩ :=
    updateInvoice_cases transfers blockCacheHeight deepestUpdate old
  · rw [h]
    exact .refl old
  · rw [h, hinvoice, Invoice.recalculate_eq]
    exact ⟨⟨rfl, rfl, rfl, rfl, rfl⟩, rfl, rfl⟩

/-- Settling an invoice leaves its terms as they are. -/
theorem settle_sameTerms : old.SameTerms (settle transfers blockCacheHeight deepestUpdate old) :=
  (settle_keeps transfers blockCacheHeight deepestUpdate old).toSameTerms

/-- An update of an invoice is of the same invoice, under the same terms. -/
theorem updateInvoice_keeps {invoice : Invoice}
    (h : updateInvoice transfers blockCacheHeight deepestUpdate old = some invoice) :
    old.Keeps invoice := by
  have hsettle := settle_keeps transfers blockCacheHeight deepestUpdate old
  rwa [settle, h] at hsettle

/-- It leaves all of the terms the same. -/
theorem updateInvoice_sameTerms {invoice : Invoice}
    (h : updateInvoice transfers blockCacheHeight deepestUpdate old = some invoice) :
    old.SameTerms invoice :=
  (updateInvoice_keeps transfers blockCacheHeight deepestUpdate old h).toSameTerms

/-- **The transfers after an update**, up to order. -/
theorem settle_transfers_perm : (settle transfers blockCacheHeight deepestUpdate old).transfers.Perm
    (keptTransfers deepestUpdate old ++ addedTransfers transfers old) := by
  unfold settle
  obtain ⟨h, hperm, -⟩ | ⟨invoice, h, hinvoice⟩ :=
    updateInvoice_cases transfers blockCacheHeight deepestUpdate old
  · rw [h]
    exact hperm.symm
  · rw [h, hinvoice, Invoice.recalculate_eq]
    exact .refl _

/-- Every update brings the invoice to the height of the cache. -/
theorem settle_currentHeight :
    (settle transfers blockCacheHeight deepestUpdate old).currentHeight = blockCacheHeight + 1 := by
  unfold settle
  obtain ⟨h, -, hheight⟩ | ⟨invoice, h, hinvoice⟩ :=
    updateInvoice_cases transfers blockCacheHeight deepestUpdate old
  · rw [h]
    exact hheight
  · rw [h, hinvoice, Invoice.recalculate_eq]
    rfl

end Settle

end Scanner

/-! ## Transfers at one height -/

/-- The transfers of an invoice at a height, `none` for the txpool. -/
def Invoice.transfersAt (self : Invoice) (height : Option ℕ) : List Transfer :=
  self.transfers.filter fun transfer => transfer.height = height

/-- Whether a transfer in a block at this height may be added to an invoice. The bound wraps around
for an invoice that is created at height zero, which receives nothing in blocks. -/
def Invoice.ReceivesAt (self : Invoice) (b : ℕ) : Prop := U64.sub self.creationHeight 1 < b

instance (invoice : Invoice) (b : ℕ) : Decidable (invoice.ReceivesAt b) :=
  inferInstanceAs (Decidable (_ < _))

/-- An invoice receives from its creation height on. -/
theorem Invoice.receivesAt_iff {invoice : Invoice} (h : 1 ≤ invoice.creationHeight) {b : ℕ} :
    invoice.ReceivesAt b ↔ invoice.creationHeight ≤ b := by
  rw [ReceivesAt, U64.sub_of_le h]
  omega

/-- Below its creation height an invoice receives nothing. -/
theorem Invoice.ReceivesAt.creationHeight_le {invoice : Invoice} {b : ℕ}
    (h : invoice.ReceivesAt b) : invoice.creationHeight ≤ b := by
  by_cases hpos : 1 ≤ invoice.creationHeight
  · exact (receivesAt_iff hpos).mp h
  · omega

/-- Invoices of the same terms receive payments at the same heights. -/
theorem Invoice.SameTerms.receivesAt_iff {old new : Invoice} (h : old.SameTerms new) {b : ℕ} :
    new.ReceivesAt b ↔ old.ReceivesAt b := by
  rw [Invoice.ReceivesAt, Invoice.ReceivesAt, h.creationHeight]

namespace Scanner

/-- Below the deepest update the old transfers stay. -/
theorem keptTransfers_filter_of_lt {deepestUpdate b : ℕ} (old : Invoice) (hb : b < deepestUpdate) :
    (keptTransfers deepestUpdate old).filter (fun t => t.height = some b)
      = old.transfersAt (some b) := by
  rw [keptTransfers, List.filter_filter, Invoice.transfersAt]
  refine List.filter_congr fun t _ => ?_
  by_cases ht : t.height = some b
  · have : (t.cmpByHeight ⟨0, some deepestUpdate⟩).isLT = true :=
      Transfer.cmpByHeight_isLT.mpr ⟨b, ht, hb⟩
    simp [ht, this]
  · simp [ht]

/-- From the deepest update on, and in the txpool, nothing stays. -/
theorem keptTransfers_filter_of_not_lt {deepestUpdate : ℕ} {height : Option ℕ} (old : Invoice)
    (hb : ∀ b, height = some b → deepestUpdate ≤ b) :
    (keptTransfers deepestUpdate old).filter (fun t => t.height = height) = [] := by
  rw [keptTransfers, List.filter_filter, List.filter_eq_nil_iff]
  intro t _ h
  simp only [Bool.and_eq_true, decide_eq_true_eq] at h
  obtain ⟨b, hbt, hlt⟩ := Transfer.cmpByHeight_isLT.mp h.2
  exact absurd (hb b (h.1.symm.trans hbt)) (Nat.not_le.mpr hlt)

/-- What a scan adds at a height is what it found there, if the invoice receives at this height. -/
theorem addedTransfers_filter (transfers : List (SubIndex × Transfer)) {old : Invoice}
    (height : Option ℕ) :
    (addedTransfers transfers old).filter (fun t => t.height = height)
      = if ∀ b, height = some b → old.ReceivesAt b then
          ((transfers.filter fun e => decide (e.1 = old.index)).map Prod.snd).filter
            fun t => t.height = height
        else [] := by
  have hgt : ∀ t : Transfer, t.height = height →
      ((t.cmpByHeight ⟨0, some (U64.sub old.creationHeight 1)⟩).isGT = true ↔
        ∀ b, height = some b → old.ReceivesAt b) := by
    intro t ht
    rw [Transfer.cmpByHeight_isGT, ht]
    rfl
  rw [addedTransfers, List.filter_map, List.filter_filter]
  split
  · rename_i hb
    rw [List.filter_map, List.filter_filter]
    congr 1
    refine List.filter_congr fun e _ => ?_
    by_cases he : e.2.height = height
    · simp [he, (hgt e.2 he).mpr hb]
    · simp [he]
  · rename_i hb
    rw [List.map_eq_nil_iff, List.filter_eq_nil_iff]
    intro e _ h
    simp only [Function.comp_apply, Bool.and_eq_true, decide_eq_true_eq] at h
    exact hb ((hgt e.2 h.1).mp h.2.2)

/-- **The transfers at one height after an update.** -/
theorem settle_transfersAt (transfers : List (SubIndex × Transfer))
    (blockCacheHeight deepestUpdate : ℕ) (old : Invoice) (height : Option ℕ) :
    ((settle transfers blockCacheHeight deepestUpdate old).transfersAt height).Perm
      ((keptTransfers deepestUpdate old).filter (fun t => t.height = height) ++
        if ∀ b, height = some b → old.ReceivesAt b then
          ((transfers.filter fun e => decide (e.1 = old.index)).map Prod.snd).filter
            fun t => t.height = height
        else []) := by
  have hperm := (settle_transfers_perm transfers blockCacheHeight deepestUpdate old).filter
    fun t => decide (t.height = height)
  rwa [List.filter_append, addedTransfers_filter transfers height] at hperm

end Scanner

end AcceptXmr
