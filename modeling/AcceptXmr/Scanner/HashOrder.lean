import AcceptXmr.Library.InStep
import AcceptXmr.Library.Reordered
import AcceptXmr.Scanner.Publishing
import AcceptXmr.Scanner.TxpoolExactness
import AcceptXmr.Scanner.PaymentStatus

/-! # The order of hash maps

A scan collects what it finds in hash maps keyed by transaction hash, one for each block and one for
the pool, and goes over them in whatever order they have. The transfers of an invoice are then the
same up to the order within a block and within the pool. The sum of a group does not depend on its
order, so neither does the block in which the requested amount is reached, unless the running total
overflows on the way.

* **`recalculate_alike`** — adding up reordered transfers without overflow.
* **`scan_alike`** — two executions of one scan that differ in these orders. -/

namespace AcceptXmr

open AssocMap
open scoped List

/-- **Alike invoices** differ in the order of their transfers only. -/
structure Invoice.Alike (a b : Invoice) : Prop extends a.Keeps b where
  amountPaid : b.amountPaid = a.amountPaid
  paidHeight : b.paidHeight = a.paidHeight
  currentHeight : b.currentHeight = a.currentHeight
  transfers : b.transfers.Perm a.transfers

theorem Invoice.Alike.refl (a : Invoice) : a.Alike a := ⟨.refl a, rfl, rfl, rfl, .refl _⟩

theorem Invoice.Alike.forall₂_refl (invoices : List Invoice) :
    List.Forall₂ Invoice.Alike invoices invoices :=
  List.forall₂_same.mpr fun invoice _ => .refl invoice

/-! ## Adding up -/

namespace Invoice

/-- The transfers that an invoice already has play no part when others are added up. -/
theorem foldl_addTransfer_transfers (l transfers : List Transfer) (invoice : Invoice) :
    l.foldl addTransfer { invoice with transfers := transfers }
      = { l.foldl addTransfer invoice with transfers := transfers } := by
  induction l generalizing invoice with
  | nil => rfl
  | cons t l ih =>
      rw [List.foldl_cons, List.foldl_cons, ← ih]
      rfl

/-- Without overflow the amount paid is a sum. -/
theorem foldl_addTransfer_amountPaid {l : List Transfer} {invoice : Invoice}
    (h : invoice.amountPaid + totalOf l < u64Size) :
    (l.foldl addTransfer invoice).amountPaid = invoice.amountPaid + totalOf l := by
  induction l generalizing invoice with
  | nil => rfl
  | cons t l ih =>
      rw [← List.singleton_append, totalOf_append, totalOf_singleton] at h ⊢
      have hstep : (invoice.addTransfer t).amountPaid = invoice.amountPaid + t.amount :=
        Nat.mod_eq_of_lt (by omega)
      rw [List.singleton_append, List.foldl_cons, ih (by rw [hstep]; omega), hstep]
      omega

/-- **Adding up one group** of transfers of one height, without overflow: the requested amount is
reached in it exactly if it is reached by its sum. -/
theorem foldl_addTransfer_group {group : List Transfer} {height : Option ℕ}
    (hgroup : ∀ t ∈ group, t.height = height) {invoice : Invoice}
    (h : invoice.amountPaid + totalOf group < u64Size) :
    (group.foldl addTransfer invoice).paidHeight
      = if invoice.paidHeight = none ∧ group ≠ [] ∧
          invoice.amountRequested ≤ invoice.amountPaid + totalOf group then height
        else invoice.paidHeight := by
  induction group generalizing invoice with
  | nil => simp
  | cons t group ih =>
      have ht : t.height = height := hgroup t List.mem_cons_self
      rw [← List.singleton_append, totalOf_append, totalOf_singleton] at h ⊢
      have hamount : (invoice.addTransfer t).amountPaid = invoice.amountPaid + t.amount :=
        Nat.mod_eq_of_lt (by omega)
      have hpaid : (invoice.addTransfer t).paidHeight
          = if invoice.amountRequested ≤ invoice.amountPaid + t.amount ∧ invoice.paidHeight = none
            then height else invoice.paidHeight := by
        rw [← hamount, ← ht]
        rfl
      rw [List.singleton_append, List.foldl_cons,
        ih (fun u hu => hgroup u (List.mem_cons_of_mem _ hu)) (by rw [hamount]; omega), hamount,
        hpaid]
      have hrequested : (invoice.addTransfer t).amountRequested = invoice.amountRequested := rfl
      rw [hrequested, Nat.add_assoc]
      -- Once a height is set it stays; before that, the first transfer may set it or leave it to
      -- the rest.
      cases hnone : invoice.paidHeight with
      | some paidAt => simp
      | none =>
          by_cases hreach : invoice.amountRequested ≤ invoice.amountPaid + t.amount
          · -- The first transfer is enough, and then so is the sum.
            have hsum : invoice.amountRequested
                ≤ invoice.amountPaid + (t.amount + totalOf group) := by omega
            cases height <;> simp [hreach, hsum]
          · -- The first transfer is not enough: it is up to the others, if there are any.
            cases group with
            | nil => simp [hreach, totalOf]
            | cons u group => simp [hreach]

/-- **Adding up reordered transfers** without overflow ends with the same invoice. -/
theorem foldl_addTransfer_reordered {l l' : List Transfer}
    (h : Reordered Transfer.height l l') {invoice : Invoice}
    (hsum : invoice.amountPaid + totalOf l < u64Size) :
    l'.foldl addTransfer invoice = l.foldl addTransfer invoice := by
  induction h with
  | nil => rfl
  | @group l l' entries entries' height _ hheight hperm ih =>
      rw [totalOf_append] at hsum
      rw [List.foldl_append, List.foldl_append, ih (by omega)]
      have hpaid : (l.foldl addTransfer invoice).amountPaid = invoice.amountPaid + totalOf l :=
        foldl_addTransfer_amountPaid (by omega)
      generalize l.foldl addTransfer invoice = mid at hpaid
      -- The groups have the same sum and the same height.
      have htotal : totalOf entries' = totalOf entries :=
        (hperm.map Transfer.amount).sum_nat.symm
      have hheight' : ∀ t ∈ entries', t.height = height :=
        fun t ht => hheight t (hperm.mem_iff.mpr ht)
      have hempty : entries' ≠ [] ↔ entries ≠ [] := by
        rw [ne_eq, ne_eq, ← List.length_eq_zero_iff, ← List.length_eq_zero_iff, hperm.length_eq]
      rw [foldl_addTransfer_eq entries', foldl_addTransfer_eq entries,
        foldl_addTransfer_amountPaid (by omega), foldl_addTransfer_amountPaid (by omega),
        foldl_addTransfer_group hheight' (by omega), foldl_addTransfer_group hheight (by omega),
        htotal]
      simp only [hempty]

/-- **Adding up pool transfers** ends with the same invoice in every order, also if the total
overflows: they do not set the height at which it was paid. -/
theorem foldl_addTransfer_inPool {pool pool' : List Transfer} (hperm : pool.Perm pool')
    (hnone : ∀ t ∈ pool, t.height = none) (invoice : Invoice) :
    pool'.foldl addTransfer invoice = pool.foldl addTransfer invoice := by
  have hone : ∀ t ∈ pool, ∀ paid : Invoice, paid.addTransfer t
      = { paid with amountPaid := (paid.amountPaid + t.amount) % u64Size } := by
    intro t ht paid
    rw [addTransfer, hnone t ht]
    cases hpaid : paid.paidHeight <;> simp
  refine (hperm.foldl_eq' (fun t ht u hu paid => ?_) invoice).symm
  rw [hone t ht, hone u hu, hone u hu, hone t ht]
  simp only [Nat.mod_add_mod, Nat.add_right_comm]

/-- **Recalculating** invoices with reordered transfers: those in blocks must not overflow. -/
theorem recalculate_alike {inBlocks inBlocks' pool pool' : List Transfer}
    (h : Reordered Transfer.height inBlocks inBlocks') (hperm : pool.Perm pool')
    (hnone : ∀ t ∈ pool, t.height = none) (hsum : totalOf inBlocks < u64Size) (invoice : Invoice) :
    { invoice with transfers := inBlocks ++ pool }.recalculate.Alike
      { invoice with transfers := inBlocks' ++ pool' }.recalculate := by
  have hsame : ({ invoice with transfers := inBlocks' ++ pool' } : Invoice).recalculate
      = { ({ invoice with transfers := inBlocks ++ pool } : Invoice).recalculate with
          transfers := inBlocks' ++ pool' } := by
    simp only [recalculate]
    rw [← foldl_addTransfer_transfers, List.foldl_append, List.foldl_append,
      foldl_addTransfer_reordered h (by simpa using hsum), foldl_addTransfer_inPool hperm hnone]
  have htransfers : ({ invoice with transfers := inBlocks ++ pool } : Invoice).recalculate.transfers
      = inBlocks ++ pool := by
    rw [recalculate_eq]
  rw [hsame]
  refine ⟨⟨⟨rfl, rfl, rfl, rfl, rfl⟩, rfl, rfl⟩, rfl, rfl, rfl, ?_⟩
  rw [htransfers]
  exact (h.perm.append hperm).symm

end Invoice

/-! ## Updating invoices -/

/-- The height at which a transfer was found. -/
def foundAt (e : SubIndex × Transfer) : Option ℕ := e.2.height

namespace Scanner

/-- The transfers of an updated invoice. -/
abbrev updatedTransfers (transfers : List (SubIndex × Transfer)) (deepestUpdate : ℕ)
    (old : Invoice) : List Transfer :=
  keptTransfers deepestUpdate old ++ addedTransfers transfers old

/-- What is added of two lists. -/
theorem addedTransfers_append (transfers transfers' : List (SubIndex × Transfer)) (old : Invoice) :
    addedTransfers (transfers ++ transfers') old
      = addedTransfers transfers old ++ addedTransfers transfers' old := by
  rw [addedTransfers, List.filter_append, List.map_append]
  rfl

/-- **The same transfers in another order**: those of blocks reordered within the blocks, those of
the pool in any order. -/
structure SameFound (blocks pool blocks' pool' : List (SubIndex × Transfer)) : Prop where
  inPool : InPool pool
  reordered : Reordered foundAt blocks blocks'
  perm : pool.Perm pool'

variable {blocks pool blocks' pool' : List (SubIndex × Transfer)}
  {blockCacheHeight deepestUpdate : ℕ}

/-- **One invoice**, with the same transfers in another order: both times it is left alone, or the
updates are alike. -/
theorem updateInvoice_alike (h : SameFound blocks pool blocks' pool') {old : Invoice}
    (hsum : (updateInvoice (blocks ++ pool) blockCacheHeight deepestUpdate old).isSome →
      totalOf (updatedTransfers blocks deepestUpdate old) < u64Size) :
    Option.Rel Invoice.Alike (updateInvoice (blocks ++ pool) blockCacheHeight deepestUpdate old)
      (updateInvoice (blocks' ++ pool') blockCacheHeight deepestUpdate old) := by
  have hblocks : Reordered Transfer.height (updatedTransfers blocks deepestUpdate old)
      (updatedTransfers blocks' deepestUpdate old) :=
    (Reordered.refl _).append ((h.reordered.filter _).map Prod.snd fun _ => rfl)
  have hpool : (addedTransfers pool old).Perm (addedTransfers pool' old) :=
    (h.perm.filter _).map Prod.snd
  have hnone : ∀ t ∈ addedTransfers pool old, t.height = none := by
    intro t ht
    obtain ⟨e, he, rfl⟩ := List.mem_map.mp ht
    exact h.inPool e (List.mem_of_mem_filter he)
  unfold updateInvoice at hsum ⊢
  simp only [addedTransfers_append, ← List.append_assoc] at hsum ⊢
  -- The test for equality does not see the order.
  have heq : { old with
        transfers := updatedTransfers blocks' deepestUpdate old ++ addedTransfers pool' old
        currentHeight := blockCacheHeight + 1 }.eq old
      = { old with
        transfers := updatedTransfers blocks deepestUpdate old ++ addedTransfers pool old
        currentHeight := blockCacheHeight + 1 }.eq old := by
    rw [Bool.eq_iff_iff, Invoice.eq_iff, Invoice.eq_iff]
    simp only [Invoice.mk.injEq, true_and, and_true, (hblocks.perm.append hpool).symm.congr_left]
  rw [heq]
  split
  · exact .none
  · rename_i hne
    rw [if_neg hne] at hsum
    exact .some (Invoice.recalculate_alike hblocks hpool hnone (hsum rfl)
      { old with currentHeight := blockCacheHeight + 1 })

/-- **All invoices**: the same ones are updated, and the updates are alike. -/
theorem updatedInvoices_alike (h : SameFound blocks pool blocks' pool')
    {items : List (Except StoreError Invoice)}
    (hsum : ∀ old, .ok old ∈ items →
      (updateInvoice (blocks ++ pool) blockCacheHeight deepestUpdate old).isSome →
      totalOf (updatedTransfers blocks deepestUpdate old) < u64Size) :
    List.Forall₂ Invoice.Alike
      (updatedInvoices (blocks ++ pool) blockCacheHeight deepestUpdate items)
      (updatedInvoices (blocks' ++ pool') blockCacheHeight deepestUpdate items) := by
  induction items with
  | nil => exact .nil
  | cons item items ih =>
      have hrest := ih fun old hold => hsum old (List.mem_cons_of_mem _ hold)
      cases item with
      | error e => exact hrest
      | ok old =>
          have hone := updateInvoice_alike h (hsum old List.mem_cons_self)
          simp only [updatedInvoices, List.filterMap_cons] at hrest ⊢
          generalize updateInvoice (blocks ++ pool) _ _ old = new at hone ⊢
          generalize updateInvoice (blocks' ++ pool') _ _ old = new' at hone ⊢
          cases hone with
          | none => exact hrest
          | some halike => exact .cons halike hrest

end Scanner

/-! ## Scanning the caches -/

/-- The same environment with other iteration orders. -/
def ScanEnv.reordered (env : ScanEnv) (blockOrder : ℕ → IterOrder (Hash × List OwnedAmount))
    (txpoolOrder : IterOrder (Hash × List (SubIndex × Transfer))) : ScanEnv :=
  { env with blockOrder := blockOrder, txpoolOrder := txpoolOrder }

/-- What the pool cache remembers are transfers in the pool. -/
def TxpoolCache.HoldsPool (cache : TxpoolCache) : Prop :=
  ∀ e ∈ cache.discoveredTransfers, Scanner.InPool e.2

namespace Scanner

variable {env : ScanEnv} {blockOrder : ℕ → IterOrder (Hash × List OwnedAmount)}
  {txpoolOrder : IterOrder (Hash × List (SubIndex × Transfer))}

/-- Two iterations over one map visit the same entries. -/
theorem flatMap_order_perm {α β : Type} (o o' : IterOrder α) (m : List α) (f : α → List β) :
    ((o.order m).flatMap f).Perm ((o'.order m).flatMap f) :=
  ((o.perm m).trans (o'.perm m).symm).flatMap_right f

/-- **The blocks** are scanned in step. -/
theorem scanBlocksFrom_inStep (cache : BlockCache) (count : ℕ)
    {transfers transfers' : List (SubIndex × Transfer)}
    (h : Reordered foundAt transfers transfers') :
    Resumption.InStep (Reordered foundAt) (scanBlocksFrom env cache count transfers)
      (scanBlocksFrom (env.reordered blockOrder txpoolOrder) cache count transfers') := by
  induction count generalizing transfers transfers' with
  | zero => exact .done (.ok h)
  | succ i ih =>
      refine Resumption.InStep.bind (.refl (fun _ => rfl) _) fun amounts amounts' heq => ?_
      subst heq
      refine ih (.group _ h (fun e he => height_of_mem_blockTransfers he) ?_)
      exact flatMap_order_perm (env.blockOrder i) (blockOrder i) amounts _

/-- Two results of scanning the pool: the same pool transfers in some order, and the same cache. -/
def SamePool (r r' : List (SubIndex × Transfer) × TxpoolCache) : Prop :=
  InPool r.1 ∧ r.1.Perm r'.1 ∧ r'.2 = r.2

/-- **The pool** is scanned in step. -/
theorem scanTxpool_inStep {cache : TxpoolCache} (hcache : cache.HoldsPool)
    (newTransactions : List Transaction) :
    Resumption.InStep SamePool (scanTxpool env cache newTransactions)
      (scanTxpool (env.reordered blockOrder txpoolOrder) cache newTransactions) := by
  refine Resumption.InStep.bind (.refl (fun _ => rfl) _) fun amounts amounts' heq => ?_
  subst heq
  refine .done (.ok ⟨fun x hx => ?_, ?_, rfl⟩)
  · obtain ⟨e, he, hx⟩ := List.mem_flatMap.mp hx
    rcases mem_extend ((env.txpoolOrder.perm _).mem_iff.mp he) with he | he
    · exact inPool_txpoolTransfers he x hx
    · exact hcache e he x hx
  · exact flatMap_order_perm env.txpoolOrder txpoolOrder _ _

/-- **Both caches** are scanned in step. -/
theorem scanCaches_inStep {self : Scanner} (hcache : self.txpoolCache.HoldsPool)
    (blocksUpdated : ℕ) (newTransactions : List Transaction) :
    Resumption.InStep (Resumption.Outcomes (Reordered foundAt) SamePool)
      (scanCaches env self blocksUpdated newTransactions)
      (scanCaches (env.reordered blockOrder txpoolOrder) self blocksUpdated newTransactions) :=
  Resumption.InStep.merge env.schedule (scanBlocksFrom_inStep self.blockCache _ .nil)
    (scanTxpool_inStep hcache newTransactions)

/-- What the other execution finds. -/
theorem run_scanCaches_reordered {S : Backend} {self : Scanner}
    (hcache : self.txpoolCache.HoldsPool) {blocksUpdated : ℕ} {newTransactions : List Transaction}
    {s found : Shared} {blocks : Except ScannerError (List (SubIndex × Transfer))}
    {txpool : Except ScannerError (List (SubIndex × Transfer) × TxpoolCache)}
    (h : (scanCaches env self blocksUpdated newTransactions).run (handle S) s
      = (.ok (blocks, txpool), found))
    (blockOrder : ℕ → IterOrder (Hash × List OwnedAmount))
    (txpoolOrder : IterOrder (Hash × List (SubIndex × Transfer))) :
    ∃ blocks' txpool', (scanCaches (env.reordered blockOrder txpoolOrder) self blocksUpdated
        newTransactions).run (handle S) s = (.ok (blocks', txpool'), found) ∧
      Outcome (Reordered foundAt) blocks blocks' ∧ Outcome SamePool txpool txpool' := by
  have hinStep : Resumption.InStep _ (scanCaches env self blocksUpdated newTransactions)
      (scanCaches (env.reordered blockOrder txpoolOrder) self blocksUpdated newTransactions) :=
    scanCaches_inStep hcache blocksUpdated newTransactions
  obtain ⟨houtcome, hfound⟩ := hinStep.run s
  rw [h] at houtcome hfound
  generalize (scanCaches (env.reordered blockOrder txpoolOrder) self blocksUpdated
    newTransactions).run (handle S) s = r at houtcome hfound
  obtain ⟨result, found'⟩ := r
  cases hfound
  cases houtcome with
  | ok hboth => exact ⟨_, _, rfl, hboth.1, hboth.2⟩

end Scanner

/-! ## What a scan reports -/

/-- The update that a request asks to save. -/
def Request.update : Request → Option Invoice
  | .updateInvoice invoice => some invoice
  | _ => none

/-- **The invoices that a scan reports as updated**: those it asks the store to save. -/
def Gateway.reported (S : Backend) (env : ScanEnv) (g : Gateway) : List Invoice :=
  ((g.scanner.scan env).sent (handle S) { g.shared with faults := env.faults }).filterMap
    Request.update

namespace Scanner

/-- Saving updates asks to save every one of them, whatever the store answers. -/
theorem sent_saveUpdates (S : Backend) (updates : List Invoice) (s : Shared) :
    ((saveUpdates updates).sent (handle S) s).filterMap Request.update = updates := by
  induction updates generalizing s with
  | nil => rfl
  | cons invoice rest ih =>
      rw [saveUpdates, Resumption.sent]
      cases hfault : s.faults.save invoice.id with
      | some e =>
          simp only [handle, serve, hfault]
          simp only [List.filterMap_cons, Request.update, ih]
      | none =>
          simp only [handle, serve, hfault, Except.mapError, Resumption.sent]
          simp only [List.filterMap_cons, Request.update, ih]

/-- Scanning the caches asks to save nothing. -/
theorem sent_scanCaches (S : Backend) (env : ScanEnv) (self : Scanner) (blocksUpdated : ℕ)
    (newTransactions : List Transaction) (s : Shared) :
    ((scanCaches env self blocksUpdated newTransactions).sent (handle S) s).filterMap
      Request.update = [] := by
  rw [List.filterMap_eq_nil_iff]
  intro req hreq
  have hkey := (scanCaches_asks env self blocksUpdated newTransactions).mem_sent hreq
  cases req with
  | getOutputKeyId | insertOutputKey | containsSubIndex => rfl
  | _ => cases hkey

/-- **What the rest of a scan reports**: the updates of all invoices that can be read, unless the
iteration over them fails. -/
theorem sent_finishScan (S : Backend) (blockCacheHeight blocksUpdated : ℕ)
    (transfers : List (SubIndex × Transfer)) (s : Shared) :
    ((finishScan blockCacheHeight blocksUpdated transfers).sent (handle S) s).filterMap
        Request.update
      = if s.faults.forEach = none then
          updatedInvoices transfers blockCacheHeight
            (U64.sub (blockCacheHeight + 1) blocksUpdated) (s.store.invoices.map s.faults.read)
        else [] := by
  rw [finishScan, Resumption.bind_eq, Resumption.sent_bind, List.filterMap_append]
  cases hfor : s.faults.forEach with
  | some e =>
      simp [updateInvoices, StorageClient.forEachInvoice, handle, serve, hfor, Except.mapError,
        Resumption.bind, Resumption.sent, Request.update]
  | none =>
      -- Reading, recording the height and flushing are not reports.
      have hsent : ((updateInvoices transfers blockCacheHeight blocksUpdated).sent (handle S)
          s).filterMap Request.update = [] := by
        simp [updateInvoices, StorageClient.forEachInvoice, handle, serve, hfor, Except.mapError,
          Resumption.bind, Resumption.sent, Request.update]
      rw [run_updateInvoices S transfers blockCacheHeight blocksUpdated hfor, hsent, if_pos rfl,
        List.nil_append]
      simp only [Resumption.bind_eq, Resumption.sent_bind, List.filterMap_append, sent_saveUpdates,
        run_saveUpdates]
      cases hup : s.faults.upsertHeight <;>
        simp [StorageClient.upsertHeight, StorageClient.flush, Resumption.sent, handle, serve, hup,
          Except.mapError, Request.update]

/-- How the rest of a scan ends does not depend on the transfers. -/
theorem run_finishScan_result (S : Backend) (blockCacheHeight blocksUpdated : ℕ)
    (transfers transfers' : List (SubIndex × Transfer)) (s : Shared) :
    ((finishScan blockCacheHeight blocksUpdated transfers').run (handle S) s).1
      = ((finishScan blockCacheHeight blocksUpdated transfers).run (handle S) s).1 := by
  simp only [finishScan, Resumption.bind_eq, Resumption.run_bind]
  cases hfor : s.faults.forEach with
  | some e =>
      simp [updateInvoices, StorageClient.forEachInvoice, handle, serve, hfor, Except.mapError,
        Resumption.bind]
  | none =>
      rw [run_updateInvoices S transfers blockCacheHeight blocksUpdated hfor,
        run_updateInvoices S transfers' blockCacheHeight blocksUpdated hfor]
      simp only [run_saveUpdates]
      cases hup : s.faults.upsertHeight <;> cases hflush : s.faults.flush <;>
        simp [StorageClient.upsertHeight, StorageClient.flush, handle, serve, hup, hflush,
          Except.mapError]

/-- **The rest of a scan** with the same transfers in another order. -/
theorem finishScan_alike {S : Backend} {blockCacheHeight blocksUpdated : ℕ}
    {blocks pool blocks' pool' : List (SubIndex × Transfer)}
    (h : SameFound blocks pool blocks' pool') {s : Shared}
    (hsum : ∀ old ∈ s.store.invoices, s.faults.unreadable old.id = false →
      (updateInvoice (blocks ++ pool) blockCacheHeight
        (U64.sub (blockCacheHeight + 1) blocksUpdated) old).isSome →
      totalOf (updatedTransfers blocks (U64.sub (blockCacheHeight + 1) blocksUpdated) old)
        < u64Size) :
    List.Forall₂ Invoice.Alike
      (((finishScan blockCacheHeight blocksUpdated (blocks ++ pool)).sent (handle S) s).filterMap
        Request.update)
      (((finishScan blockCacheHeight blocksUpdated (blocks' ++ pool')).sent (handle S) s).filterMap
        Request.update) ∧
    List.Forall₂ Invoice.Alike
      ((finishScan blockCacheHeight blocksUpdated (blocks ++ pool)).run (handle S)
        s).2.store.invoices
      ((finishScan blockCacheHeight blocksUpdated (blocks' ++ pool')).run (handle S)
        s).2.store.invoices := by
  constructor
  · -- What is reported: the updates of the invoices that can be read.
    rw [sent_finishScan, sent_finishScan]
    split
    · refine updatedInvoices_alike h fun old hold => ?_
      obtain ⟨stored, hstored, hread⟩ := List.mem_map.mp hold
      obtain ⟨hreadable, rfl⟩ := Faults.read_eq_ok.mp hread
      exact hsum stored hstored hreadable
    · exact .nil
  · -- What is stored: both executions fail to iterate, or both save.
    generalize hrun : (finishScan blockCacheHeight blocksUpdated (blocks ++ pool)).run (handle S)
      s = r
    generalize hrun' : (finishScan blockCacheHeight blocksUpdated (blocks' ++ pool')).run (handle S)
      s = r'
    obtain ⟨hfor, hsame, -⟩ | ⟨hfor, hsaved, -⟩ := run_finishScan hrun
    · obtain ⟨-, hsame', -⟩ | ⟨hfor', -, -⟩ := run_finishScan hrun'
      · rw [hsame, hsame']
        exact Invoice.Alike.forall₂_refl _
      · exact absurd hfor' hfor
    · obtain ⟨hfor', -, -⟩ | ⟨-, hsaved', -⟩ := run_finishScan hrun'
      · exact absurd hfor hfor'
      rw [hsaved.invoices, hsaved'.invoices, List.forall₂_map_left_iff, List.forall₂_map_right_iff,
        List.forall₂_same]
      intro old hold
      unfold savedInvoice
      split
      · rename_i hreadable
        have hone := updateInvoice_alike h (hsum old hold hreadable.1)
        unfold settle
        generalize updateInvoice (blocks ++ pool) _ _ old = new at hone ⊢
        generalize updateInvoice (blocks' ++ pool') _ _ old = new' at hone ⊢
        cases hone with
        | none => exact .refl old
        | some halike => exact halike
      · exact .refl old

end Scanner

/-! ## Two executions of one scan -/

namespace Gateway

variable {S : Backend} {g : Gateway} {env : ScanEnv}

/-- What a scan passes to `update_invoices`. -/
structure Passed where
  blockCacheHeight : ℕ
  blocksUpdated : ℕ
  blocksAmounts : List (SubIndex × Transfer)
  txpoolAmounts : List (SubIndex × Transfer)

/-- What a scan passes to `update_invoices`, `none` if it fails before that. -/
def passed (S : Backend) (env : ScanEnv) (g : Gateway) : Option Passed :=
  match g.scanner.updateCaches env.client with
  | (.error _, _) => none
  | (.ok (blocksUpdated, newTransactions), mid) =>
      match (Scanner.scanCaches env mid blocksUpdated newTransactions).run (handle S)
          { g.shared with faults := env.faults } with
      | (.ok (.ok blocksAmounts, .ok (txpoolAmounts, _)), _) =>
          some ⟨mid.blockCache.height, blocksUpdated, blocksAmounts, txpoolAmounts⟩
      | _ => none

/-- **Whether the sums of a scan fit in 64 bits**: for every invoice that is to be updated, the
transfers that stay and those found in blocks add up to less than `2 ^ 64`. -/
def Fits (S : Backend) (env : ScanEnv) (g : Gateway) : Prop :=
  ∀ p ∈ g.passed S env, ∀ old ∈ g.invoices, env.faults.unreadable old.id = false →
    (Scanner.updateInvoice (p.blocksAmounts ++ p.txpoolAmounts) p.blockCacheHeight
      (U64.sub (p.blockCacheHeight + 1) p.blocksUpdated) old).isSome →
    totalOf (Scanner.updatedTransfers p.blocksAmounts
      (U64.sub (p.blockCacheHeight + 1) p.blocksUpdated) old) < u64Size

instance (S : Backend) (env : ScanEnv) (g : Gateway) : Decidable (g.Fits S env) :=
  inferInstanceAs (Decidable (∀ p ∈ g.passed S env, _))

/-- **Two scans that do the same**: they end alike, report alike updates of the same invoices, and
leave alike invoices. -/
structure SameScan (S : Backend) (env env' : ScanEnv) (g : Gateway) : Prop where
  result : (g.scan S env').1 = (g.scan S env).1
  scanner : (g.scan S env').2.scanner = (g.scan S env).2.scanner
  reported : List.Forall₂ Invoice.Alike (g.reported S env) (g.reported S env')
  invoices : List.Forall₂ Invoice.Alike (g.scan S env).2.invoices (g.scan S env').2.invoices

/-- Updating the caches only forgets what is remembered of the pool. -/
theorem holdsPool_updateCaches {client : MonerodClient} {self mid : Scanner}
    {result : Except ScannerError (ℕ × List Transaction)} (hpool : self.txpoolCache.HoldsPool)
    (h : self.updateCaches client = (result, mid)) : mid.txpoolCache.HoldsPool := by
  unfold Scanner.updateCaches at h
  split at h
  · cases h
    exact hpool
  · split at h
    all_goals
      rename_i hupdate
      cases h
      exact fun e he => hpool e (Scanner.mem_discovered_of_update hupdate he)

/-- What is left to do of a scan that has scanned the caches: how it ends, and what it reports. -/
def afterCaches (S : Backend) (mid : Scanner) (blocksUpdated : ℕ) (found : Shared) :
    Except ScannerError (List (SubIndex × Transfer)) →
    Except ScannerError (List (SubIndex × Transfer) × TxpoolCache) →
    (Except ScannerError Unit × Gateway) × List Invoice
  | .error e, .error _ => ((.error e, ⟨mid, found⟩), [])
  -- What the pool scan has found is remembered even if the block scan fails.
  | .error e, .ok (_, cache) => ((.error e, ⟨{ mid with txpoolCache := cache }, found⟩), [])
  | .ok _, .error e => ((.error e, ⟨mid, found⟩), [])
  | .ok blocksAmounts, .ok (txpoolAmounts, cache) =>
      let rest := Scanner.finishScan mid.blockCache.height blocksUpdated
        (blocksAmounts ++ txpoolAmounts)
      (((rest.run (handle S) found).1,
        ⟨{ mid with txpoolCache := cache, firstScan := false }, (rest.run (handle S) found).2⟩),
      (rest.sent (handle S) found).filterMap Request.update)

/-- A scan that cannot update the caches ends and reports nothing. -/
theorem scan_of_not_updated {e : ScannerError} {mid : Scanner}
    (hcaches : g.scanner.updateCaches env.client = (.error e, mid)) :
    (g.scan S env, g.reported S env)
      = ((.error e, ⟨mid, { g.shared with faults := env.faults }⟩), []) := by
  simp only [scan, reported, Scanner.scan, hcaches]
  rfl

/-- What a scan does once it has scanned the caches. -/
theorem scan_of_scanCaches {blocksUpdated : ℕ} {newTransactions : List Transaction} {mid : Scanner}
    {blocks : Except ScannerError (List (SubIndex × Transfer))}
    {txpool : Except ScannerError (List (SubIndex × Transfer) × TxpoolCache)} {found : Shared}
    (hcaches : g.scanner.updateCaches env.client = (.ok (blocksUpdated, newTransactions), mid))
    (hrun : (Scanner.scanCaches env mid blocksUpdated newTransactions).run (handle S)
      { g.shared with faults := env.faults } = (.ok (blocks, txpool), found)) :
    (g.scan S env, g.reported S env) = afterCaches S mid blocksUpdated found blocks txpool := by
  have hkeys := Scanner.sent_scanCaches S env mid blocksUpdated newTransactions
    { g.shared with faults := env.faults }
  simp only [scan, reported, Scanner.scan, hcaches, Resumption.bind_eq, Resumption.run_bind,
    Resumption.sent_bind, hrun, List.filterMap_append, hkeys, List.nil_append]
  cases blocks with
  | error e => cases txpool <;> rfl
  | ok blocksAmounts =>
      cases txpool with
      | error e => rfl
      | ok pool =>
          simp [afterCaches, Resumption.run_bind, Resumption.sent_bind, Resumption.sent]

/-- **Two executions of one scan** that differ in the order of its hash maps. -/
theorem scan_alike (hpool : g.scanner.txpoolCache.HoldsPool) (hfits : g.Fits S env)
    (blockOrder : ℕ → IterOrder (Hash × List OwnedAmount))
    (txpoolOrder : IterOrder (Hash × List (SubIndex × Transfer))) :
    g.SameScan S env (env.reordered blockOrder txpoolOrder) := by
  -- What both executions do in the same way.
  have hsame : (g.scan S (env.reordered blockOrder txpoolOrder),
      g.reported S (env.reordered blockOrder txpoolOrder)) = (g.scan S env, g.reported S env) →
      g.SameScan S env (env.reordered blockOrder txpoolOrder) := by
    intro heq
    obtain ⟨hscan, hreported⟩ := Prod.mk.inj heq
    refine ⟨by rw [hscan], by rw [hscan], ?_, ?_⟩
    · rw [hreported]
      exact Invoice.Alike.forall₂_refl _
    · rw [hscan]
      exact Invoice.Alike.forall₂_refl _
  cases hcaches : g.scanner.updateCaches env.client with
  | mk updated mid =>
      cases updated with
      | error e =>
          have heq' : (g.scan S (env.reordered blockOrder txpoolOrder),
              g.reported S (env.reordered blockOrder txpoolOrder))
                = ((.error e, ⟨mid, { g.shared with faults := env.faults }⟩), []) :=
            scan_of_not_updated hcaches
          exact hsame (heq'.trans (scan_of_not_updated hcaches).symm)
      | ok updated =>
          obtain ⟨blocksUpdated, newTransactions⟩ := updated
          obtain ⟨blocks, txpool, found, hrun, hgrows, -⟩ := Scanner.run_scanCaches S env mid
            blocksUpdated newTransactions { g.shared with faults := env.faults }
          obtain ⟨blocks', txpool', hrun', hblocks, htxpool⟩ := Scanner.run_scanCaches_reordered
            (holdsPool_updateCaches hpool hcaches) hrun blockOrder txpoolOrder
          have heq := scan_of_scanCaches hcaches hrun
          have heq' : (g.scan S (env.reordered blockOrder txpoolOrder),
              g.reported S (env.reordered blockOrder txpoolOrder))
                = afterCaches S mid blocksUpdated found blocks' txpool' :=
            scan_of_scanCaches hcaches hrun'
          cases hblocks with
          | error e =>
              cases htxpool with
              | error e' => exact hsame (heq'.trans heq.symm)
              | @ok r r' hsamePool =>
                  obtain ⟨-, -, hcache⟩ := hsamePool
                  refine hsame (heq'.trans (Eq.trans ?_ heq.symm))
                  simp only [afterCaches, hcache]
          | @ok blocksAmounts blocksAmounts' hreordered =>
              cases htxpool with
              | error e => exact hsame (heq'.trans heq.symm)
              | @ok r r' hsamePool =>
                  obtain ⟨txpoolAmounts, cache⟩ := r
                  obtain ⟨txpoolAmounts', cache'⟩ := r'
                  obtain ⟨hinPool, hperm, rfl⟩ :
                    Scanner.InPool _ ∧ List.Perm _ _ ∧ cache' = cache := hsamePool
                  obtain ⟨hscan, hreported⟩ := Prod.mk.inj heq
                  obtain ⟨hscan', hreported'⟩ := Prod.mk.inj heq'
                  have hsum := hfits ⟨mid.blockCache.height, blocksUpdated, blocksAmounts,
                    txpoolAmounts⟩ (by simp [passed, hcaches, hrun])
                  rw [← show found.store.invoices = g.invoices from hgrows.invoices,
                    ← show found.faults.unreadable = env.faults.unreadable by
                      rw [hgrows.faults]] at hsum
                  obtain ⟨hupdates, hinvoices⟩ := Scanner.finishScan_alike (S := S)
                    ⟨hinPool, hreordered, hperm⟩ hsum
                  refine ⟨?_, by rw [hscan, hscan'], ?_, ?_⟩
                  · rw [hscan, hscan']
                    exact Scanner.run_finishScan_result S _ _ _ _ found
                  · rw [hreported, hreported']
                    exact hupdates
                  · rw [hscan, hscan']
                    exact hinvoices

end Gateway

end AcceptXmr
