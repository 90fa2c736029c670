import AcceptXmr.Caching.Reorg
import AcceptXmr.Scanner.HashOrder

/-! # Scanning an unchanged chain and pool

After a scan the scanner remembers the pool transfers that the scan has worked with. If the next
scan finds no block to update and the same pool, it works with the same transfers in some order, and
leaves every invoice alone that has been brought up to date.

* **`sound_run`** — what holds of a scanner at any time.
* **`scan_later`** — a later scan reports nothing that the scan before it has saved.
* **`hash_order_irrelevant`** — what does not depend on the order of hash maps. -/

namespace AcceptXmr

open AssocMap
open scoped List

/-! ## What every scanner keeps -/

/-- **What holds of a scanner at any time**: it remembers pool transfers only, and only those of
transactions in its cache; and its blocks do not reach below height zero. -/
structure Scanner.Sound (scanner : Scanner) : Prop where
  pool : scanner.txpoolCache.HoldsPool
  known : ∀ hash ∈ keys scanner.txpoolCache.discoveredTransfers,
    hash ∈ keys scanner.txpoolCache.transactions
  deep : scanner.blockCache.blocks.length ≤ scanner.blockCache.height + 1

namespace Scanner

/-- Updating the pool cache forgets transactions and their transfers together, and caches what it
returns. -/
theorem known_update {client : MonerodClient} {cache cache' : TxpoolCache}
    {result : Except RpcError (List Transaction)} (h : cache.update client = (result, cache'))
    (hknown : ∀ hash ∈ keys cache.discoveredTransfers, hash ∈ keys cache.transactions) :
    (∀ hash ∈ keys cache'.discoveredTransfers, hash ∈ keys cache'.transactions) ∧
      ∀ txs, result = .ok txs → ∀ tx ∈ txs, tx.hash ∈ keys cache'.transactions := by
  unfold TxpoolCache.update at h
  split at h
  · cases h
    exact ⟨hknown, nofun⟩
  · rename_i pool hpool
    dsimp only at h
    split at h
    · cases h
      refine ⟨fun hash hmem => ?_, nofun⟩
      rw [mem_keys_retain] at hmem ⊢
      exact ⟨hknown hash hmem.1, hmem.2⟩
    · cases h
      refine ⟨fun hash hmem => ?_, fun txs htxs tx htx => ?_⟩
      · rw [mem_keys_retain] at hmem
        rw [mem_keys_extend, mem_keys_retain]
        exact .inl ⟨hknown hash hmem.1, hmem.2⟩
      · cases htxs
        rw [mem_keys_extend, keys_byHash]
        exact .inr (List.mem_map_of_mem htx)

/-- **Updating the caches** keeps the scanner sound. -/
theorem Sound.updateCaches {client : MonerodClient} {self mid : Scanner} (hs : self.Sound)
    {result : Except ScannerError (ℕ × List Transaction)}
    (h : self.updateCaches client = (result, mid)) :
    mid.Sound ∧ ∀ count txs, result = .ok (count, txs) →
      ∀ tx ∈ txs, tx.hash ∈ keys mid.txpoolCache.transactions := by
  have hpool := Gateway.holdsPool_updateCaches hs.pool h
  obtain ⟨hlen, hheight⟩ := BlockCache.update_frame client self.blockCache
  have hdeep := hs.deep
  unfold Scanner.updateCaches at h
  split at h
  · rename_i e blockCache hblock
    rw [hblock] at hlen hheight
    cases h
    exact ⟨⟨hpool, hs.known, by dsimp only at *; omega⟩, nofun⟩
  · rename_i count blockCache hblock
    rw [hblock] at hlen hheight
    split at h
    all_goals
      rename_i hupdate
      cases h
      obtain ⟨hknown, hcached⟩ := known_update hupdate hs.known
    · exact ⟨⟨hpool, hknown, by dsimp only at *; omega⟩, nofun⟩
    · refine ⟨⟨hpool, hknown, by dsimp only at *; omega⟩, fun count txs heq => ?_⟩
      cases heq
      exact hcached _ rfl

/-- **Scanning the pool** keeps what is remembered sound. -/
theorem Sound.txpoolScanned {S : Backend} {env : ScanEnv} {self : Scanner} (hs : self.Sound)
    {newTransactions : List Transaction} {transfers : List (SubIndex × Transfer)}
    {cache : TxpoolCache} {s : Shared}
    (hcached : ∀ tx ∈ newTransactions, tx.hash ∈ keys self.txpoolCache.transactions)
    (h : TxpoolScanned S env self.txpoolCache newTransactions transfers cache s) (firstScan : Bool) :
    ({ self with txpoolCache := cache, firstScan := firstScan } : Scanner).Sound := by
  refine ⟨(h.inPool hs.pool).2, fun hash hmem => ?_, hs.deep⟩
  rw [h.cache] at hmem ⊢
  simp only [TxpoolCache.insertTransfers, mem_keys_extend] at hmem ⊢
  rcases hmem with hmem | hmem
  · exact hs.known hash hmem
  · obtain ⟨tx, htx, rfl⟩ := Gateway.mem_keys_discovered hmem
    exact hcached tx htx

end Scanner

namespace Gateway

/-- **Whatever may happen to a gateway**: a scan, whatever it meets and however it ends, and any
change of the shared state between scans. -/
inductive AnyStep (S : Backend) (g : Gateway) : Gateway → Prop where
  | scan (env : ScanEnv) : AnyStep S g (g.scan S env).2
  | calls (shared : Shared) : AnyStep S g ⟨g.scanner, shared⟩

variable {S : Backend} {g g' : Gateway} {env : ScanEnv}

theorem sound_start {client : MonerodClient} {store : Store} {n : ℕ} {initialHeight : Option ℕ}
    (h : Gateway.start client store n initialHeight = .ok g) : g.scanner.Sound := by
  obtain ⟨d, hstarted⟩ := start_ok h
  have hinit := hstarted.txpoolCache
  unfold TxpoolCache.init at hinit
  split at hinit
  · cases hinit
  · have hdiscovered := congrArg TxpoolCache.discoveredTransfers (Except.ok.inj hinit)
    obtain ⟨hplaced, -⟩ := BlockCache.init_placed
      (by unfold Scanner.startHeight; omega) hstarted.blockCache
    refine ⟨?_, ?_, ?_⟩
    · rw [TxpoolCache.HoldsPool, ← hdiscovered]
      exact nofun
    · rw [← hdiscovered]
      exact nofun
    · have hheight := hplaced.height
      rw [← hplaced.length] at hheight
      exact hheight

/-- **Every scan** keeps the scanner sound, however it ends. -/
theorem sound_scan (hs : g.scanner.Sound) (env : ScanEnv) : (g.scan S env).2.scanner.Sound := by
  unfold scan
  split
  · rename_i result scanner shared hrun
    cases Scanner.scan_run hrun with
    | notUpdated hcaches => exact (hs.updateCaches hcaches).1
    | poolNotScanned hcaches hscanned e => exact (hs.updateCaches hcaches).1
    | blocksNotScanned hcaches hscanned =>
        obtain ⟨hmid, hcached⟩ := hs.updateCaches hcaches
        obtain ⟨-, -, htxpool⟩ := Scanner.scanned_of_run hscanned
        exact hmid.txpoolScanned (hcached _ _ rfl) (htxpool _ _ rfl) _
    | finished hcaches hscanned hfinish =>
        obtain ⟨hmid, hcached⟩ := hs.updateCaches hcaches
        obtain ⟨-, -, htxpool⟩ := Scanner.scanned_of_run hscanned
        exact hmid.txpoolScanned (hcached _ _ rfl) (htxpool _ _ rfl) false
  · exact hs

/-- **Every run** keeps the scanner sound. -/
theorem sound_run (hs : g.scanner.Sound) (h : Relation.ReflTransGen (AnyStep S) g g') :
    g'.scanner.Sound := by
  induction h with
  | refl => exact hs
  | tail _ hstep ih =>
      cases hstep with
      | scan env => exact sound_scan ih env
      | calls shared => exact ih

/-! ## What a scan reports -/

/-- **What stands behind a report**: the scan has gone through all its steps and updates a stored
invoice. -/
theorem mem_reported {update : Invoice} (h : update ∈ g.reported S env) :
    ∃ t, Scanned S env g (g.scan S env).2 t ∧ ∃ old ∈ g.invoices,
      Scanner.updateInvoice (t.blocksAmounts ++ t.txpoolAmounts) (g.scan S env).2.cache.height
        (deepestUpdate (g.scan S env).2 t) old = some update := by
  cases hcaches : g.scanner.updateCaches env.client with
  | mk updated mid =>
      cases updated with
      | error e =>
          rw [(Prod.mk.inj (scan_of_not_updated hcaches)).2] at h
          cases h
      | ok updated =>
          obtain ⟨blocksUpdated, newTransactions⟩ := updated
          obtain ⟨blocks, txpool, found, hrun, hgrows, -⟩ := Scanner.run_scanCaches S env mid
            blocksUpdated newTransactions { g.shared with faults := env.faults }
          obtain ⟨hscan, hreported⟩ := Prod.mk.inj (scan_of_scanCaches hcaches hrun)
          rw [hreported] at h
          rw [hscan]
          -- Only a scan that gets to its last part reports anything.
          cases blocks with
          | error e => cases txpool <;> cases h
          | ok blocksAmounts =>
              cases txpool with
              | error e => cases h
              | ok pool =>
                  obtain ⟨txpoolAmounts, cache⟩ := pool
                  dsimp only [afterCaches] at h ⊢
                  rw [Scanner.sent_finishScan] at h
                  split at h
                  · rename_i hfor
                    refine ⟨_, scanned_of_saved hcaches hrun
                      (Scanner.saved_finishScan S _ _ _ hfor), ?_⟩
                    obtain ⟨item, hitem, hupdate⟩ := List.mem_filterMap.mp h
                    obtain ⟨old, hold, hread⟩ := List.mem_map.mp hitem
                    cases item with
                    | error e => cases hupdate
                    | ok read =>
                        obtain ⟨-, rfl⟩ := Faults.read_eq_ok.mp hread
                        rw [hgrows.invoices] at hold
                        exact ⟨old, hold, hupdate⟩
                  · cases h

/-- **What a scan has saved**: the updates that it reports and the store accepts. If it succeeds, the
invoices that it has read and left as they were count as well. -/
def SavedBy (S : Backend) (env : ScanEnv) (g : Gateway) (invoice : Invoice) : Prop :=
  env.faults.save invoice.id = none ∧
    (invoice ∈ g.reported S env ∨ (g.scan S env).1 = .ok () ∧
      env.faults.unreadable invoice.id = false ∧ invoice ∈ (g.scan S env).2.invoices)

/-- What has been saved is settled. -/
theorem SavedBy.settled {invoice : Invoice} (h : g.SavedBy S env invoice) :
    ∃ t, Scanned S env g (g.scan S env).2 t ∧ ∃ old,
      invoice = Scanner.settle (t.blocksAmounts ++ t.txpoolAmounts) (g.scan S env).2.cache.height
        (deepestUpdate (g.scan S env).2 t) old := by
  obtain ⟨hsave, hreported | ⟨hok, hread, hmem⟩⟩ := h
  · obtain ⟨t, hscanned, old, -, hupdate⟩ := mem_reported hreported
    refine ⟨t, hscanned, old, ?_⟩
    rw [Scanner.settle, hupdate]
    rfl
  · obtain ⟨t, hscanned⟩ := scan_ok (Prod.ext hok rfl : g.scan S env = (.ok (), _))
    refine ⟨t, hscanned, ?_⟩
    rw [invoices, hscanned.saved.invoices] at hmem
    obtain ⟨old, -, rfl⟩ := List.mem_map.mp hmem
    rw [Scanner.savedInvoice_id] at hsave hread
    refine ⟨old, ?_⟩
    rw [Scanner.savedInvoice, hscanned.grows.faults, if_pos ⟨hread, hsave⟩]

/-! ## A later scan -/

variable {ledger : Hash → Transaction} {env' : ScanEnv} {later later' : Gateway} {t t' : ScanTrace}
  {pool pool' : List Hash}

/-- **A later scan over an unchanged chain and pool**. Whatever the calls have done to the store since
the scan of `g`, the next scan of this scanner finds no block to update and the same pool. -/
structure Unchanged (S : Backend) (ledger : Hash → Transaction) (env env' : ScanEnv)
    (g later : Gateway) : Prop where
  scanner : later.scanner = (g.scan S env).2.scanner
  chain : ∀ count, (later.cache.update env'.client).1 = .ok count → count = 0
  pool : ∃ pool pool', ServesPool ledger pool env.client ∧ ServesPool ledger pool' env'.client ∧
    pool'.Perm pool

/-- **The pool cache after a scan**: it has the transactions of the pool, and it remembers the
transfers that the scan has worked with, all of them of transactions in the pool. -/
theorem Scanned.pool_remembered (h : Scanned S env g g' t) (hs : g.scanner.Sound)
    (hledger : ∀ h, (ledger h).hash = h) (hserves : ServesPool ledger pool env.client) :
    (∀ hash ∈ pool, hash ∈ AssocMap.keys g'.scanner.txpoolCache.transactions) ∧
      (∀ hash ∈ AssocMap.keys g'.scanner.txpoolCache.discoveredTransfers, hash ∈ pool) ∧
      t.txpoolAmounts.Perm (g'.scanner.txpoolCache.discoveredTransfers.flatMap Prod.snd) := by
  have hupdated := update_serves hserves h.txpoolCache
  have hkeys : ∀ hash ∈ AssocMap.keys
      (Scanner.txpoolTransfers (foundIn S env.checker t.found t.newTransactions)),
      hash ∈ pool ∧ hash ∉ AssocMap.keys g.scanner.txpoolCache.transactions :=
    fun hash hmem => hupdated.of_mem_keys_discovered hledger hmem
  obtain ⟨-, hnew, htransactions, hdiscovered⟩ := hupdated
  have hold : ∀ hash ∈ AssocMap.keys t.txpoolCache.discoveredTransfers,
      hash ∈ pool ∧ hash ∈ AssocMap.keys g.scanner.txpoolCache.transactions := by
    intro hash hmem
    rw [hdiscovered, mem_keys_retain, decide_eq_true_iff] at hmem
    exact ⟨hmem.2, hs.known hash hmem.1⟩
  have hcache := h.txpool.cache
  have hamounts := h.txpool.transfers
  generalize Scanner.txpoolTransfers (foundIn S env.checker t.found t.newTransactions) = new
    at hcache hamounts hkeys
  -- What is new and what was remembered have no hash in common.
  rw [extend_of_disjoint fun hash hn ho => (hkeys hash hn).2 (hold hash ho).2] at hamounts
  rw [TxpoolCache.insertTransfers,
    extend_of_disjoint fun hash ho hn => (hkeys hash hn).2 (hold hash ho).2] at hcache
  rw [hcache]
  refine ⟨fun hash hmem => ?_, fun hash hmem => ?_, ?_⟩
  · rw [htransactions, mem_keys_extend, mem_keys_retain, keys_byHash]
    by_cases hcached : hash ∈ AssocMap.keys g.scanner.txpoolCache.transactions
    · exact .inl ⟨hcached, decide_eq_true hmem⟩
    · refine .inr (List.mem_map.mpr ⟨ledger hash, hnew.mem_iff.mpr ?_, hledger hash⟩)
      exact List.mem_map_of_mem (List.mem_filter.mpr ⟨hmem, decide_eq_true hcached⟩)
  · rw [keys_append] at hmem
    exact (List.mem_append.mp hmem).elim (fun ho => (hold hash ho).1) fun hn => (hkeys hash hn).1
  · rw [hamounts]
    exact (((env.txpoolOrder.perm _).trans List.perm_append_comm).flatMap_right _)

/-- **The next scan of the pool**, if nothing has entered or left it, works with the same
transfers. -/
theorem Scanned.pool_rescanned (h : Scanned S env g g' t) (hs : g.scanner.Sound)
    (h' : Scanned S env' later later' t') (hscanner : later.scanner = g'.scanner)
    (hledger : ∀ h, (ledger h).hash = h) (hserves : ServesPool ledger pool env.client)
    (hserves' : ServesPool ledger pool' env'.client) (hpool : pool'.Perm pool) :
    t'.txpoolAmounts.Perm t.txpoolAmounts := by
  obtain ⟨hcached, hinPool, hamounts⟩ := h.pool_remembered hs hledger hserves
  obtain ⟨-, hnew, -, hdiscovered⟩ := update_serves hserves' h'.txpoolCache
  rw [hscanner] at hnew hdiscovered
  have hnone : t'.newTransactions = [] := by
    refine List.Perm.eq_nil (hnew.trans (.of_eq ?_))
    rw [List.map_eq_nil_iff, List.filter_eq_nil_iff]
    intro hash hmem
    simpa using hcached hash (hpool.mem_iff.mp hmem)
  have hsame : t'.txpoolCache.discoveredTransfers = g'.scanner.txpoolCache.discoveredTransfers := by
    rw [hdiscovered, retain, List.filter_eq_self]
    intro e he
    exact decide_eq_true (hpool.mem_iff.mpr (hinPool e.1 (List.mem_map_of_mem he)))
  rw [h'.txpool.transfers, hnone, hsame]
  exact ((env'.txpoolOrder.perm _).flatMap_right _).trans hamounts.symm

/-- Without a block to update the height stays. -/
theorem height_of_update_zero {client : MonerodClient} {cache after : BlockCache}
    (h : cache.update client = (.ok 0, after)) : after.height = cache.height := by
  obtain ⟨d, -, ⟨-, hfix⟩ | ⟨-, block, fixed, -, -, hcount⟩⟩ := BlockCache.update_cases h
  · have hframe := BlockCache.checkAndFixReorg_frame client { cache with daemonHeight := d }
    rw [hfix] at hframe
    exact hframe.2
  · omega

end Gateway

namespace Scanner

/-- An invoice that has its transfers already, at the height of the cache, is left alone. -/
theorem updateInvoice_eq_none {transfers : List (SubIndex × Transfer)}
    {blockCacheHeight deepestUpdate : ℕ} {old : Invoice}
    (hperm : (updatedTransfers transfers deepestUpdate old).Perm old.transfers)
    (hheight : old.currentHeight = blockCacheHeight + 1) :
    updateInvoice transfers blockCacheHeight deepestUpdate old = none := by
  refine if_pos (Invoice.eq_iff.mpr ⟨hperm, ?_⟩)
  rw [← hheight]

/-- The transfers that are kept by the next scan if no block is updated: those in blocks. -/
theorem keptTransfers_perm {deepestUpdate : ℕ} {invoice : Invoice}
    {kept inBlocks inPool : List Transfer}
    (hperm : invoice.transfers.Perm (kept ++ inBlocks ++ inPool))
    (hkept : ∀ t ∈ kept, ∃ b, t.height = some b ∧ b < deepestUpdate)
    (hblocks : ∀ t ∈ inBlocks, ∃ b, t.height = some b ∧ b < deepestUpdate)
    (hpool : ∀ t ∈ inPool, t.height = none) :
    (keptTransfers deepestUpdate invoice).Perm (kept ++ inBlocks) := by
  have hbelow : (kept ++ inBlocks).filter
      (fun t => (t.cmpByHeight ⟨0, some deepestUpdate⟩).isLT) = kept ++ inBlocks := by
    refine List.filter_eq_self.mpr fun t ht => Transfer.cmpByHeight_isLT.mpr ?_
    exact (List.mem_append.mp ht).elim (hkept t) (hblocks t)
  have hnone : inPool.filter (fun t => (t.cmpByHeight ⟨0, some deepestUpdate⟩).isLT) = [] := by
    refine List.filter_eq_nil_iff.mpr fun t ht hlt => ?_
    obtain ⟨b, hb, -⟩ := Transfer.cmpByHeight_isLT.mp hlt
    rw [hpool t ht] at hb
    cases hb
  have hfilter := hperm.filter fun t => (t.cmpByHeight ⟨0, some deepestUpdate⟩).isLT
  rwa [List.filter_append, hbelow, hnone, List.append_nil] at hfilter

/-- What is added to an invoice depends on its id only. -/
theorem addedTransfers_congr (transfers : List (SubIndex × Transfer)) {old new : Invoice}
    (h : old.SameTerms new) : addedTransfers transfers new = addedTransfers transfers old := by
  rw [addedTransfers, h.index, h.creationHeight]
  rfl

/-- An invoice that a scan has settled is left alone by an update without blocks and with the same
pool transfers. -/
theorem updateInvoice_settled {blocks pool pool' : List (SubIndex × Transfer)}
    {blockCacheHeight deepestUpdate : ℕ} (hdeep : deepestUpdate ≤ blockCacheHeight + 1)
    (hblocks : ∀ e ∈ blocks, ∃ b, e.2.height = some b ∧ b < blockCacheHeight + 1)
    (hinPool : InPool pool) (hperm : pool'.Perm pool) (old : Invoice) :
    updateInvoice pool' blockCacheHeight (blockCacheHeight + 1)
      (settle (blocks ++ pool) blockCacheHeight deepestUpdate old) = none := by
  have hterms := settle_sameTerms (blocks ++ pool) blockCacheHeight deepestUpdate old
  have htransfers := settle_transfers_perm (blocks ++ pool) blockCacheHeight deepestUpdate old
  have hheight := settle_currentHeight (blocks ++ pool) blockCacheHeight deepestUpdate old
  generalize settle (blocks ++ pool) blockCacheHeight deepestUpdate old = new
    at hterms htransfers hheight
  rw [addedTransfers_append, ← List.append_assoc] at htransfers
  refine updateInvoice_eq_none ?_ hheight
  -- What it has from blocks stays, and what it has from the pool is added once more.
  have hkept : (keptTransfers (blockCacheHeight + 1) new).Perm
      (keptTransfers deepestUpdate old ++ addedTransfers blocks old) := by
    refine keptTransfers_perm htransfers (fun x hx => ?_) (fun x hx => ?_) (fun x hx => ?_)
    · obtain ⟨b, hb, hlt⟩ := Transfer.cmpByHeight_isLT.mp (List.mem_filter.mp hx).2
      exact ⟨b, hb, hlt.trans_le hdeep⟩
    · obtain ⟨e, he, rfl⟩ := List.mem_map.mp hx
      exact hblocks e (List.mem_of_mem_filter he)
    · obtain ⟨e, he, rfl⟩ := List.mem_map.mp hx
      exact hinPool e (List.mem_of_mem_filter he)
  have hadded : (addedTransfers pool' new).Perm (addedTransfers pool old) := by
    rw [addedTransfers_congr pool' hterms]
    exact (hperm.filter _).map Prod.snd
  exact (hkept.append hadded).trans htransfers.symm

end Scanner

namespace Gateway

variable {S : Backend} {g : Gateway} {env : ScanEnv} {ledger : Hash → Transaction} {env' : ScanEnv}
  {later : Gateway}

/-- **An invoice settled by one scan** is left alone by the next one of the same scanner, if that
finds no block to update and the same pool. -/
theorem Scanned.updateInvoice_later {g' later' : Gateway} {t t' : ScanTrace} {pool pool' : List Hash}
    (h : Scanned S env g g' t) (hs : g.scanner.Sound) (h' : Scanned S env' later later' t')
    (hscanner : later.scanner = g'.scanner) (hzero : t'.blocksUpdated = 0)
    (hledger : ∀ h, (ledger h).hash = h) (hserves : ServesPool ledger pool env.client)
    (hserves' : ServesPool ledger pool' env'.client) (hpool : pool'.Perm pool) (old : Invoice) :
    Scanner.updateInvoice (t'.blocksAmounts ++ t'.txpoolAmounts) later'.cache.height
      (deepestUpdate later' t') (Scanner.settle (t.blocksAmounts ++ t.txpoolAmounts)
        g'.cache.height (deepestUpdate g' t) old) = none := by
  have hcount : t.blocksUpdated ≤ g'.cache.height + 1 :=
    BlockCache.update_count_le h.blockCache hs.deep
  have hframe := BlockCache.update_frame env.client g.cache
  rw [h.blockCache] at hframe
  have hdepth : (if g.scanner.firstScan then g'.cache.blocks.length else t.blocksUpdated)
      ≤ g'.cache.height + 1 := by
    have hdeep := hs.deep
    split
    · exact hframe.1.le.trans (hdeep.trans (Nat.add_le_add_right hframe.2 1))
    · exact hcount
  have hinPool : Scanner.InPool t.txpoolAmounts := (h.txpool.inPool fun e he =>
    hs.pool e (Scanner.mem_discovered_of_update h.txpoolCache he)).1
  -- The later scan scans no block.
  have hupdate : later.cache.update env'.client = (.ok 0, later'.cache) := hzero ▸ h'.blockCache
  have hheight : later'.cache.height = g'.cache.height := by
    rw [height_of_update_zero hupdate, cache, hscanner]
  have hfirst : later.scanner.firstScan = false := by rw [hscanner, h.firstScan]
  have hnone : t'.blocksAmounts = [] := by
    rw [h'.blocks.transfers, hfirst, hzero]
    rfl
  rw [hnone, List.nil_append, deepestUpdate, hzero, U64.sub_of_le (Nat.zero_le _), hheight,
    Nat.sub_zero]
  refine Scanner.updateInvoice_settled ?_ (fun e he => ?_) hinPool
    (h.pool_rescanned hs h' hscanner hledger hserves hserves' hpool) old
  · rw [deepestUpdate, U64.sub_of_le hcount]
    exact Nat.sub_le _ _
  · obtain ⟨i, -, hat⟩ := h.blocks.height_of_mem hdepth he
    exact ⟨_, hat, Nat.lt_succ_of_le (Nat.sub_le _ _)⟩

/-- **A later scan** over an unchanged chain and pool reports no invoice that the scan before it has
saved. -/
theorem scan_later (hs : g.scanner.Sound) (hledger : ∀ h, (ledger h).hash = h)
    (h : Unchanged S ledger env env' g later) {invoice : Invoice} (hsaved : g.SavedBy S env invoice)
    (hmem : invoice ∈ later.invoices) {update : Invoice} (hupdate : update ∈ later.reported S env') :
    update.id ≠ invoice.id := by
  intro hid
  obtain ⟨t, hscanned, old, rfl⟩ := hsaved.settled
  obtain ⟨t', hscanned', stored, hstored, hnew⟩ := mem_reported hupdate
  obtain ⟨pool, pool', hserves, hserves', hpool⟩ := h.pool
  have hzero : t'.blocksUpdated = 0 := h.chain _ (congrArg Prod.fst hscanned'.blockCache)
  have hleft := hscanned.updateInvoice_later hs hscanned' h.scanner hzero hledger hserves hserves'
    hpool old
  -- Only one invoice is stored under this id.
  have hsame : stored.id = _ := (Scanner.updateInvoice_sameTerms _ _ _ _ hnew).id.symm.trans hid
  rw [List.inj_on_of_nodup_map later.shared.store.nodupIds hstored hmem hsame, hleft] at hnew
  cases hnew

/-- **The order of hash maps does not matter.** A scan whose sums fit in 64 bits does the same in
every order. And in every run of a gateway, a later scan over an unchanged chain and pool reports
nothing that the scan before it has saved, whatever the orders and the sums. -/
theorem hash_order_irrelevant (S : Backend) :
    (∀ (g : Gateway) (env : ScanEnv) (blockOrder : ℕ → IterOrder (Hash × List OwnedAmount))
        (txpoolOrder : IterOrder (Hash × List (SubIndex × Transfer))),
      g.scanner.txpoolCache.HoldsPool → g.Fits S env →
      g.SameScan S env (env.reordered blockOrder txpoolOrder)) ∧
    ∀ (client : MonerodClient) (store : Store) (n : ℕ) (initialHeight : Option ℕ)
        (g₀ g : Gateway), Gateway.start client store n initialHeight = .ok g₀ →
      Relation.ReflTransGen (AnyStep S) g₀ g →
      g.scanner.txpoolCache.HoldsPool ∧
      ∀ (ledger : Hash → Transaction) (env env' : ScanEnv) (later : Gateway),
        (∀ h, (ledger h).hash = h) → Unchanged S ledger env env' g later →
        ∀ invoice ∈ later.invoices, g.SavedBy S env invoice →
        ∀ update ∈ later.reported S env', update.id ≠ invoice.id := by
  refine ⟨fun g env blockOrder txpoolOrder hpool hfits =>
    scan_alike hpool hfits blockOrder txpoolOrder,
    fun client store n initialHeight g₀ g hstart hrun => ?_⟩
  have hs : g.scanner.Sound := sound_run (sound_start hstart) hrun
  refine ⟨hs.pool, fun ledger env env' later hledger h invoice hmem hsaved update hupdate => ?_⟩
  exact scan_later hs hledger h hsaved hmem hupdate

/-- A daemon with two payments in one block. -/
def paidTwice (amount amount' : ℕ) : Daemon :=
  ⟨[(10, []), (11, []), (12, [payment 1 amount, payment 2 amount'])], []⟩

/-- The same scan with all maps in the opposite order. -/
def reversedEnv (daemon : Daemon) : ScanEnv :=
  (plainEnv daemon).reordered (fun _ => .reversed _) (.reversed _)

/-- A gateway that has scanned an empty pool. -/
def emptyPoolScanned : Gateway := (smallStart (pooled []) smallStore).afterScan (pooled [])

/-- Two payments in one block, seen in both orders; and two payments in the pool, which the next
scan sees in the other order. -/
theorem hash_order_irrelevant_two :
    ((smallStart (paidTwice 4 8) smallStore).reported .exact (plainEnv (paidTwice 4 8))).map
        (·.transfers) = [[⟨4, some 2⟩, ⟨8, some 2⟩]] ∧
    (smallStart (paidTwice 4 8) smallStore).SameScan .exact (plainEnv (paidTwice 4 8))
      (reversedEnv (paidTwice 4 8)) ∧
    emptyPoolScanned.reported .exact (plainEnv (pooled [7, 8])) ≠ [] ∧
    ∀ invoice ∈ emptyPoolScanned.reported .exact (plainEnv (pooled [7, 8])),
      ∀ update ∈ (emptyPoolScanned.afterScan (pooled [7, 8])).reported .exact
        (reversedEnv (pooled [8, 7])), update.id ≠ invoice.id := by
  refine ⟨by decide +kernel, ?_, by decide +kernel, ?_⟩
  · have hstart : Gateway.start (paidTwice 4 8).client smallStore 2 none
        = .ok (smallStart (paidTwice 4 8) smallStore) := rfl
    exact (hash_order_irrelevant .exact).1 _ _ _ _ (sound_start hstart).pool (by decide +kernel)
  · have hstart : Gateway.start (pooled []).client smallStore 2 none
        = .ok (smallStart (pooled []) smallStore) := rfl
    have hrun : Relation.ReflTransGen (AnyStep .exact) (smallStart (pooled []) smallStore)
        emptyPoolScanned := .single (.scan (plainEnv (pooled [])))
    have hunchanged : Unchanged .exact fives (plainEnv (pooled [7, 8])) (reversedEnv (pooled [8, 7]))
        emptyPoolScanned (emptyPoolScanned.afterScan (pooled [7, 8])) := by
      refine ⟨rfl, ?_, [7, 8], [8, 7], servesPool_client (fun _ => rfl) (by decide) _,
        servesPool_client (fun _ => rfl) (by decide) _, by decide⟩
      have hzero : ((emptyPoolScanned.afterScan (pooled [7, 8])).cache.update
          (reversedEnv (pooled [8, 7])).client).1 = .ok 0 := rfl
      intro count hcount
      exact (Except.ok.inj (hzero.symm.trans hcount)).symm
    have hmem : ∀ invoice ∈ emptyPoolScanned.reported .exact (plainEnv (pooled [7, 8])),
        invoice ∈ (emptyPoolScanned.afterScan (pooled [7, 8])).invoices := by decide +kernel
    obtain ⟨-, hlater⟩ := (hash_order_irrelevant .exact).2 _ _ _ _ _ _ hstart hrun
    exact fun invoice hreported => hlater _ _ _ _ (fun _ => rfl) hunchanged invoice
      (hmem invoice hreported) ⟨rfl, .inl hreported⟩

/-- **The order matters when the total overflows**: of two payments in one block, the first alone is
enough for the invoice, and both together add up to nothing. The scan that sees it first reports the
invoice as paid in this block, the other one does not. -/
theorem hash_order_overflow :
    Gateway.start (paidTwice (u64Size - 1) 1).client smallStore 2 none
      = .ok (smallStart (paidTwice (u64Size - 1) 1) smallStore) ∧
    ((smallStart (paidTwice (u64Size - 1) 1) smallStore).reported .exact
      (plainEnv (paidTwice (u64Size - 1) 1))).map (·.paidHeight) = [some 2] ∧
    ((smallStart (paidTwice (u64Size - 1) 1) smallStore).reported .exact
      (reversedEnv (paidTwice (u64Size - 1) 1))).map (·.paidHeight) = [none] ∧
    ¬ (smallStart (paidTwice (u64Size - 1) 1) smallStore).SameScan .exact
      (plainEnv (paidTwice (u64Size - 1) 1)) (reversedEnv (paidTwice (u64Size - 1) 1)) := by
  have hpaid : ((smallStart (paidTwice (u64Size - 1) 1) smallStore).reported .exact
      (plainEnv (paidTwice (u64Size - 1) 1))).map (·.paidHeight) = [some 2] := by decide +kernel
  have hunpaid : ((smallStart (paidTwice (u64Size - 1) 1) smallStore).reported .exact
      (reversedEnv (paidTwice (u64Size - 1) 1))).map (·.paidHeight) = [none] := by decide +kernel
  refine ⟨rfl, hpaid, hunpaid, fun h => ?_⟩
  have hsame : List.Forall₂ Eq _ _ := List.forall₂_map_left_iff.mpr (List.forall₂_map_right_iff.mpr
    (h.reported.imp fun _ _ halike => halike.paidHeight.symm))
  rw [hpaid, hunpaid] at hsame
  cases hsame with
  | cons heq _ => cases heq

end Gateway

end AcceptXmr
