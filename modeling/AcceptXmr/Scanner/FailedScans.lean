import AcceptXmr.Scanner.TxpoolExactness

/-! # Scans that fail

A scan can fail at every call it makes, and goes on from what the failed one has left behind. What a
failed scan has taken out of the daemon is not offered again: a block that is in the cache is not
among the updated ones of the next scan, and a transaction that is in the pool cache is not new any
more. A failure is harmless only if nothing has been taken, or if what was taken has been kept.

`Recoverable` lists the harmless ways in which a scan can go.

* **`BlockCache.update_on`** — what an update of the block cache does on a chain that only grows.
* **`RetryBooks.step`** — the invariant of runs whose failures are harmless.
* **`failed_scans_lose_nothing`** — in such a run, every scan that returns `Ok` leaves every watched
  invoice with exactly its payments in the cached blocks and in the pool. -/

namespace AcceptXmr

open AssocMap
open scoped List

/-! ## A chain that only grows -/

/-- A chain that only grows: the block at every height that it reaches at some time. -/
structure Chain where
  block : ℕ → Block
  linked : ∀ h, (block (h + 1)).inner.prevId = (block h).hash

/-- The daemon answers from the chain and from a pool of transactions of the ledger. Every call may
fail. -/
structure Chain.ServedBy (chain : Chain) (ledger : Hash → Transaction) (client : MonerodClient) :
    Prop where
  blocks : ∀ h block, client.fetch h = .ok block → block = chain.block h
  nodup : ∀ pool, client.txpoolHashes = .ok pool → pool.Nodup
  byHashes : ∀ pool hashes txs, client.txpoolHashes = .ok pool → hashes ⊆ pool →
    client.transactionsByHashes hashes = .ok txs → txs.Perm (hashes.map ledger)

theorem Chain.ServedBy.consistent {chain : Chain} {ledger : Hash → Transaction}
    {client : MonerodClient} (h : chain.ServedBy ledger client) : client.Consistent := by
  intro height below above hbelow habove
  rw [h.blocks _ _ hbelow, h.blocks _ _ habove]
  exact chain.linked height

namespace BlockCache

/-- Every cached block is the chain's. -/
def On (chain : Chain) (cache : BlockCache) : Prop :=
  ∀ b block, cache.blockAt b = some block → block = chain.block b

/-- The cache with the next block of the chain on top. -/
def pushed (chain : Chain) (cache : BlockCache) (daemonHeight : ℕ) : BlockCache :=
  ⟨cache.height + 1, daemonHeight, (chain.block (cache.height + 1) :: cache.blocks).dropLast⟩

section On

variable {chain : Chain} {ledger : Hash → Transaction} {client : MonerodClient} {n : ℕ}
  {cache : BlockCache}

/-- The next block of the chain fits on top. -/
theorem On.linked_pushed (h : cache.On chain) (hv : cache.Valid n) (d : ℕ) :
    Linked (cache.pushed chain d).blocks := by
  have hlinked : Linked (chain.block (cache.height + 1) :: cache.blocks) := by
    refine List.isChain_cons.mpr ⟨fun top htop => ?_, hv.linked⟩
    have hat : cache.blockAt cache.height = some top := by
      rw [blockAt, if_pos le_rfl, Nat.sub_self, ← List.head?_eq_getElem?]
      exact htop
    rw [h _ _ hat]
    exact chain.linked _
  exact hlinked.dropLast

/-- **An update on a chain that only grows** fails without an effect, finds nothing new, or puts the
next block on top. -/
theorem update_on (h : cache.On chain) (hv : cache.Valid n)
    (hserved : chain.ServedBy ledger client) :
    (∃ e d, cache.update client = (.error e, { cache with daemonHeight := d })) ∨
    (∃ d, cache.update client = (.ok 0, { cache with daemonHeight := d })) ∨
    ∃ d, cache.update client = (.ok 1, cache.pushed chain d) := by
  unfold update
  cases hd : client.daemonHeight with
  | error e => exact .inl ⟨e, cache.daemonHeight, rfl⟩
  | ok d =>
      simp only [advance]
      by_cases hadv : cache.height < d - 1
      · rw [if_pos hadv]
        cases hblock : client.fetch (cache.height + 1) with
        | error e => exact .inl ⟨e, d, rfl⟩
        | ok block =>
            obtain rfl := hserved.blocks _ _ hblock
            have hfix := checkAndFixReorg_linked client (h.linked_pushed hv d)
            rw [pushed] at hfix
            simp only [hfix]
            exact .inr (.inr ⟨d, rfl⟩)
      · rw [if_neg hadv]
        have hlinked : Linked { cache with daemonHeight := d }.blocks := hv.linked
        simp only [checkAndFixReorg_linked client hlinked]
        exact .inr (.inl ⟨d, rfl⟩)

/-- The chain's blocks stay the chain's. -/
theorem On.update (h : cache.On chain) (hn : 1 ≤ n) (hv : cache.Valid n)
    (hserved : chain.ServedBy ledger client) {result : Except RpcError ℕ} {after : BlockCache}
    (hupd : cache.update client = (result, after)) : after.On chain ∧ after.Valid n := by
  obtain ⟨e, d, hcase⟩ | ⟨d, hcase⟩ | ⟨d, hcase⟩ := update_on h hv hserved
  · obtain ⟨-, rfl⟩ := Prod.mk.inj (hupd.symm.trans hcase)
    exact ⟨h, ⟨hv.length, hv.linked, hv.height⟩⟩
  · obtain ⟨-, rfl⟩ := Prod.mk.inj (hupd.symm.trans hcase)
    exact ⟨h, ⟨hv.length, hv.linked, hv.height⟩⟩
  · obtain ⟨-, rfl⟩ := Prod.mk.inj (hupd.symm.trans hcase)
    have hspec := update_spec hserved.consistent hn hv hcase
    refine ⟨fun b block hb => ?_, hspec.valid⟩
    obtain ⟨hle, hlt, -⟩ := blockAt_eq_some hb
    have hlen := hspec.valid.length
    by_cases htop : b = cache.height + 1
    · obtain ⟨top, rest, hblocks⟩ := List.exists_cons_of_length_pos
        (by rw [hv.length]; omega : 0 < cache.blocks.length)
      rw [htop, blockAt, if_pos (by exact le_rfl)] at hb
      simp only [pushed, Nat.sub_self, hblocks, List.dropLast_cons_cons, List.getElem?_cons_zero,
        Option.some.injEq] at hb
      rw [htop, hb]
    · have hle' : b ≤ cache.height + 1 := hle
      refine h b block ?_
      rw [← hspec.kept b (by simp only [pushed]; omega) (by simp only [pushed] at *; omega)]
      exact hb

end On

end BlockCache

namespace Gateway

/-! ## The ways in which a scan can go -/

/-- The outcomes of the two halves in which the caches are scanned, after the caches have been
updated to those of `mid`. -/
def cachesOutcome (S : Backend) (env : ScanEnv) (g : Gateway) (mid : Scanner) (blocksUpdated : ℕ)
    (newTransactions : List Transaction) :=
  ((Scanner.scanCaches env mid blocksUpdated newTransactions).run (handle S)
    { g.shared with faults := env.faults }).1

/-- **The harmless ways in which a scan can go.** Except for the last one, it fails. -/
inductive Recoverable (S : Backend) (env : ScanEnv) (g : Gateway) : Prop where
  /-- The block cache cannot be updated. -/
  | blockCache {e : RpcError} (h : (g.cache.update env.client).1 = .error e) : Recoverable S env g
  /-- The pool cache cannot be updated, and there was no new block or the next scan goes over the
  whole cache. -/
  | txpoolCache {blocksUpdated : ℕ} {e : RpcError}
      (h : (g.cache.update env.client).1 = .ok blocksUpdated)
      (htxpool : (g.scanner.txpoolCache.update env.client).1 = .error e)
      (hagain : g.scanner.firstScan = true ∨ blocksUpdated = 0) : Recoverable S env g
  /-- Only the block cache cannot be scanned, and the next scan goes over all of it. -/
  | scanBlocks {blocksUpdated : ℕ} {newTransactions : List Transaction} {mid : Scanner}
      {e : ScannerError} {found : List (SubIndex × Transfer) × TxpoolCache}
      (h : g.scanner.updateCaches env.client = (.ok (blocksUpdated, newTransactions), mid))
      (hscan : cachesOutcome S env g mid blocksUpdated newTransactions = .ok (.error e, .ok found))
      (hagain : g.scanner.firstScan = true) : Recoverable S env g
  /-- The invoices cannot be iterated over, and no block has been scanned. -/
  | updateInvoices {newTransactions : List Transaction} {mid : Scanner}
      {blocksAmounts : List (SubIndex × Transfer)}
      {found : List (SubIndex × Transfer) × TxpoolCache}
      (h : g.scanner.updateCaches env.client = (.ok (0, newTransactions), mid))
      (hscan : cachesOutcome S env g mid 0 newTransactions = .ok (.ok blocksAmounts, .ok found))
      (hfails : env.faults.forEach ≠ none) (hfirst : g.scanner.firstScan = false) :
      Recoverable S env g
  /-- Both caches are scanned, and every invoice can be read and saved. What follows may fail. -/
  | saved {blocksUpdated : ℕ} {newTransactions : List Transaction} {mid : Scanner}
      {blocksAmounts : List (SubIndex × Transfer)}
      {found : List (SubIndex × Transfer) × TxpoolCache}
      (h : g.scanner.updateCaches env.client = (.ok (blocksUpdated, newTransactions), mid))
      (hscan : cachesOutcome S env g mid blocksUpdated newTransactions
        = .ok (.ok blocksAmounts, .ok found))
      (hread : env.faults.forEach = none)
      (hsaved : ∀ invoice ∈ g.invoices,
        env.faults.unreadable invoice.id = false ∧ env.faults.save invoice.id = none) :
      Recoverable S env g

end Gateway

/-! ## Taking scans apart that may fail -/

namespace Scanner

variable {client : MonerodClient}

theorem updateCaches_of_block_error {e : RpcError} {blockCache : BlockCache} (self : Scanner)
    (h : self.blockCache.update client = (.error e, blockCache)) :
    self.updateCaches client
      = (.error (.blockCache e), { self with blockCache := blockCache }) := by
  simp only [updateCaches, h]

theorem updateCaches_of_txpool_error {count : ℕ} {e : RpcError} {blockCache : BlockCache}
    {txpoolCache : TxpoolCache} (self : Scanner)
    (h : self.blockCache.update client = (.ok count, blockCache))
    (htxpool : self.txpoolCache.update client = (.error e, txpoolCache)) :
    self.updateCaches client = (.error (.txpoolCache e),
      { self with blockCache := blockCache, txpoolCache := txpoolCache }) := by
  simp only [updateCaches, h, htxpool]

end Scanner

namespace Gateway

section Ends

variable {S : Backend} {env : ScanEnv} {g g' : Gateway} {mid : Scanner} {blocksUpdated : ℕ}
  {newTransactions : List Transaction} {result : Except ScannerError Unit}

/-- A scan whose caches cannot be updated. -/
theorem scan_of_updateCaches_error {e : ScannerError}
    (h : g.scanner.updateCaches env.client = (.error e, mid))
    (hscan : g.scan S env = (result, g')) :
    result = .error e ∧ g' = ⟨mid, { g.shared with faults := env.faults }⟩ := by
  simp only [Gateway.scan, Scanner.scan, h, Resumption.pure_eq, Resumption.run_done] at hscan
  cases hscan
  exact ⟨rfl, rfl⟩

/-- A scan whose block cache cannot be scanned while the pool can. -/
theorem scan_of_blocks_error {e : ScannerError}
    {found : List (SubIndex × Transfer) × TxpoolCache}
    (h : g.scanner.updateCaches env.client = (.ok (blocksUpdated, newTransactions), mid))
    (hout : cachesOutcome S env g mid blocksUpdated newTransactions = .ok (.error e, .ok found))
    (hscan : g.scan S env = (result, g')) :
    ∃ u, Grows { g.shared with faults := env.faults } u ∧
      Scanner.TxpoolScanned S env mid.txpoolCache newTransactions found.1 found.2 u ∧
      result = .error e ∧ g' = ⟨{ mid with txpoolCache := found.2 }, u⟩ := by
  obtain ⟨blocks, txpool, u, hrun, hgrows, -, htxpool⟩ := Scanner.run_scanCaches S env mid
    blocksUpdated newTransactions { g.shared with faults := env.faults }
  rw [cachesOutcome, hrun] at hout
  cases hout
  refine ⟨u, hgrows, htxpool _ _ rfl, ?_⟩
  simp only [Gateway.scan, Scanner.scan, h, Resumption.bind_eq, Resumption.run_bind, hrun,
    Resumption.pure_eq, Resumption.run_done] at hscan
  cases hscan
  exact ⟨rfl, rfl⟩

/-- A scan that has scanned both caches. -/
theorem scan_of_caches_ok {blocksAmounts : List (SubIndex × Transfer)}
    {found : List (SubIndex × Transfer) × TxpoolCache}
    (h : g.scanner.updateCaches env.client = (.ok (blocksUpdated, newTransactions), mid))
    (hout : cachesOutcome S env g mid blocksUpdated newTransactions
      = .ok (.ok blocksAmounts, .ok found))
    (hscan : g.scan S env = (result, g')) :
    ∃ u, Grows { g.shared with faults := env.faults } u ∧
      Scanner.BlocksScanned S env mid.blockCache
        (if mid.firstScan then mid.blockCache.blocks.length else blocksUpdated) blocksAmounts u ∧
      Scanner.TxpoolScanned S env mid.txpoolCache newTransactions found.1 found.2 u ∧
      g'.scanner = { mid with txpoolCache := found.2, firstScan := false } ∧
      (Scanner.finishScan mid.blockCache.height blocksUpdated (blocksAmounts ++ found.1)).run
        (handle S) u = (result, g'.shared) := by
  obtain ⟨blocks, txpool, u, hrun, hgrows, hblocks, htxpool⟩ := Scanner.run_scanCaches S env mid
    blocksUpdated newTransactions { g.shared with faults := env.faults }
  rw [cachesOutcome, hrun] at hout
  cases hout
  refine ⟨u, hgrows, hblocks _ rfl, htxpool _ _ rfl, ?_⟩
  simp only [Gateway.scan, Scanner.scan, h, Resumption.bind_eq, Resumption.run_bind, hrun,
    Resumption.run_attempt, Resumption.pure_eq, Resumption.run_done] at hscan
  cases hscan
  exact ⟨rfl, rfl⟩

/-- What updating the caches has done to each of them. -/
theorem updateCaches_ok
    (h : g.scanner.updateCaches env.client = (.ok (blocksUpdated, newTransactions), mid)) :
    g.cache.update env.client = (.ok blocksUpdated, mid.blockCache) ∧
      g.scanner.txpoolCache.update env.client = (.ok newTransactions, mid.txpoolCache) ∧
      mid.firstScan = g.scanner.firstScan := by
  unfold Scanner.updateCaches at h
  split at h
  · cases h
  · rename_i hblock
    split at h
    · cases h
    · rename_i htxpool
      cases h
      exact ⟨hblock, htxpool, rfl⟩

end Ends

/-! ## What a failed scan leaves in place -/

section Frame

variable {ledger : Hash → Transaction} {g g' : Gateway} {v : PoolView} {n : ℕ}
  {W : Set InvoiceId}

/-- The block part of the invariant survives if the invoices do, and the cached blocks as well once
they count as scanned. -/
theorem Ledger.frame (hl : Ledger n W g) (hv : g'.cache.Valid n)
    (hinv : g'.invoices = g.invoices) (hkeys : KeysKept g.shared g'.shared)
    (hpool : ∀ e ∈ g'.scanner.txpoolCache.discoveredTransfers, Scanner.InPool e.2)
    (hfirst : g'.scanner.firstScan = g.scanner.firstScan)
    (hblocks : g.scanner.firstScan = false → ∀ b, g'.cache.blockAt b = g.cache.blockAt b) :
    Ledger n W g' := by
  refine ⟨hv, hpool, ?_, fun hfs invoice hmem hid => ?_⟩
  · rw [hinv, hfirst]
    exact hl.first
  · rw [hfirst] at hfs
    rw [hinv] at hmem
    have hc := hl.credited hfs invoice hmem hid
    refine ⟨fun b block hb => ?_, fun b block hb hle => ?_⟩
    · rw [hblocks hfs] at hb
      refine (hc.transfers b block hb).trans ?_
      split
      · rename_i hle
        rw [← hkeys.acceptedAmounts_for (hc.recorded b block hb hle)]
      · exact .refl _
    · rw [hblocks hfs] at hb
      exact hkeys.recordedFor (hc.recorded b block hb hle)

/-- The pool part survives if some of the cached transactions are forgotten. -/
theorem PoolBooks.forget (hb : PoolBooks ledger W g v) (p : Hash → Bool)
    (hcache : g'.scanner.txpoolCache = ⟨retain p g.scanner.txpoolCache.transactions,
      retain p g.scanner.txpoolCache.discoveredTransfers⟩)
    (hkeys : g'.keys = g.keys) :
    PoolBooks ledger W g' ⟨v.pool.filter p, v.entry, v.unscanned.filter p⟩ := by
  -- Under the hashes that stay, the same is remembered.
  have hvalues : ∀ hash ∈ v.pool.filter p,
      valuesAt g'.scanner.txpoolCache.discoveredTransfers hash
        = valuesAt g.scanner.txpoolCache.discoveredTransfers hash := by
    intro hash hmem
    rw [hcache, valuesAt_retain, if_pos (List.mem_filter.mp hmem).2]
  have hunscanned : ∀ hash ∈ v.pool.filter p, hash ∉ v.unscanned.filter p →
      hash ∈ v.pool ∧ hash ∉ v.unscanned := fun hash hmem hu =>
    ⟨List.mem_of_mem_filter hmem,
      fun h => hu (List.mem_filter.mpr ⟨h, (List.mem_filter.mp hmem).2⟩)⟩
  refine ⟨fun hash => ?_, ?_, ?_, fun hash hmem => ?_, fun hash hmem => ?_, ?_, ?_⟩
  · rw [hcache, mem_keys_retain, hb.cached, List.mem_filter]
  · rw [hcache, keys_retain]
    exact hb.nodup.filter _
  · rw [hcache]
    exact fun e he => hb.inPool e (List.mem_of_mem_filter he)
  · rw [hcache, mem_keys_retain] at hmem
    obtain ⟨hpool, hu⟩ := hb.mem hash hmem.1
    exact ⟨List.mem_filter.mpr ⟨hpool, hmem.2⟩, fun h => hu (List.mem_of_mem_filter h)⟩
  · rw [List.mem_filter] at hmem ⊢
    exact ⟨hb.unscanned hash hmem.1, hmem.2⟩
  · intro hash hmem hu
    rw [hkeys]
    exact hb.recorded hash (hunscanned hash hmem hu).1 (hunscanned hash hmem hu).2
  · intro hash hmem hu
    rw [hvalues hash hmem, hkeys]
    exact hb.counted hash (hunscanned hash hmem hu).1 (hunscanned hash hmem hu).2

/-- The invariant only asks which transactions are in the lists of the view. -/
theorem PoolBooks.congr {v' : PoolView} (hb : PoolBooks ledger W g v)
    (hpool : ∀ hash, hash ∈ v'.pool ↔ hash ∈ v.pool) (hentry : v'.entry = v.entry)
    (hunscanned : ∀ hash, hash ∈ v'.unscanned ↔ hash ∈ v.unscanned) : PoolBooks ledger W g v' := by
  refine ⟨fun hash => ?_, hb.nodup, hb.inPool, fun hash hmem => ?_, fun hash hmem => ?_, ?_, ?_⟩
  · rw [hpool, hb.cached]
  · rw [hpool, hunscanned]
    exact hb.mem hash hmem
  · rw [hunscanned] at hmem
    rw [hpool]
    exact hb.unscanned hash hmem
  · intro hash
    rw [hpool, hunscanned, hentry]
    exact hb.recorded hash
  · intro hash
    rw [hpool, hunscanned, hentry]
    exact hb.counted hash

/-- An update of the pool cache that fails can only forget. -/
theorem txpoolUpdate_error {client : MonerodClient} {cache cache' : TxpoolCache} {e : RpcError}
    (h : cache.update client = (.error e, cache')) :
    ∃ p : Hash → Bool, cache' = ⟨retain p cache.transactions,
      retain p cache.discoveredTransfers⟩ := by
  unfold TxpoolCache.update at h
  split at h
  · cases h
    exact ⟨fun _ => true, by simp [retain]⟩
  · dsimp only at h
    split at h
    · cases h
      exact ⟨_, rfl⟩
    · cases h

/-- An update of the pool cache that succeeds. -/
theorem txpoolUpdate_ok {chain : Chain} {client : MonerodClient}
    (hserved : chain.ServedBy ledger client) {cache cache' : TxpoolCache}
    {newTransactions : List Transaction} (h : cache.update client = (.ok newTransactions, cache')) :
    ∃ pool, client.txpoolHashes = .ok pool ∧
      PoolUpdated ledger pool cache newTransactions cache' := by
  unfold TxpoolCache.update at h
  split at h
  · cases h
  · rename_i pool hpool
    dsimp only at h
    split at h
    · cases h
    · rename_i txs htxs
      cases h
      exact ⟨pool, hpool, hserved.nodup pool hpool,
        hserved.byHashes pool _ _ hpool List.filter_sublist.subset htxs, rfl, rfl⟩

end Frame

/-! ## Runs in which scans fail -/

/-- What a scanner has seen of the pool in a run without invoices created or removed: the cached
transactions, of which those in `sinceStart` have been there ever since `Scanner::new`. -/
def seenView (ids : List InvoiceId) (g : Gateway) (sinceStart : List Hash) : PoolView :=
  ⟨AssocMap.keys g.scanner.txpoolCache.transactions, fun _ => ids, sinceStart⟩

/-- **The invariant** of runs with harmless failures, for the watched invoices. -/
structure RetryBooks (chain : Chain) (ledger : Hash → Transaction) (n : ℕ) (W : Set InvoiceId)
    (ids : List InvoiceId) (g : Gateway) (sinceStart : List Hash) : Prop where
  credited : Ledger n W g
  onChain : g.cache.On chain
  sameIds : g.shared.store.getIds = ids
  pool : PoolBooks ledger W g (seenView ids g sinceStart)

/-- Those of the transactions in the pool at the start that have still not left it. -/
def stillThere (g : Gateway) (sinceStart : List Hash) : List Hash :=
  sinceStart.filter fun hash => decide (hash ∈ AssocMap.keys g.scanner.txpoolCache.transactions)

/-- **Every payment is there, once**: at each height of the cached window the accepted outputs to
the invoice's index in the chain's block, none below its creation height; and in the pool those in
the transactions that were first seen since the start. A transaction that has left the pool and come
back counts as seen for the first time, with or without failures. -/
structure PaymentsExact (chain : Chain) (ledger : Hash → Transaction) (n : ℕ) (pool : List Hash)
    (sinceStart : List Hash) (g : Gateway) (invoice : Invoice) : Prop where
  inBlocks : ∀ b, b ≤ g.cache.height → g.cache.height < b + n →
    g.cache.blockAt b = some (chain.block b) ∧
      ((invoice.transfersAt (some b)).map (·.amount)).Perm (if invoice.creationHeight ≤ b then
        acceptableAmounts g.keys invoice.index (unlockedOutputs (chain.block b).transactions)
      else [])
  inPool : ((invoice.transfersAt none).map (·.amount)).Perm
    ((pool.filter fun hash => decide (hash ∉ sinceStart)).flatMap fun hash =>
      acceptableAmounts g.keys invoice.index (unlockedOutputs [ledger hash]))

section Step

variable {S : Backend} {chain : Chain} {ledger : Hash → Transaction} {n : ℕ} {ids : List InvoiceId}
  {W : Set InvoiceId} {env : ScanEnv} {g g' : Gateway} {sinceStart pool : List Hash}
  {t : ScanTrace}

/-- Forgetting cached transactions, with the invoices left alone. -/
theorem RetryBooks.seen_forget (hb : RetryBooks chain ledger n W ids g sinceStart) (p : Hash → Bool)
    (hcache : g'.scanner.txpoolCache = ⟨retain p g.scanner.txpoolCache.transactions,
      retain p g.scanner.txpoolCache.discoveredTransfers⟩)
    (hkeys : g'.keys = g.keys) :
    PoolBooks ledger W g' (seenView ids g' (stillThere g' sinceStart)) := by
  refine (hb.pool.forget p hcache hkeys).congr (fun hash => ?_) rfl fun hash => ?_
  · simp only [seenView]
    rw [hcache, keys_retain]
  · simp only [seenView, stillThere, List.mem_filter, decide_eq_true_iff]
    rw [hcache, mem_keys_retain]
    exact ⟨fun h => ⟨h.1, h.2.2⟩, fun h => ⟨h.1, hb.pool.unscanned hash h.1, h.2⟩⟩

/-- Going over the pool. -/
theorem RetryBooks.seen_scan (hb : RetryBooks chain ledger n W ids g sinceStart)
    (hledger : ∀ h, (ledger h).hash = h) (hs : PoolScanned S ledger pool env g g' t)
    (hwatches : g.Watches W env) :
    PoolBooks ledger W g' (seenView ids g' (stillThere g' sinceStart)) := by
  have hnext := hb.pool.poolScan hledger hs hwatches
  refine hnext.congr hnext.cached ?_ fun hash => ?_
  · funext hash
    simp [seenView, PoolView.next, hb.sameIds]
  · have hcached := hnext.cached hash
    simp only [seenView, stillThere, PoolView.next, List.mem_filter, decide_eq_true_iff] at hcached ⊢
    rw [hcached]

/-- The invoices that a scan leaves alone keep the invariant; `hpool` is what happens to the pool.
-/
theorem RetryBooks.of_frame (hb : RetryBooks chain ledger n W ids g sinceStart) (hn : 1 ≤ n)
    (hserved : chain.ServedBy ledger env.client) {updated : Except RpcError ℕ}
    (hupd : g.cache.update env.client = (updated, g'.cache))
    (hagain : g.scanner.firstScan = true ∨ ∀ blocksUpdated, updated = .ok blocksUpdated →
      blocksUpdated = 0)
    (hfirst : g'.scanner.firstScan = g.scanner.firstScan) (hinv : g'.invoices = g.invoices)
    (hkeys : KeysKept g.shared g'.shared)
    (hpool : PoolBooks ledger W g' (seenView ids g' (stillThere g' sinceStart))) :
    RetryBooks chain ledger n W ids g' (stillThere g' sinceStart) := by
  obtain ⟨hon, hvalid⟩ := hb.onChain.update hn hb.credited.cache hserved hupd
  refine ⟨hb.credited.frame hvalid hinv hkeys hpool.inPool hfirst fun hfs b => ?_, hon, ?_, hpool⟩
  · -- Not the first scan, so no block has been added.
    rcases hagain with htrue | hzero
    · exact absurd (hfs.symm.trans htrue) (by simp)
    · obtain ⟨e, d, hcase⟩ | ⟨d, hcase⟩ | ⟨d, hcase⟩ :=
        BlockCache.update_on hb.onChain hb.credited.cache hserved
      · rw [hcase] at hupd
        rw [← (Prod.mk.inj hupd).2]
        rfl
      · rw [hcase] at hupd
        rw [← (Prod.mk.inj hupd).2]
        rfl
      · rw [hcase] at hupd
        exact absurd (hzero 1 (Prod.mk.inj hupd).1.symm) Nat.one_ne_zero
  · rw [← hb.sameIds, Store.getIds, Store.getIds, show g'.shared.store.invoices = _ from hinv]

/-- A scan that has gone over the pool and left the invoices alone. -/
theorem poolScanned_of_grows
    (hupd : PoolUpdated ledger pool g.scanner.txpoolCache t.newTransactions t.txpoolCache)
    (hgrows : Grows { g.shared with faults := env.faults } t.found)
    (htxpool : Scanner.TxpoolScanned S env t.txpoolCache t.newTransactions t.txpoolAmounts
      g'.scanner.txpoolCache t.found) (hshared : g'.shared = t.found) :
    PoolScanned S ledger pool env g g' t := by
  refine ⟨hupd, hgrows, htxpool, by rw [Gateway.keys, hshared], fun invoice hmem => ?_⟩
  rw [Gateway.invoices, hshared, hgrows.invoices] at hmem
  exact List.mem_map_of_mem hmem

/-- A scan that has saved all invoices. -/
theorem RetryBooks.saved (hb : RetryBooks chain ledger n W ids g sinceStart) (hn : 1 ≤ n)
    (hledger : ∀ h, (ledger h).hash = h) (hserved : chain.ServedBy ledger env.client)
    (hwatches : g.Watches W env)
    (hs : Scanned S env g g' t)
    (hupd : PoolUpdated ledger pool g.scanner.txpoolCache t.newTransactions t.txpoolCache)
    (hsaved : ∀ invoice ∈ g.invoices,
      env.faults.unreadable invoice.id = false ∧ env.faults.save invoice.id = none) :
    RetryBooks chain ledger n W ids g' (stillThere g' sinceStart) ∧
      ∀ invoice ∈ g'.invoices, invoice.id ∈ W → 1 ≤ invoice.creationHeight →
        PaymentsExact chain ledger n pool sinceStart g' invoice := by
  have hinv := hs.invoices_eq_of_saved hsaved
  obtain ⟨hon, hvalid⟩ := hb.onChain.update hn hb.credited.cache hserved hs.blockCache
  -- Saved like by a scan without failures.
  have hledger' := hb.credited.scanned hn hserved.consistent hwatches hs hinv
  refine ⟨⟨hledger', hon, ?_, hb.seen_scan hledger (hs.poolScanned hupd) hwatches⟩,
    fun invoice hmem hid hcreated => ⟨fun b hle hlt => ?_, ?_⟩⟩
  · rw [← hb.sameIds, Store.getIds, Store.getIds, show g'.shared.store.invoices = _ from hinv,
      List.map_map]
    exact List.map_congr_left fun old _ => (Scanner.settle_sameTerms _ _ _ old).id
  · -- In blocks: what is credited at a height are the outputs of the block there, which is the
    -- chain's.
    obtain ⟨block, hblock⟩ : ∃ block, g'.cache.blockAt b = some block := by
      rw [BlockCache.blockAt, if_pos hle]
      exact ⟨_, List.getElem?_eq_getElem (by rw [hvalid.length]; omega)⟩
    obtain rfl := hon b block hblock
    have hafter := hledger'.credited hs.firstScan invoice hmem hid
    have hcredited := (hafter.transfers b _ hblock).map (·.amount)
    simp only [Invoice.receivesAt_iff hcreated] at hcredited
    refine ⟨hblock, hcredited.trans (.of_eq ?_)⟩
    split
    · rename_i hle
      rw [List.map_map, acceptableAmounts_eq
        (hafter.recorded b _ hblock ((Invoice.receivesAt_iff hcreated).mpr hle))]
      exact List.map_id _
    · rfl
  · rw [hinv] at hmem
    obtain ⟨old, hold, rfl⟩ := List.mem_map.mp hmem
    have hterms := Scanner.settle_sameTerms (t.blocksAmounts ++ t.txpoolAmounts) g'.cache.height
      (deepestUpdate g' t) old
    rw [hterms.id] at hid
    rw [hterms.index]
    -- In the pool: what is remembered, and that is all but what was there at the start. Every stored
    -- invoice has been tracked from the start.
    have hids : ∀ invoice ∈ g.invoices, invoice.id ∈ ids :=
      fun invoice h => hb.sameIds ▸ List.mem_map_of_mem h
    have hreused : NotReused W g (seenView ids g sinceStart) pool :=
      fun _ _ _ invoice h _ hentry => absurd (hids invoice h) hentry
    refine (hb.pool.settle_pool hledger hs hupd hwatches hreused hold hid).trans (.of_eq ?_)
    rw [flatMap_filter_eq]
    refine List.flatMap_congr fun hash hp => ?_
    have hentry : old.id ∈ ((seenView ids g sinceStart).next pool g.shared.store.getIds).entry hash := by
      simpa [seenView, PoolView.next, hb.sameIds] using hids old hold
    by_cases hu : hash ∈ sinceStart
    · rw [if_neg fun h => h.1 hu, if_neg (by simpa using hu)]
    · rw [if_pos ⟨hu, hentry⟩, if_pos (by simpa using hu), acceptableAmounts_eq
        (hb.pool.recordedFor_scanned hledger (hs.poolScanned hupd) hwatches hold hid hp hu hentry)]

/-- A **harmless scan keeps the invariant**, and if it returns `Ok` every payment is there. -/
theorem RetryBooks.scan (hb : RetryBooks chain ledger n W ids g sinceStart) (hn : 1 ≤ n)
    (hledger : ∀ h, (ledger h).hash = h) (hserved : chain.ServedBy ledger env.client)
    (hwatches : g.Watches W env)
    (hrec : Recoverable S env g) {result : Except ScannerError Unit}
    (hscan : g.scan S env = (result, g')) :
    RetryBooks chain ledger n W ids g' (stillThere g' sinceStart) ∧
      (result = .ok () → ∃ pool, env.client.txpoolHashes = .ok pool ∧
        ∀ invoice ∈ g'.invoices, invoice.id ∈ W → 1 ≤ invoice.creationHeight →
          PaymentsExact chain ledger n pool sinceStart g' invoice) := by
  cases hrec with
  | blockCache h =>
      obtain ⟨blockCache, hupd⟩ : ∃ c, g.cache.update env.client = (.error _, c) :=
        ⟨_, Prod.ext h rfl⟩
      have hcaches := g.scanner.updateCaches_of_block_error hupd
      obtain ⟨rfl, rfl⟩ := scan_of_updateCaches_error hcaches hscan
      refine ⟨hb.of_frame hn hserved hupd (.inr fun _ h => by cases h) rfl rfl (fun _ _ h => h)
        (hb.seen_forget (fun _ => true) ?_ rfl), fun h => by cases h⟩
      simp [retain]
  | txpoolCache h htxpool hagain =>
      -- Where the block cache has gone on, the next scan goes over all of it.
      obtain ⟨blockCache, hupd⟩ : ∃ c, g.cache.update env.client = (.ok _, c) :=
        ⟨_, Prod.ext h rfl⟩
      obtain ⟨txpoolCache, hpool⟩ : ∃ c, g.scanner.txpoolCache.update env.client = (.error _, c) :=
        ⟨_, Prod.ext htxpool rfl⟩
      have hcaches := g.scanner.updateCaches_of_txpool_error hupd hpool
      obtain ⟨rfl, rfl⟩ := scan_of_updateCaches_error hcaches hscan
      obtain ⟨p, rfl⟩ := txpoolUpdate_error hpool
      refine ⟨hb.of_frame hn hserved hupd ?_ rfl rfl (fun _ _ h => h)
        (hb.seen_forget p rfl rfl), fun h => by cases h⟩
      exact hagain.imp id fun hzero _ h => Except.ok.inj h ▸ hzero
  | scanBlocks h hout hagain =>
      -- The txpool has been scanned all the same, and is remembered.
      rename_i blocksUpdated newTransactions mid e found
      obtain ⟨hupd, hpool, hfirst⟩ := updateCaches_ok h
      obtain ⟨u, hgrows, htxpool, rfl, rfl⟩ := scan_of_blocks_error h hout hscan
      obtain ⟨pool, -, hpoolUpd⟩ := txpoolUpdate_ok hserved hpool
      have hps : PoolScanned S ledger pool env g ⟨{ mid with txpoolCache := found.2 }, u⟩
          ⟨blocksUpdated, newTransactions, mid.txpoolCache, u, [], found.1⟩ :=
        poolScanned_of_grows hpoolUpd hgrows htxpool rfl
      exact ⟨hb.of_frame hn hserved hupd (.inl hagain) hfirst hgrows.invoices hps.keysKept
        (hb.seen_scan hledger hps hwatches), fun h => by cases h⟩
  | updateInvoices h hout hfails hfirst =>
      rename_i newTransactions mid blocksAmounts found
      obtain ⟨hupd, hpool, -⟩ := updateCaches_ok h
      obtain ⟨u, hgrows, -, htxpool, hscanner, hfinish⟩ := scan_of_caches_ok h hout hscan
      have hcache : g'.cache = mid.blockCache := by rw [Gateway.cache, hscanner]
      obtain ⟨pool, -, hpoolUpd⟩ := txpoolUpdate_ok hserved hpool
      obtain ⟨-, hshared, e, hres⟩ | ⟨hread, -⟩ := Scanner.run_finishScan hfinish
      · have hps : PoolScanned S ledger pool env g g'
            ⟨0, newTransactions, mid.txpoolCache, u, [], found.1⟩ :=
          poolScanned_of_grows hpoolUpd hgrows (by rw [hscanner]; exact htxpool) hshared
        refine ⟨hb.of_frame hn hserved (by rw [hcache]; exact hupd)
          (.inr fun _ h => (Except.ok.inj h).symm) (by rw [hscanner, hfirst]) ?_ hps.keysKept
          (hb.seen_scan hledger hps hwatches), fun h => by rw [hres] at h; cases h⟩
        rw [Gateway.invoices, hshared]
        exact hgrows.invoices
      · -- Scanning the caches does not change what fails after it.
        rw [hgrows.faults] at hread
        exact absurd hread hfails
  | saved h hout hread hsaved =>
      rename_i blocksUpdated newTransactions mid blocksAmounts found
      obtain ⟨hupd, hpool, hfirst⟩ := updateCaches_ok h
      obtain ⟨u, hgrows, hblocks, htxpool, hscanner, hfinish⟩ := scan_of_caches_ok h hout hscan
      have hcache : g'.cache = mid.blockCache := by rw [Gateway.cache, hscanner]
      obtain ⟨pool, hhashes, hpoolUpd⟩ := txpoolUpdate_ok hserved hpool
      obtain ⟨hno, -⟩ | ⟨-, hend, -⟩ := Scanner.run_finishScan hfinish
      · rw [hgrows.faults] at hno
        exact absurd hread hno
      · have hs : Scanned S env g g'
            ⟨blocksUpdated, newTransactions, mid.txpoolCache, u, blocksAmounts, found.1⟩ := by
          refine ⟨?_, hpool, hgrows, ?_, ?_, ?_, ?_⟩
          · rw [hcache]
            exact hupd
          · rw [hcache, ← hfirst]
            exact hblocks
          · rw [hscanner]
            exact htxpool
          · rw [hscanner]
          · rw [hcache]
            exact hend
        obtain ⟨hbooks, hexact⟩ := hb.saved hn hledger hserved hwatches hs hpoolUpd hsaved
        exact ⟨hbooks, fun _ => ⟨pool, hhashes, hexact⟩⟩

end Step

/-- The steps of a run of scans over a chain that only grows, with harmless failures. The second
component follows the transactions that have been in the pool since the start. -/
inductive RetryStep (S : Backend) (chain : Chain) (ledger : Hash → Transaction)
    (W : Set InvoiceId) : Gateway × List Hash → Gateway × List Hash → Prop where
  | scan {g g' : Gateway} {sinceStart : List Hash} {env : ScanEnv}
      {result : Except ScannerError Unit} (hserved : chain.ServedBy ledger env.client)
      (hwatches : g.Watches W env)
      (hrec : Recoverable S env g) (h : g.scan S env = (result, g')) :
      RetryStep S chain ledger W (g, sinceStart) (g', stillThere g' sinceStart)

section Run

variable {S : Backend} {chain : Chain} {ledger : Hash → Transaction} {n : ℕ} {W : Set InvoiceId}
  {ids : List InvoiceId}

/-- Starting on a store without transfers. -/
theorem RetryBooks.start {client : MonerodClient} {store : Store} {initialHeight : Option ℕ}
    {g : Gateway} {pool : List Hash} (hn : 1 ≤ n) (hledger : ∀ h, (ledger h).hash = h)
    (hserved : chain.ServedBy ledger client) (hpool : client.txpool = .ok (pool.map ledger))
    (hstore : ∀ invoice ∈ store.invoices, invoice.transfers = [])
    (h : Gateway.start client store n initialHeight = .ok g) :
    RetryBooks chain ledger n W store.getIds g pool := by
  have hbooks : PoolBooks ledger W g (PoolView.start pool store) :=
    PoolBooks.start hledger hpool h
  obtain ⟨d, hs⟩ := start_ok h
  refine ⟨Ledger.start hn hserved.consistent hstore h, fun b block hb => ?_, by rw [hs.shared],
    hbooks.congr hbooks.cached rfl fun _ => Iff.rfl⟩
  have hinit := hs.blockCache
  unfold BlockCache.init at hinit
  split at hinit
  · cases hinit
  · rename_i blocks hblocks
    obtain ⟨-, -, hfetch⟩ := BlockCache.fetchDown_spec hserved.consistent
      (by unfold Scanner.startHeight; omega) hblocks
    have hcache := (Except.ok.inj hinit).symm
    rw [hcache, BlockCache.blockAt] at hb
    split at hb
    · rename_i hle
      have hserve := hserved.blocks _ _ (hfetch _ block hb)
      rwa [Nat.sub_sub_self hle] at hserve
    · cases hb

/-- **Every state of such a run satisfies the invariant.** -/
theorem RetryBooks.run {c c' : Gateway × List Hash} (hn : 1 ≤ n)
    (hledger : ∀ h, (ledger h).hash = h) (hb : RetryBooks chain ledger n W ids c.1 c.2)
    (h : Relation.ReflTransGen (RetryStep S chain ledger W) c c') :
    RetryBooks chain ledger n W ids c'.1 c'.2 := by
  induction h with
  | refl => exact hb
  | tail _ hstep ih =>
      cases hstep with
      | scan hserved hwatches hrec h => exact (ih.scan hn hledger hserved hwatches hrec h).1

/-- **Failed scans lose nothing.** In every run of scans from `Scanner::new` over a store without
transfers and a chain that only grows, in which every failure is harmless, whenever a scan returns
`Ok`, every invoice that all scans of the run have watched has exactly its payments in the cached
blocks and in the transactions of the pool that were first seen since the start. -/
theorem failed_scans_lose_nothing {client : MonerodClient} {store : Store}
    {initialHeight : Option ℕ} {pool₀ sinceStart : List Hash} {g₀ g g' : Gateway} {env : ScanEnv}
    (hn : 1 ≤ n) (hledger : ∀ h, (ledger h).hash = h) (hclient : chain.ServedBy ledger client)
    (hpool : client.txpool = .ok (pool₀.map ledger))
    (hstore : ∀ invoice ∈ store.invoices, invoice.transfers = [])
    (hstart : Gateway.start client store n initialHeight = .ok g₀)
    (hrun : Relation.ReflTransGen (RetryStep S chain ledger W) (g₀, pool₀) (g, sinceStart))
    (hserved : chain.ServedBy ledger env.client)
    (hwatches : g.Watches W env)
    (hrec : Recoverable S env g) (hscan : g.scan S env = (.ok (), g')) :
    ∃ pool, env.client.txpoolHashes = .ok pool ∧
      ∀ invoice ∈ g'.invoices, invoice.id ∈ W → 1 ≤ invoice.creationHeight →
        PaymentsExact chain ledger n pool sinceStart g' invoice := by
  have hb := (RetryBooks.start hn hledger hclient hpool hstore hstart).run hn hledger hrun
  exact (hb.scan hn hledger hserved hwatches hrec hscan).2 rfl

end Run

/-- A scan that returns `Ok` is harmless if every stored invoice can be read and saved. -/
theorem Recoverable.of_ok {S : Backend} {env : ScanEnv} {g g' : Gateway}
    (hscan : g.scan S env = (.ok (), g'))
    (hsaved : ∀ invoice ∈ g.invoices,
      env.faults.unreadable invoice.id = false ∧ env.faults.save invoice.id = none) :
    Recoverable S env g := by
  cases hcaches : g.scanner.updateCaches env.client with
  | mk updated mid =>
      cases updated with
      | error e => exact absurd (scan_of_updateCaches_error hcaches hscan).1 (by simp)
      | ok updated =>
          obtain ⟨blocksUpdated, newTransactions⟩ := updated
          obtain ⟨blocks, txpool, u, hrun, -, -, -⟩ := Scanner.run_scanCaches S env mid
            blocksUpdated newTransactions { g.shared with faults := env.faults }
          have hout : cachesOutcome S env g mid blocksUpdated newTransactions
              = .ok (blocks, txpool) := by rw [cachesOutcome, hrun]
          have hscan' := hscan
          simp only [Gateway.scan, Scanner.scan, hcaches, Resumption.bind_eq, Resumption.run_bind,
            hrun] at hscan'
          cases blocks with
          | error e => cases txpool <;> cases hscan'
          | ok blocksAmounts =>
              cases txpool with
              | error e => cases hscan'
              | ok found =>
                  obtain ⟨u, hgrows, -, -, -, hfinish⟩ := scan_of_caches_ok hcaches hout hscan
                  obtain ⟨-, -, e, hres⟩ | ⟨hread, -⟩ := Scanner.run_finishScan hfinish
                  · cases hres
                  · rw [hgrows.faults] at hread
                    exact .saved hcaches hout hread hsaved

/-- A chain with a payment of 5 piconeros in the block at height 3. -/
def paidAtThree : Chain where
  block h := ⟨BitVec.ofNat 256 (10 + h), h,
    ⟨if h = 0 then 0 else BitVec.ofNat 256 (9 + h), if h = 3 then [1] else []⟩,
    if h = 3 then [payment 1 5] else []⟩
  linked h := by
    show (if h + 1 = 0 then 0 else BitVec.ofNat 256 (9 + (h + 1))) = BitVec.ofNat 256 (10 + h)
    rw [if_neg (Nat.succ_ne_zero h), Nat.add_comm h 1, ← Nat.add_assoc]

/-- A daemon that has four of these blocks. -/
def afterPayment : Daemon := ⟨[(10, []), (11, []), (12, []), (13, [payment 1 5])], []⟩

/-- A scan during which the daemon does not list its pool. -/
def poolFails (daemon : Daemon) : ScanEnv where
  client := { daemon.client with txpoolHashes := .error .timeout }
  checker := ⟨(0, 1), (0, 2)⟩

theorem paidAtThree_before : paidAtThree.ServedBy fives beforePayment.client where
  blocks
    | 0, _, h | 1, _, h | 2, _, h => (Except.ok.inj h).symm
    | _ + 3, _, h => nomatch h
  nodup _ h := Except.ok.inj h ▸ List.nodup_nil
  byHashes := (servesPool_client (fun _ => rfl) List.nodup_nil _).byHashes_of_ok

theorem paidAtThree_after : paidAtThree.ServedBy fives afterPayment.client where
  blocks
    | 0, _, h | 1, _, h | 2, _, h | 3, _, h => (Except.ok.inj h).symm
    | _ + 4, _, h => nomatch h
  nodup _ h := Except.ok.inj h ▸ List.nodup_nil
  byHashes := (servesPool_client (fun _ => rfl) List.nodup_nil _).byHashes_of_ok

/-- Calls that fail change nothing in what the daemon serves. -/
theorem paidAtThree_poolFails {daemon : Daemon} (h : paidAtThree.ServedBy fives daemon.client) :
    paidAtThree.ServedBy fives (poolFails daemon).client where
  blocks := h.blocks
  nodup _ h := nomatch h
  byHashes _ _ _ h := nomatch h

/-- The gateway after a second scan that fails before the payment arrives. -/
def failedBefore : Gateway := (firstScanned.scan .exact (poolFails beforePayment)).2

/-- The gateway after a second scan that fails when the payment has arrived. -/
def failedAfter : Gateway := (firstScanned.scan .exact (poolFails afterPayment)).2

/-- A scan that fails, then the payment arrives, and the next scan credits it. -/
theorem failed_scans_lose_nothing_before :
    (firstScanned.scan .exact (poolFails beforePayment)).1 = .error (.txpoolCache .timeout) ∧
    (failedBefore.afterScan afterPayment).invoices.map (·.transfers) = [[⟨5, some 3⟩]] ∧
    ∃ pool, (plainEnv afterPayment).client.txpoolHashes = .ok pool ∧
      ∀ invoice ∈ (failedBefore.afterScan afterPayment).invoices,
        PaymentsExact paidAtThree fives 2 pool [] (failedBefore.afterScan afterPayment) invoice := by
  have hstart : Gateway.start beforePayment.client smallStore 2 none
      = .ok (smallStart beforePayment smallStore) := rfl
  have hfirst : (smallStart beforePayment smallStore).scan .exact (plainEnv beforePayment)
      = (.ok (), firstScanned) := scan_eq_afterScan (by decide +kernel)
  have hlast : failedBefore.scan .exact (plainEnv afterPayment)
      = (.ok (), failedBefore.afterScan afterPayment) := scan_eq_afterScan (by decide +kernel)
  have hstep : RetryStep .exact paidAtThree fives Set.univ
      (smallStart beforePayment smallStore, []) (firstScanned, []) :=
    .scan paidAtThree_before (.of_covers (by decide +kernel) _) (.of_ok hfirst fun _ _ => ⟨rfl, rfl⟩) hfirst
  have hnoBlock : (firstScanned.cache.update (poolFails beforePayment).client).1 = .ok 0 := by
    decide +kernel
  have hfail : RetryStep .exact paidAtThree fives Set.univ (firstScanned, []) (failedBefore, []) :=
    .scan (paidAtThree_poolFails paidAtThree_before) (.of_covers (by decide +kernel) _)
      (.txpoolCache hnoBlock (e := .timeout) (by decide +kernel) (.inr rfl)) (Prod.ext rfl rfl)
  obtain ⟨pool, hpool, hexact⟩ := failed_scans_lose_nothing (by decide) (fun _ => rfl)
    paidAtThree_before rfl (by decide +kernel) hstart (.tail (.single hstep) hfail)
    paidAtThree_after (.of_covers (by decide +kernel) _) (.of_ok hlast fun _ _ => ⟨rfl, rfl⟩) hlast
  have hcreated : ∀ invoice ∈ (failedBefore.afterScan afterPayment).invoices,
      1 ≤ invoice.creationHeight := by decide +kernel
  exact ⟨by decide +kernel, by decide +kernel, pool, hpool, fun invoice hmem =>
    hexact invoice hmem (Set.mem_univ _) (hcreated invoice hmem)⟩

/-- **A failed scan loses a payment**: the block is in the cache, the pool cannot be listed, and the
next scan returns `Ok` without crediting what the block pays. -/
theorem failed_scan_loses_payment :
    (smallStart beforePayment smallStore).scan .exact (plainEnv beforePayment)
      = (.ok (), firstScanned) ∧
    firstScanned.scan .exact (poolFails afterPayment)
      = (.error (.txpoolCache .timeout), failedAfter) ∧
    failedAfter.scan .exact (plainEnv afterPayment)
      = (.ok (), failedAfter.afterScan afterPayment) ∧
    (failedAfter.afterScan afterPayment).invoices.map (·.transfers) = [[]] ∧
    ¬ ∃ pool, (plainEnv afterPayment).client.txpoolHashes = .ok pool ∧
      ∀ invoice ∈ (failedAfter.afterScan afterPayment).invoices,
        PaymentsExact paidAtThree fives 2 pool [] (failedAfter.afterScan afterPayment) invoice := by
  refine ⟨scan_eq_afterScan (by decide +kernel), Prod.ext (by decide +kernel) rfl,
    scan_eq_afterScan (by decide +kernel), by decide +kernel, ?_⟩
  rintro ⟨pool, -, hexact⟩
  have hlost : ¬ ∀ invoice ∈ (failedAfter.afterScan afterPayment).invoices,
      ((invoice.transfersAt (some 3)).map (·.amount)).Perm (if invoice.creationHeight ≤ 3 then
        acceptableAmounts (failedAfter.afterScan afterPayment).keys invoice.index
          (unlockedOutputs (paidAtThree.block 3).transactions) else []) := by
    decide +kernel
  exact hlost fun invoice hmem => ((hexact invoice hmem).inBlocks 3 (by decide +kernel)
    (by decide +kernel)).2

end Gateway

end AcceptXmr
