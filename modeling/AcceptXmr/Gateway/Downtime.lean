import AcceptXmr.Gateway
import Mathlib.Data.Set.Basic
import Mathlib.Logic.Relation

/-! # Runs on one store, with downtime in between

The gateway is started and stopped, or dies, any number of times over one store; invoices are
created and removed at any time between scans. Each run starts at the stored height and then goes up
one block at a time, and its first scan goes over the whole cache.

* **`Service.Step`** — starts, scans, calls and ends of runs, with a record of what has been
  scanned.
* **`no_block_skipped`** — no block is skipped while an invoice is stored, nor from the initial
  height on, unless that is zero. -/

namespace AcceptXmr

/-- `DEFAULT_BLOCK_CACHE_SIZE`. -/
def defaultBlockCacheSize : ℕ := 10

namespace Scanner

/-! ## What a scan passes to `scan_transactions` -/

/-- One turn of the loop of `scan_blocks`: the transactions of the `i`-th cached block are passed to
`scan_transactions`. -/
def scanBlock (env : ScanEnv) (cache : BlockCache) (transfers : List (SubIndex × Transfer)) (i : ℕ) :
    Program (List (SubIndex × Transfer)) := do
  let amountsReceived ← scanTransactions env.checkFails (cachedTransactions cache i) env.checker
  pure (transfers ++ blockTransfers env cache i amountsReceived)

/-- The positions of the cached blocks that the loop goes over, deepest first. -/
def scannedPositions (self : Scanner) (blocksUpdated : ℕ) : List ℕ :=
  (List.range (if self.firstScan then self.blockCache.blocks.length else blocksUpdated)).reverse

theorem scanBlocksFrom_eq_foldlM (env : ScanEnv) (cache : BlockCache) (count : ℕ)
    (transfers : List (SubIndex × Transfer)) :
    scanBlocksFrom env cache count transfers
      = (List.range count).reverse.foldlM (scanBlock env cache) transfers := by
  induction count generalizing transfers with
  | zero => rfl
  | succ i ih =>
      rw [List.range_succ, List.reverse_append, List.reverse_singleton, List.singleton_append,
        List.foldlM_cons, scanBlocksFrom, scanBlock]
      simp only [Resumption.bind_eq, Resumption.pure_eq, Resumption.bind_assoc, ih]
      rfl

/-- **`scan_blocks` passes the blocks at these positions** to `scan_transactions`, and no others. -/
theorem scanBlocks_eq_foldlM (env : ScanEnv) (self : Scanner) (blocksUpdated : ℕ) :
    scanBlocks env self blocksUpdated
      = (self.scannedPositions blocksUpdated).foldlM (scanBlock env self.blockCache) [] :=
  scanBlocksFrom_eq_foldlM _ _ _ _

/-- The heights of the blocks whose transactions a scan passes to `scan_transactions`. -/
def scannedHeights (client : MonerodClient) (self : Scanner) : List ℕ :=
  match self.updateCaches client with
  | (.error _, _) => []
  | (.ok (blocksUpdated, _), self) =>
      (self.scannedPositions blocksUpdated).filterMap fun i =>
        self.blockCache.blocks[i]?.map Block.height

/-- A scan whose caches have been updated goes over these blocks and the pool first. -/
theorem scan_eq_bind {env : ScanEnv} {self mid : Scanner} {blocksUpdated : ℕ}
    {newTransactions : List Transaction}
    (h : self.updateCaches env.client = (.ok (blocksUpdated, newTransactions), mid)) :
    ∃ rest, self.scan env = (Resumption.merge env.schedule
      ((mid.scannedPositions blocksUpdated).foldlM (scanBlock env mid.blockCache) [])
      (scanTxpool env mid.txpoolCache newTransactions)).bind rest := by
  rw [← scanBlocks_eq_foldlM]
  unfold scan
  rw [h]
  exact ⟨_, rfl⟩

/-- The newest blocks are among those that are passed on. -/
theorem mem_scannedHeights {client : MonerodClient} {self mid : Scanner} {blocksUpdated b : ℕ}
    {newTransactions : List Transaction}
    (h : self.updateCaches client = (.ok (blocksUpdated, newTransactions), mid))
    (hb : b ∈ (mid.blockCache.blocks.take
      (if mid.firstScan then mid.blockCache.blocks.length else blocksUpdated)).map Block.height) :
    b ∈ self.scannedHeights client := by
  obtain ⟨block, hmem, rfl⟩ := List.mem_map.mp hb
  obtain ⟨i, hget⟩ := List.mem_iff_getElem?.mp hmem
  rw [List.getElem?_take, Option.ite_none_right_eq_some] at hget
  obtain ⟨hlt, hget⟩ := hget
  simp only [scannedHeights, h, List.mem_filterMap, scannedPositions, List.mem_reverse,
    List.mem_range]
  exact ⟨i, hlt, by rw [hget]; rfl⟩

end Scanner

/-- A store, the scanner that may be running on it, and what has been scanned. -/
structure Service where
  scanner : Option Scanner
  shared : Shared
  /-- `cached_daemon_height`, zero in a new process. -/
  cachedDaemonHeight : ℕ
  /-- What the daemon has last answered to anybody. -/
  daemonHeight : ℕ
  /-- The initial height that the current run was given. -/
  initialHeight : Option ℕ
  /-- The height of the daemon when the current run was started. -/
  startedAt : ℕ
  /-- The heights that have been scanned while an invoice was in the store. -/
  scannedFor : InvoiceId → Set ℕ
  /-- All heights that have been scanned. -/
  scanned : Set ℕ
  /-- Where the first run that has completed a scan was to begin. -/
  beginning : Option ℕ

namespace Service

/-- The stored invoices. -/
abbrev invoices (self : Service) : List Invoice := self.shared.store.invoices

/-- A store before the first run, with what earlier runs have scanned of it. -/
def new (store : Store) (daemonHeight : ℕ) (past : InvoiceId → Set ℕ) : Service where
  scanner := none
  shared := { store := store }
  cachedDaemonHeight := 0
  daemonHeight := daemonHeight
  initialHeight := none
  startedAt := 0
  scannedFor := past
  scanned := ∅
  beginning := none

/-- The height that `new_invoice` gives to a new invoice, if the daemon answers `d`. -/
def creationHeight (self : Service) (d : ℕ) : ℕ :=
  if self.cachedDaemonHeight ≠ 0 then self.cachedDaemonHeight else d

/-- Where the current run was to begin, if nothing had been scanned. -/
def firstHeight (self : Service) : ℕ := min (self.initialHeight.getD self.startedAt) self.startedAt

/-- **The steps of a service.** The heights that the daemon answers do not go down. -/
inductive Step (S : Backend) (n : ℕ) (mayScan : Service → ℕ → Prop) (s : Service) : Service → Prop
  | start {client : MonerodClient} {initialHeight : Option ℕ} {d : ℕ} {g : Gateway}
      (hdown : s.scanner = none) (hd : client.daemonHeight = .ok d) (hlast : s.daemonHeight ≤ d)
      (h : Gateway.start client s.shared.store n initialHeight = .ok g) :
      Step S n mayScan s { s with
        scanner := some g.scanner
        shared := g.shared
        cachedDaemonHeight := d
        daemonHeight := d
        initialHeight := initialHeight
        startedAt := d }
  | scan {env : ScanEnv} {scanner : Scanner} {d : ℕ} {g' : Gateway} (hup : s.scanner = some scanner)
      (hd : env.client.daemonHeight = .ok d) (hlast : s.daemonHeight ≤ d) (hmay : mayScan s d)
      (h : Gateway.scan S env ⟨scanner, s.shared⟩ = (.ok (), g')) :
      Step S n mayScan s { s with
        scanner := some g'.scanner
        shared := g'.shared
        cachedDaemonHeight := d
        daemonHeight := d
        scannedFor := fun id =>
          { b | b ∈ s.scannedFor id ∨
            id ∈ s.shared.store.getIds ∧ b ∈ scanner.scannedHeights env.client }
        scanned := { b | b ∈ s.scanned ∨ b ∈ scanner.scannedHeights env.client }
        beginning := s.beginning.or (some s.firstHeight) }
  | newInvoice {address description : String} {index : SubIndex}
      {d amountRequested confirmationsRequired expirationIn : ℕ} {invoice : Invoice} {store : Store}
      (hlast : s.daemonHeight ≤ d)
      (hinvoice : invoice = Invoice.new address index (s.creationHeight d) amountRequested
        confirmationsRequired expirationIn description)
      (h : s.shared.store.insertInvoice invoice = .ok store) :
      Step S n mayScan s { s with
        shared := { s.shared with store := store }
        daemonHeight := if s.cachedDaemonHeight ≠ 0 then s.daemonHeight else d
        scannedFor := Function.update s.scannedFor invoice.id ∅ }
  | removeInvoice (id : InvoiceId) :
      Step S n mayScan s { s with
        shared := { s.shared with store := s.shared.store.removeInvoice id } }
  | stop : Step S n mayScan s { s with scanner := none }
  /-- The process ends, and a new one has no daemon height yet. -/
  | die : Step S n mayScan s { s with scanner := none, cachedDaemonHeight := 0 }

/-- The states of a service over time. -/
def Reaches (S : Backend) (n : ℕ) (mayScan : Service → ℕ → Prop) (s s' : Service) : Prop :=
  Relation.ReflTransGen (Step S n mayScan) s s'

/-! ## What a scan adds -/

/-- A scan that succeeds records the height of the cache. -/
theorem height_of_scan {S : Backend} {env : ScanEnv} {g g' : Gateway}
    (h : g.scan S env = (.ok (), g')) : g'.shared.store.height = some g'.cache.height := by
  unfold Gateway.scan at h
  split at h
  · rename_i result scanner shared hrun
    obtain ⟨rfl, rfl⟩ := Prod.mk.inj h
    cases Scanner.scan_run hrun with
    | finished hcaches hscanned hfinish =>
        obtain ⟨-, -, e, hres⟩ | ⟨-, hsaved, hok⟩ := Scanner.run_finishScan hfinish
        · cases hres
        · rw [hsaved.height, if_pos (hok.mp rfl).1]
  · cases h

/-- **What a scan adds**: the cache goes up by at most one block, and the new block is scanned; a
first scan goes over all cached blocks. -/
structure Adds (n d : ℕ) (scanner scanner' : Scanner) (heights : List ℕ) : Prop where
  placed : scanner'.blockCache.Placed n
  firstScan : scanner'.firstScan = false
  height : d - 1 ≤ scanner.blockCache.height ∧
      scanner'.blockCache.height = scanner.blockCache.height ∨
    scanner.blockCache.height < d - 1 ∧
      scanner'.blockCache.height = scanner.blockCache.height + 1
  top : scanner'.blockCache.height = scanner.blockCache.height ∨
    scanner'.blockCache.height ∈ heights
  window : scanner.firstScan = true → ∀ b, scanner'.blockCache.height < b + n →
    b ≤ scanner'.blockCache.height → b ∈ heights

theorem scan_adds {S : Backend} {env : ScanEnv} {n d : ℕ} {scanner : Scanner} {shared : Shared}
    {g' : Gateway} (hn : 1 ≤ n) (hplaced : scanner.blockCache.Placed n)
    (hd : env.client.daemonHeight = .ok d)
    (h : Gateway.scan S env ⟨scanner, shared⟩ = (.ok (), g')) :
    Adds n d scanner g'.scanner (scanner.scannedHeights env.client) := by
  obtain ⟨t, hs⟩ := Gateway.scan_ok h
  obtain ⟨hplaced', -, hheight⟩ := BlockCache.update_placed hn hplaced hd hs.blockCache
  have hcaches : scanner.updateCaches env.client = (.ok (t.blocksUpdated, t.newTransactions),
      ⟨g'.cache, t.txpoolCache, scanner.firstScan⟩) := by
    have hblock := hs.blockCache
    have htxpool := hs.txpoolCache
    simp only at hblock htxpool
    simp only [Scanner.updateCaches, hblock, htxpool]
  refine ⟨hplaced', hs.firstScan, ?_, ?_, ?_⟩
  · exact hheight.imp id fun hup => ⟨hup.1, hup.2.1⟩
  · rcases hheight with ⟨-, hsame⟩ | ⟨-, hup, hcount⟩
    · exact .inl hsame
    · -- A cache that has gone up reports its top block at least.
      refine .inr (Scanner.mem_scannedHeights hcaches
      (hplaced'.mem_take ?_ (Nat.lt_add_of_pos_right hn) le_rfl))
      split
      · rw [hplaced'.length]
        exact Nat.lt_add_of_pos_right hn
      · exact Nat.lt_add_of_pos_right hcount
  · intro hfirst b hwindow hb
    refine Scanner.mem_scannedHeights hcaches (hplaced'.mem_take ?_ hwindow hb)
    rwa [if_pos hfirst, hplaced'.length]

/-- A scan keeps the ids of the stored invoices. -/
theorem getIds_of_scan {S : Backend} {env : ScanEnv} {g g' : Gateway}
    (h : g.scan S env = (.ok (), g')) : g'.shared.store.getIds = g.shared.store.getIds := by
  obtain ⟨t, hs⟩ := Gateway.scan_ok h
  have hgrows := hs.grows.invoices
  simp only at hgrows
  rw [Store.getIds, hs.saved.invoices, hgrows]
  exact Store.map_id_map (Scanner.savedInvoice_id _ _ _ _) _

/-! ## What has been scanned for an invoice -/

/-- **What earlier runs leave behind.** A stored height is below the height of the daemon, and what
the store says of its invoices has been scanned: up to the stored height, or below the height of the
invoice if there is none. -/
structure Inherits (n : ℕ) (store : Store) (daemonHeight : ℕ) (past : InvoiceId → Set ℕ) : Prop where
  size : n ≤ daemonHeight
  height : ∀ h, store.height = some h → h < daemonHeight
  created : ∀ invoice ∈ store.invoices, n ≤ invoice.creationHeight
  upToHeight : ∀ invoice ∈ store.invoices, ∀ h, store.height = some h →
    ∀ b, invoice.creationHeight ≤ b → b ≤ h → b ∈ past invoice.id
  belowCurrent : ∀ invoice ∈ store.invoices, store.height = none →
    ∀ b, invoice.creationHeight ≤ b → b < invoice.currentHeight → b ∈ past invoice.id

/-- A store without invoices and height inherits nothing. -/
theorem Inherits.of_empty {n : ℕ} {store : Store} {daemonHeight : ℕ} {past : InvoiceId → Set ℕ}
    (hsize : n ≤ daemonHeight) (hheight : store.height = none) (hinvoices : store.invoices = []) :
    Inherits n store daemonHeight past := by
  constructor <;> simp [hsize, hheight, hinvoices]

/-- **The invariant of a service.** -/
structure Covered (n : ℕ) (s : Service) : Prop where
  inherits : Inherits n s.shared.store s.daemonHeight s.scannedFor
  /-- A new invoice is created above everything that has been scanned. -/
  cached : s.cachedDaemonHeight ≠ 0 → n ≤ s.cachedDaemonHeight ∧
    s.cachedDaemonHeight ≤ s.daemonHeight ∧
    (∀ h, s.shared.store.height = some h → h < s.cachedDaemonHeight)
  placed : ∀ scanner, s.scanner = some scanner → scanner.blockCache.Placed n
  below : ∀ scanner, s.scanner = some scanner →
    scanner.blockCache.height < s.cachedDaemonHeight
  upToCache : ∀ scanner, s.scanner = some scanner → ∀ invoice ∈ s.invoices,
    ∀ b, invoice.creationHeight ≤ b → b ≤ scanner.blockCache.height → b ∈ s.scannedFor invoice.id

/-- Above the smallest cache, a run starts below what the store says has been scanned. -/
theorem startHeight_lt {store : Store} {n d b : ℕ} {initialHeight : Option ℕ} {invoice : Invoice}
    (hn : 1 ≤ n) (hmem : invoice ∈ store.invoices) (hsize : n ≤ b)
    (hb : b ≤ Scanner.startHeight store n initialHeight d) :
    (∃ h, store.height = some h ∧ b < h) ∨ store.height = none ∧ b < invoice.currentHeight := by
  unfold Scanner.startHeight Scanner.lastHeight at hb
  cases hheight : store.height with
  | some h =>
      refine .inl ⟨h, rfl, ?_⟩
      simp only [hheight, Option.some_or, Option.getD_some] at hb
      omega
  | none =>
      obtain ⟨l, hlowest, hle⟩ := Store.lowestHeight_le hmem
      refine .inr ⟨rfl, ?_⟩
      simp only [hheight, hlowest, Option.some_or, Option.getD_some] at hb
      omega

section Steps

variable {S : Backend} {n d : ℕ} {s : Service}

/-- A run starts on the store as it is, with a full cache at the start height. -/
theorem start_placed {client : MonerodClient} {store : Store} {initialHeight : Option ℕ}
    {g : Gateway} (hd : client.daemonHeight = .ok d)
    (h : Gateway.start client store n initialHeight = .ok g) :
    g.shared.store = store ∧ g.scanner.firstScan = true ∧ g.cache.Placed n ∧
      g.cache.height = Scanner.startHeight store n initialHeight d := by
  obtain ⟨d', hstarted⟩ := Gateway.start_ok h
  obtain rfl : d' = d := by
    have hd' := hstarted.daemonHeight
    rw [hd] at hd'
    exact (Except.ok.inj hd').symm
  -- The start height leaves room for a whole cache, whatever the store says.
  have hdeep : n ≤ Scanner.startHeight store n initialHeight d' + 1 := by
    unfold Scanner.startHeight
    omega
  obtain ⟨hplaced, hheight, -⟩ := BlockCache.init_placed hdeep hstarted.blockCache
  exact ⟨by rw [hstarted.shared], hstarted.firstScan, hplaced, hheight⟩

/-- A run starts below everything that has been scanned. -/
theorem Covered.start (hn : 1 ≤ n) (hc : Covered n s) {client : MonerodClient}
    {initialHeight : Option ℕ} {g : Gateway} (hd : client.daemonHeight = .ok d)
    (hlast : s.daemonHeight ≤ d)
    (h : Gateway.start client s.shared.store n initialHeight = .ok g) :
    Covered n { s with
      scanner := some g.scanner
      shared := g.shared
      cachedDaemonHeight := d
      daemonHeight := d
      initialHeight := initialHeight
      startedAt := d } := by
  have hsize := hc.inherits.size
  obtain ⟨hstore, -, hplaced, hheight⟩ := start_placed hd h
  have hbelow : g.cache.height < d := by
    rw [hheight]
    unfold Scanner.startHeight
    omega
  have hstored : ∀ h, s.shared.store.height = some h → h < d :=
    fun h hh => (hc.inherits.height h hh).trans_le hlast
  -- What is kept over a downtime stays; the rest is about the new scanner and where it begins.
  refine ⟨?_, ?_, ?_, ?_, ?_⟩
  · rw [hstore]
    exact ⟨hsize.trans hlast, hstored, hc.inherits.created, hc.inherits.upToHeight,
      hc.inherits.belowCurrent⟩
  · rw [hstore]
    exact fun _ => ⟨hsize.trans hlast, le_rfl, hstored⟩
  · rintro _ ⟨⟩
    exact hplaced
  · rintro _ ⟨⟩
    exact hbelow
  · -- The run starts at the stored height, or at the lowest of the invoices.
    rintro _ ⟨⟩ invoice hmem b hcreated hb
    rw [invoices, hstore] at hmem
    rw [← Gateway.cache, hheight] at hb
    obtain ⟨h, hh, hlt⟩ | ⟨hnone, hlt⟩ :=
      startHeight_lt hn hmem ((hc.inherits.created invoice hmem).trans hcreated) hb
    · exact hc.inherits.upToHeight invoice hmem h hh b hcreated hlt.le
    · exact hc.inherits.belowCurrent invoice hmem hnone b hcreated hlt

/-- A stored invoice was stored under the same id before the scan. -/
theorem exists_of_getIds {before after : Store} (h : after.getIds = before.getIds)
    {invoice : Invoice} (hmem : invoice ∈ after.invoices) :
    ∃ old ∈ before.invoices, old.id = invoice.id := by
  have hid : invoice.id ∈ after.getIds := List.mem_map_of_mem hmem
  rw [h] at hid
  exact List.mem_map.mp hid

/-- A scan leaves no gap below the height of the cache. -/
theorem Covered.scan (hn : 1 ≤ n) (hc : Covered n s) {env : ScanEnv} {scanner : Scanner}
    {g' : Gateway} {s' : Service} (hup : s.scanner = some scanner)
    (hd : env.client.daemonHeight = .ok d) (hlast : s.daemonHeight ≤ d)
    (h : Gateway.scan S env ⟨scanner, s.shared⟩ = (.ok (), g'))
    (hscanner : s'.scanner = some g'.scanner) (hshared : s'.shared = g'.shared)
    (hcached : s'.cachedDaemonHeight = d) (hdaemon : s'.daemonHeight = d)
    (hfor : ∀ id b, b ∈ s'.scannedFor id ↔ b ∈ s.scannedFor id ∨
      id ∈ s.shared.store.getIds ∧ b ∈ scanner.scannedHeights env.client) : Covered n s' := by
  have hadds := scan_adds hn (hc.placed scanner hup) hd h
  have hstored : g'.shared.store.height = some g'.scanner.blockCache.height := height_of_scan h
  have hcache := hc.below scanner hup
  have hcachedBefore := hc.cached (by omega)
  have hbelow : g'.scanner.blockCache.height < d := by
    have := hadds.height
    omega
  have hsize := hc.inherits.size.trans hlast
  -- The block at the top is new or was at the top before.
  have hcovered : ∀ invoice ∈ g'.invoices, ∀ b, invoice.creationHeight ≤ b →
      b ≤ g'.scanner.blockCache.height → b ∈ s'.scannedFor invoice.id := by
    intro invoice hmem b hcreated hb
    obtain ⟨old, hold, hid⟩ := exists_of_getIds (getIds_of_scan h) hmem
    rw [hfor, ← hid]
    by_cases hdeep : b ≤ scanner.blockCache.height
    · have hheight : old.creationHeight = invoice.creationHeight := congrArg (·.creationHeight) hid
      exact .inl (hc.upToCache scanner hup old hold b (hheight.trans_le hcreated) hdeep)
    · obtain rfl : b = g'.scanner.blockCache.height := by
        have := hadds.height
        omega
      exact .inr ⟨List.mem_map_of_mem hold, hadds.top.resolve_left (by omega)⟩
  refine ⟨⟨?_, ?_, ?_, ?_, ?_⟩, ?_, ?_, ?_, ?_⟩
  · rwa [hdaemon]
  · rw [hshared, hdaemon, hstored]
    rintro _ ⟨⟩
    exact hbelow
  · intro invoice hmem
    rw [hshared] at hmem
    obtain ⟨old, hold, hid⟩ := exists_of_getIds (getIds_of_scan h) hmem
    have hheight : old.creationHeight = invoice.creationHeight := congrArg (·.creationHeight) hid
    exact hheight ▸ hc.inherits.created old hold
  · rw [hshared, hstored]
    rintro invoice hmem _ ⟨⟩
    exact hcovered invoice hmem
  · rw [hshared, hstored]
    rintro invoice hmem ⟨⟩
  · rw [hcached, hdaemon, hshared, hstored]
    refine fun _ => ⟨hsize, le_rfl, ?_⟩
    rintro _ ⟨⟩
    exact hbelow
  · rw [hscanner]
    rintro _ ⟨⟩
    exact hadds.placed
  · rw [hscanner, hcached]
    rintro _ ⟨⟩
    exact hbelow
  · rw [hscanner]
    rintro _ ⟨⟩ invoice hmem
    rw [invoices, hshared] at hmem
    exact hcovered invoice hmem

/-- A new invoice is created above what has been scanned. -/
theorem Covered.creationHeight (hc : Covered n s) (hlast : s.daemonHeight ≤ d) :
    n ≤ s.creationHeight d ∧ (∀ h, s.shared.store.height = some h → h < s.creationHeight d) ∧
      ∀ scanner, s.scanner = some scanner → scanner.blockCache.height < s.creationHeight d := by
  unfold Service.creationHeight
  by_cases hcached : s.cachedDaemonHeight = 0
  · rw [if_neg (not_not.mpr hcached)]
    refine ⟨hc.inherits.size.trans hlast, fun h hh => (hc.inherits.height h hh).trans_le hlast, ?_⟩
    intro scanner hup
    have hbelow := hc.below scanner hup
    omega
  · rw [if_pos hcached]
    exact ⟨(hc.cached hcached).1, (hc.cached hcached).2.2, hc.below⟩

theorem Covered.newInvoice (hc : Covered n s) {address description : String} {index : SubIndex}
    {amountRequested confirmationsRequired expirationIn : ℕ} {invoice : Invoice} {store : Store}
    (hlast : s.daemonHeight ≤ d)
    (hinvoice : invoice = Invoice.new address index (s.creationHeight d) amountRequested
      confirmationsRequired expirationIn description)
    (h : s.shared.store.insertInvoice invoice = .ok store) :
    Covered n { s with
      shared := { s.shared with store := store }
      daemonHeight := if s.cachedDaemonHeight ≠ 0 then s.daemonHeight else d
      scannedFor := Function.update s.scannedFor invoice.id ∅ } := by
  obtain ⟨hfresh, hinvoices⟩ := Store.insertInvoice_ok h
  have hheight := Store.height_insertInvoice h
  obtain ⟨hsize, hstored, hbelow⟩ := hc.creationHeight hlast
  have hdaemon : s.daemonHeight ≤ if s.cachedDaemonHeight ≠ 0 then s.daemonHeight else d := by
    split
    · exact le_rfl
    · exact hlast
  -- The other invoices are under other ids.
  have hmem : ∀ i ∈ store.invoices, i = invoice ∨
      i ∈ s.invoices ∧
        ∀ b ∈ s.scannedFor i.id, b ∈ Function.update s.scannedFor invoice.id ∅ i.id := by
    intro i hi
    rw [hinvoices, List.mem_append, List.mem_singleton] at hi
    refine hi.symm.imp_right fun hi => ⟨hi, fun b hb => ?_⟩
    rwa [Function.update_of_ne]
    intro heq
    exact hfresh (heq ▸ List.mem_map_of_mem hi)
  have hcreation : invoice.creationHeight = s.creationHeight d := by rw [hinvoice]; rfl
  have hcurrent : invoice.currentHeight = 0 := by rw [hinvoice]; rfl
  refine ⟨⟨hc.inherits.size.trans hdaemon, ?_, ?_, ?_, ?_⟩, ?_, hc.placed, hc.below, ?_⟩
  · intro h' hh'
    exact (hc.inherits.height h' (hheight ▸ hh')).trans_le hdaemon
  · intro i hi
    rcases hmem i hi with rfl | ⟨hi, -⟩
    · exact hcreation ▸ hsize
    · exact hc.inherits.created i hi
  · intro i hi h' hh' b hcreated hb
    rw [hheight] at hh'
    rcases hmem i hi with rfl | ⟨hi, hkept⟩
    · have hlt := hstored h' hh'
      omega
    · exact hkept b (hc.inherits.upToHeight i hi h' hh' b hcreated hb)
  · intro i hi hnone b hcreated hb
    rw [hheight] at hnone
    rcases hmem i hi with rfl | ⟨hi, hkept⟩
    · omega
    · exact hkept b (hc.inherits.belowCurrent i hi hnone b hcreated hb)
  · intro hcached
    obtain ⟨hn, hle, hlt⟩ := hc.cached hcached
    exact ⟨hn, hle.trans hdaemon, fun h' hh' => hlt h' (hheight ▸ hh')⟩
  · intro scanner hup i hi b hcreated hb
    rcases hmem i hi with rfl | ⟨hi, hkept⟩
    · have hlt := hbelow scanner hup
      omega
    · exact hkept b (hc.upToCache scanner hup i hi b hcreated hb)

/-- A run ends. -/
theorem Covered.ended (hc : Covered n s) {cached : ℕ}
    (hcached : cached = s.cachedDaemonHeight ∨ cached = 0) :
    Covered n { s with scanner := none, cachedDaemonHeight := cached } := by
  refine ⟨hc.inherits, fun hne => ?_, ?_, ?_, ?_⟩
  · obtain rfl := hcached.resolve_right hne
    exact hc.cached hne
  all_goals
    rintro _ ⟨⟩

/-- **Every step** keeps the invariant. -/
theorem Covered.step {mayScan : Service → ℕ → Prop} {s' : Service} (hn : 1 ≤ n)
    (hc : Covered n s) (h : Step S n mayScan s s') : Covered n s' := by
  cases h with
  | start hdown hd hlast h => exact hc.start hn hd hlast h
  | scan hup hd hlast hmay h =>
      exact hc.scan hn hup hd hlast h rfl rfl rfl rfl fun id b => Iff.rfl
  | newInvoice hlast hinvoice h => exact hc.newInvoice hlast hinvoice h
  | removeInvoice id =>
      have hsub : ∀ i ∈ (s.shared.store.removeInvoice id).invoices, i ∈ s.invoices :=
        fun i hi => List.mem_of_mem_filter hi
      refine ⟨⟨hc.inherits.size, hc.inherits.height, ?_, ?_, ?_⟩, hc.cached, hc.placed, hc.below, ?_⟩
      · exact fun i hi => hc.inherits.created i (hsub i hi)
      · exact fun i hi => hc.inherits.upToHeight i (hsub i hi)
      · exact fun i hi => hc.inherits.belowCurrent i (hsub i hi)
      · exact fun scanner hup i hi => hc.upToCache scanner hup i (hsub i hi)
  | stop => exact hc.ended (.inl rfl)
  | die => exact hc.ended (.inr rfl)

/-- A service before its first run. -/
theorem Covered.new {store : Store} {daemonHeight : ℕ} {past : InvoiceId → Set ℕ}
    (h : Inherits n store daemonHeight past) : Covered n (Service.new store daemonHeight past) := by
  refine ⟨h, fun hne => absurd rfl hne, ?_, ?_, ?_⟩
  all_goals
    rintro _ ⟨⟩

/-! ## What has been scanned from the beginning -/

/-- **Whether a scan keeps the first block.** A run that is to begin with it starts with it in the
cache, but a cache that goes up has dropped it before the first scan. -/
def KeepsFirst (n : ℕ) (s : Service) (d : ℕ) : Prop :=
  s.shared.store.height = none → s.initialHeight = some 0 → d ≤ n

/-- **The invariant of a service on a new store.** -/
structure Begun (n : ℕ) (s : Service) : Prop where
  /-- Before a scan has been completed, no height is stored and the invoices have not been scanned
  for. -/
  unscanned : s.beginning = none → s.shared.store.height = none ∧
    ∀ invoice ∈ s.invoices, invoice.currentHeight = 0
  /-- A run starts at the smallest cache, or at the height where it was to begin. -/
  starting : s.beginning = none → ∀ scanner, s.scanner = some scanner →
    scanner.firstScan = true ∧ n ≤ s.startedAt ∧
      (scanner.blockCache.height + 1 = n ∨ scanner.blockCache.height + 1 = max s.firstHeight n)
  upToHeight : ∀ m, s.beginning = some m → ∃ h, s.shared.store.height = some h ∧ n ≤ h + 1 ∧
    ∀ b, m ≤ b → b ≤ h → b ∈ s.scanned
  upToCache : ∀ m, s.beginning = some m → ∀ scanner, s.scanner = some scanner →
    ∀ b, m ≤ b → b ≤ scanner.blockCache.height → b ∈ s.scanned

theorem Begun.start (hn : 1 ≤ n) (hc : Covered n s) (hb : Begun n s) {client : MonerodClient}
    {initialHeight : Option ℕ} {g : Gateway} (hd : client.daemonHeight = .ok d)
    (hlast : s.daemonHeight ≤ d)
    (h : Gateway.start client s.shared.store n initialHeight = .ok g) :
    Begun n { s with
      scanner := some g.scanner
      shared := g.shared
      cachedDaemonHeight := d
      daemonHeight := d
      initialHeight := initialHeight
      startedAt := d } := by
  have hsize := hc.inherits.size
  obtain ⟨hstore, hfirst, -, hheight⟩ := start_placed hd h
  refine ⟨?_, ?_, ?_, ?_⟩
  · rw [invoices, hstore]
    exact hb.unscanned
  · rintro hnone _ ⟨⟩
    refine ⟨hfirst, hsize.trans hlast, ?_⟩
    obtain ⟨hnoheight, hzero⟩ := hb.unscanned hnone
    rw [← Gateway.cache, hheight]
    simp only [Scanner.startHeight, Scanner.lastHeight, hnoheight, firstHeight]
    -- An invoice that has not been scanned for makes the run start from the smallest cache.
    cases hinvoices : s.shared.store.invoices with
    | nil =>
        have hlowest : s.shared.store.lowestHeight = none := by
          rw [Store.lowestHeight, hinvoices]
          rfl
        simp only [hlowest, Option.none_or]
        omega
    | cons invoice rest =>
        have hmem : invoice ∈ s.shared.store.invoices := by
          rw [hinvoices]
          exact List.mem_cons_self
        obtain ⟨l, hlowest, hle⟩ := Store.lowestHeight_le hmem
        rw [hzero invoice hmem] at hle
        simp only [hlowest, Option.some_or, Option.getD_some]
        omega
  · rw [hstore]
    exact hb.upToHeight
  · rintro m hm _ ⟨⟩ b hmb hle
    obtain ⟨h, hh, hlarge, hall⟩ := hb.upToHeight m hm
    have hlt := hc.inherits.height h hh
    refine hall b hmb ?_
    rw [← Gateway.cache, hheight] at hle
    simp only [Scanner.startHeight, Scanner.lastHeight, hh, Option.some_or, Option.getD_some] at hle
    omega

/-- The first scan of all goes over every block from the beginning on. -/
theorem Begun.first_scan (hn : 1 ≤ n) (hb : Begun n s) {scanner scanner' : Scanner}
    {heights : List ℕ} (hnone : s.beginning = none) (hup : s.scanner = some scanner)
    (hkeeps : KeepsFirst n s d) (hadds : Adds n d scanner scanner' heights) {b : ℕ}
    (hbegin : s.firstHeight ≤ b) (hle : b ≤ scanner'.blockCache.height) : b ∈ heights := by
  obtain ⟨hfirst, hstarted, hheight⟩ := hb.starting hnone scanner hup
  refine hadds.window hfirst b ?_ hle
  have hup := hadds.height
  -- Only the very first block could have been dropped.
  by_cases hzero : s.firstHeight = 0
  · have hinitial : s.initialHeight = some 0 := by
      unfold firstHeight at hzero
      cases hi : s.initialHeight with
      | none =>
          simp only [hi, Option.getD_none] at hzero
          omega
      | some i =>
          simp only [hi, Option.getD_some] at hzero
          rw [show i = 0 by omega]
    have hd := hkeeps (hb.unscanned hnone).1 hinitial
    omega
  · omega

theorem Begun.scan (hn : 1 ≤ n) (hc : Covered n s) (hb : Begun n s) {env : ScanEnv}
    {scanner : Scanner} {g' : Gateway} {s' : Service} (hup : s.scanner = some scanner)
    (hd : env.client.daemonHeight = .ok d) (hkeeps : KeepsFirst n s d)
    (h : Gateway.scan S env ⟨scanner, s.shared⟩ = (.ok (), g'))
    (hscanner : s'.scanner = some g'.scanner) (hshared : s'.shared = g'.shared)
    (hscanned : ∀ b, b ∈ s'.scanned ↔ b ∈ s.scanned ∨ b ∈ scanner.scannedHeights env.client)
    (hbeginning : s'.beginning = s.beginning.or (some s.firstHeight)) : Begun n s' := by
  have hadds := scan_adds hn (hc.placed scanner hup) hd h
  have hstored : g'.shared.store.height = some g'.scanner.blockCache.height := height_of_scan h
  have hall : ∀ m, s'.beginning = some m → ∀ b, m ≤ b → b ≤ g'.scanner.blockCache.height →
      b ∈ s'.scanned := by
    intro m hm b hmb hle
    rw [hscanned]
    cases hbefore : s.beginning with
    | none =>
        rw [hbeginning, hbefore] at hm
        cases hm
        exact .inr (hb.first_scan hn hbefore hup hkeeps hadds hmb hle)
    | some m' =>
        rw [hbeginning, hbefore] at hm
        cases hm
        -- Only the top block can be above the cache of before.
        by_cases hdeep : b ≤ scanner.blockCache.height
        · exact .inl (hb.upToCache _ hbefore scanner hup b hmb hdeep)
        · obtain rfl : b = g'.scanner.blockCache.height := by
            have := hadds.height
            omega
          exact .inr (hadds.top.resolve_left (by omega))
  have hsome : s'.beginning ≠ none := by
    rw [hbeginning]
    cases s.beginning <;> simp
  refine ⟨fun hnone => absurd hnone hsome, fun hnone => absurd hnone hsome, ?_, ?_⟩
  · intro m hm
    rw [hshared]
    exact ⟨_, hstored, hadds.placed.height, hall m hm⟩
  · rintro m hm _ hcurrent
    rw [hscanner] at hcurrent
    cases hcurrent
    exact hall m hm

/-- **Every step** that keeps the first block keeps the invariant. -/
theorem Begun.step {s' : Service} (hn : 1 ≤ n) (hc : Covered n s) (hb : Begun n s)
    (h : Step S n (KeepsFirst n) s s') : Begun n s' := by
  cases h with
  | start hdown hd hlast h => exact hb.start hn hc hd hlast h
  | scan hup hd hlast hmay h =>
      exact hb.scan hn hc hup hd hmay h rfl rfl (fun b => Iff.rfl) rfl
  | @newInvoice _ _ _ _ _ _ _ invoice store hlast hinvoice h =>
      have hheight : store.height = s.shared.store.height := Store.height_insertInvoice h
      refine ⟨fun hnone => ?_, hb.starting, fun m hm => ?_, hb.upToCache⟩
      · obtain ⟨hnoheight, hzero⟩ := hb.unscanned hnone
        refine ⟨hheight.trans hnoheight, fun i hi => ?_⟩
        rw [invoices, (Store.insertInvoice_ok h).2, List.mem_append, List.mem_singleton] at hi
        rcases hi with hi | rfl
        · exact hzero i hi
        · rw [hinvoice]
          rfl
      · obtain ⟨h', hh', hrest⟩ := hb.upToHeight m hm
        exact ⟨h', hheight.trans hh', hrest⟩
  | removeInvoice id =>
      refine ⟨fun hnone => ⟨(hb.unscanned hnone).1, fun i hi => ?_⟩, hb.starting, hb.upToHeight,
        hb.upToCache⟩
      exact (hb.unscanned hnone).2 i (List.mem_of_mem_filter hi)
  | stop | die =>
      refine ⟨hb.unscanned, ?_, hb.upToHeight, ?_⟩
      · rintro _ _ ⟨⟩
      · rintro _ _ _ ⟨⟩

/-- A service on a new store. -/
theorem Begun.new {store : Store} {daemonHeight : ℕ} {past : InvoiceId → Set ℕ}
    (hheight : store.height = none) (hinvoices : store.invoices = []) :
    Begun n (Service.new store daemonHeight past) := by
  refine ⟨fun _ => ⟨hheight, ?_⟩, ?_, ?_, ?_⟩
  · intro invoice hmem
    rw [invoices, Service.new, hinvoices] at hmem
    cases hmem
  · rintro _ _ ⟨⟩
  · rintro _ ⟨⟩
  · rintro _ ⟨⟩

/-- What holds in every state. -/
theorem Covered.run {mayScan : Service → ℕ → Prop} {s' : Service} (hn : 1 ≤ n) (hc : Covered n s)
    (h : Reaches S n mayScan s s') : Covered n s' := by
  induction h with
  | refl => exact hc
  | tail _ hlast ih => exact ih.step hn hlast

theorem Begun.run {s' : Service} (hn : 1 ≤ n) (hc : Covered n s) (hb : Begun n s)
    (h : Reaches S n (KeepsFirst n) s s') : Begun n s' := by
  induction h with
  | refl => exact hb
  | tail hfront hlast ih => exact ih.step hn (hc.run hn hfront) hlast

/-- **No block is skipped.** What counts as scanned are the blocks that a scan passes to
`scan_transactions` one after the other. In every run, all heights from the creation of a stored
invoice to the height of the cache have been scanned while it was stored. On a new store, all heights
from where the first run that completed a scan was to begin have been scanned, as long as no first
scan drops the first block. -/
theorem no_block_skipped (hn : 1 ≤ n) {store : Store} {daemonHeight : ℕ}
    {past : InvoiceId → Set ℕ} (hpast : Inherits n store daemonHeight past) :
    (∀ (env : ScanEnv) (scanner mid : Scanner) (blocksUpdated : ℕ)
      (newTransactions : List Transaction),
      scanner.updateCaches env.client = (.ok (blocksUpdated, newTransactions), mid) →
      scanner.scannedHeights env.client = (mid.scannedPositions blocksUpdated).filterMap
          (fun i => mid.blockCache.blocks[i]?.map Block.height) ∧
        ∃ rest, scanner.scan env = (Resumption.merge env.schedule
          ((mid.scannedPositions blocksUpdated).foldlM (Scanner.scanBlock env mid.blockCache) [])
          (Scanner.scanTxpool env mid.txpoolCache newTransactions)).bind rest) ∧
    (∀ mayScan s scanner, Reaches S n mayScan (Service.new store daemonHeight past) s →
      s.scanner = some scanner → ∀ invoice ∈ s.invoices, ∀ b, invoice.creationHeight ≤ b →
        b ≤ scanner.blockCache.height → b ∈ s.scannedFor invoice.id) ∧
    (store.height = none → store.invoices = [] → ∀ s scanner,
      Reaches S n (KeepsFirst n) (Service.new store daemonHeight past) s →
      s.scanner = some scanner → ∀ m, s.beginning = some m →
        ∀ b, m ≤ b → b ≤ scanner.blockCache.height → b ∈ s.scanned) := by
  have hnew := Covered.new hpast
  refine ⟨fun env scanner mid blocksUpdated newTransactions h => ⟨?_, Scanner.scan_eq_bind h⟩,
    fun mayScan s scanner h hup => (hnew.run hn h).upToCache scanner hup, ?_⟩
  · rw [Scanner.scannedHeights, h]
  intro hheight hinvoices s scanner h hup m hm
  have hbegun := (Begun.new hheight hinvoices).run hn hnew h
  exact hbegun.upToCache m hm scanner hup

end Steps

/-- A chain of empty blocks. -/
def emptyChain (length : ℕ) : Daemon where
  chain := (List.range length).map fun i => (BitVec.ofNat 256 (i + 1), [])
  pool := []

/-- A scan of an empty chain. -/
def emptyScan (length : ℕ) : ScanEnv where
  client := (emptyChain length).client
  checker := ⟨(0, 1), (0, 2)⟩

/-- An invoice is created, the process dies, and two blocks are found before the next run. -/
theorem no_block_skipped_downtime :
    ∃ s scanner invoice, Reaches .exact 2 (KeepsFirst 2) (Service.new .empty 3 fun _ => ∅) s ∧
      s.scanner = some scanner ∧ scanner.blockCache.height = 4 ∧
      invoice ∈ s.invoices ∧ invoice.creationHeight = 3 ∧
      ∀ b, 3 ≤ b → b ≤ 4 → b ∈ s.scannedFor invoice.id := by
  have hstart : Step .exact 2 (KeepsFirst 2) (Service.new .empty 3 fun _ => ∅) _ :=
    .start rfl (show (emptyChain 3).client.daemonHeight = .ok 3 from rfl) le_rfl
      (show Gateway.start (emptyChain 3).client .empty 2 none = .ok _ from rfl)
  have hcreate := Relation.ReflTransGen.tail (.single hstart)
    (@Step.newInvoice .exact 2 (KeepsFirst 2) _ "" "" ⟨0, 1⟩ 3 10 1 100 _ _ le_rfl rfl rfl)
  have hrestart := (hcreate.tail .die).tail
    (@Step.start .exact 2 (KeepsFirst 2) _ (emptyChain 5).client none 5 _ rfl rfl (by decide) rfl)
  have hsecond := hrestart.tail (@Step.scan .exact 2 (KeepsFirst 2) _ (emptyScan 5) _ 5 _ rfl rfl
    le_rfl (by simp [KeepsFirst]) rfl)
  have hthird := hsecond.tail (@Step.scan .exact 2 (KeepsFirst 2) _ (emptyScan 5) _ 5 _ rfl rfl
    le_rfl (by simp [KeepsFirst]) rfl)
  have hfourth := hthird.tail (@Step.scan .exact 2 (KeepsFirst 2) _ (emptyScan 5) _ 5 _ rfl rfl
    le_rfl (by simp [KeepsFirst]) rfl)
  have hpast : Inherits 2 .empty 3 fun _ => ∅ := .of_empty (by decide) rfl rfl
  refine ⟨_, _, _, hfourth, rfl, rfl, List.mem_cons_self, rfl, ?_⟩
  exact (no_block_skipped (by decide) hpast).2.1 _ _ _ hfourth rfl _ List.mem_cons_self

/-- **The first block is skipped**: a gateway is to begin with it, and starts over a daemon that has
one block more than the cache holds. -/
theorem first_block_skipped :
    ∃ s scanner, Reaches .exact defaultBlockCacheSize (fun _ _ => True)
        (Service.new .empty 11 fun _ => ∅) s ∧
      s.scanner = some scanner ∧ s.beginning = some 0 ∧ 0 ≤ scanner.blockCache.height ∧
      0 ∉ s.scanned := by
  have hstart : Step .exact defaultBlockCacheSize (fun _ _ => True)
      (Service.new .empty 11 fun _ => ∅) _ :=
    .start rfl (show (emptyChain 11).client.daemonHeight = .ok 11 from rfl) le_rfl
      (show Gateway.start (emptyChain 11).client .empty defaultBlockCacheSize (some 0) = .ok _ from rfl)
  refine ⟨_, _, .tail (.single hstart) (@Step.scan .exact defaultBlockCacheSize (fun _ _ => True) _
    (emptyScan 11) _ 11 _ rfl rfl le_rfl trivial rfl), rfl, rfl, Nat.zero_le _, ?_⟩
  rintro (h | h)
  · exact h
  · revert h
    decide +kernel

end Service

end AcceptXmr
