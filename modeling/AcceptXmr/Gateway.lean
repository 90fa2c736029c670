import AcceptXmr.Scanner.Scan
import Mathlib.Data.Set.Basic

/-! # The gateway: one scanner over one store

The part of `library/src/payment_gateway.rs` that drives the scanner: scans one after the other,
with invoices created and removed in between, and restarts. `Step` collects the steps of a run in
which nothing fails; `scan_ok` is the one place where such a scan is taken apart.

* **`scan_ok`** — what a scan that succeeds does to the caches and to the store. -/

namespace AcceptXmr

/-- A scan that nothing disturbs: each update of the block cache is answered from one chain, and no
storage request fails. -/
structure ScanEnv.Undisturbed (env : ScanEnv) : Prop where
  consistent : env.client.Consistent
  faults : env.faults = {}

/-- The scanner and the store it works on. -/
structure Gateway where
  scanner : Scanner
  shared : Shared

namespace Gateway

/-- The stored invoices. -/
abbrev invoices (self : Gateway) : List Invoice := self.shared.store.invoices

/-- The recorded output keys. -/
abbrev keys (self : Gateway) : OutputPubKey → Option OutputId := self.shared.store.outputKeys

/-- The block cache. -/
abbrev cache (self : Gateway) : BlockCache := self.scanner.blockCache

/-- One call of `Scanner::scan`. -/
def scan (S : Backend) (env : ScanEnv) (self : Gateway) : Except ScannerError Unit × Gateway :=
  match (self.scanner.scan env).run (handle S) { self.shared with faults := env.faults } with
  | (.ok (result, scanner), shared) => (result, ⟨scanner, shared⟩)
  | (.error e, shared) => (.error e, ⟨self.scanner, shared⟩)

/-- The part of `PaymentGateway::new_invoice` that concerns the store. -/
def newInvoice (S : Backend) (invoice : Invoice) (self : Gateway) :
    Except StorageError Unit × Gateway :=
  let (result, shared) := handle S (.insertInvoice invoice) self.shared
  (result, ⟨self.scanner, shared⟩)

/-- The part of `PaymentGateway::remove_invoice` that concerns the store. -/
def removeInvoice (S : Backend) (id : InvoiceId) (self : Gateway) :
    Except StorageError (Option Invoice) × Gateway :=
  let (result, shared) := handle S (.removeInvoice id) self.shared
  (result, ⟨self.scanner, shared⟩)

/-- A gateway with a new scanner over `store`, as `PaymentGateway::run` starts it. -/
def start (client : MonerodClient) (store : Store) (blockCacheSize : ℕ)
    (initialHeight : Option ℕ) : Except ScannerError Gateway :=
  match Scanner.new client store blockCacheSize initialHeight with
  | .error e => .error e
  | .ok scanner => .ok ⟨scanner, { store := store }⟩

/-- **The watched invoices** are those that a scan can see payments to: its checker recognises their
indexes. An invoice outside the checker's range is stored all the same, and is not watched. -/
def Watches (g : Gateway) (W : Set InvoiceId) (env : ScanEnv) : Prop :=
  ∀ invoice ∈ g.invoices, invoice.id ∈ W → env.checker.covers invoice.index = true

/-- A checker that recognises all stored invoices watches every set of them. -/
theorem Watches.of_covers {g : Gateway} {env : ScanEnv}
    (h : ∀ invoice ∈ g.invoices, env.checker.covers invoice.index = true) (W : Set InvoiceId) :
    g.Watches W env :=
  fun invoice hmem _ => h invoice hmem

/-- Invoices are created and removed between scans. Those of `W` are created above the height of the
cache. -/
inductive InvoiceStep (S : Backend) (W : Set InvoiceId) (g : Gateway) : Gateway → Prop where
  | newInvoice {address description : String} {index : SubIndex}
      {creationHeight amountRequested confirmationsRequired expirationIn : ℕ} {g' : Gateway}
      (hheight : (⟨index, creationHeight⟩ : InvoiceId) ∈ W → g.cache.height < creationHeight)
      (h : g.newInvoice S (Invoice.new address index creationHeight amountRequested
        confirmationsRequired expirationIn description) = (.ok (), g')) : InvoiceStep S W g g'
  | removeInvoice (id : InvoiceId) : InvoiceStep S W g (g.removeInvoice S id).2

/-- The steps of a **failure-free run**: scans that succeed, with invoices created and removed in
between. Every scan watches the invoices of `W`; for the empty set this asks nothing. -/
inductive Step (S : Backend) (W : Set InvoiceId) (g : Gateway) : Gateway → Prop where
  | scan {env : ScanEnv} {g' : Gateway} (henv : env.Undisturbed) (hwatches : g.Watches W env)
      (h : g.scan S env = (.ok (), g')) : Step S W g g'
  | invoices {g' : Gateway} (h : InvoiceStep S W g g') : Step S W g g'

/-- What a started gateway holds. -/
structure Started (client : MonerodClient) (store : Store) (n : ℕ) (initialHeight : Option ℕ)
    (g : Gateway) (d : ℕ) : Prop where
  daemonHeight : client.daemonHeight = .ok d
  blockCache : BlockCache.init client n (Scanner.startHeight store n initialHeight d) d
    = .ok g.cache
  txpoolCache : TxpoolCache.init client = .ok g.scanner.txpoolCache
  firstScan : g.scanner.firstScan = true
  shared : g.shared = { store := store }

theorem start_ok {client : MonerodClient} {store : Store} {n : ℕ} {initialHeight : Option ℕ}
    {g : Gateway} (h : Gateway.start client store n initialHeight = .ok g) :
    ∃ daemonHeight, Started client store n initialHeight g daemonHeight := by
  unfold Gateway.start at h
  split at h
  · cases h
  · rename_i scanner hnew
    cases h
    unfold Scanner.new at hnew
    split at hnew
    · cases hnew
    · rename_i daemonHeight hheight
      dsimp only at hnew
      split at hnew
      · cases hnew
      · rename_i blockCache hblock
        split at hnew
        · cases hnew
        · rename_i txpoolCache htxpool
          cases hnew
          exact ⟨daemonHeight, hheight, hblock, htxpool, rfl, rfl⟩

/-- Answered from one chain, a new scanner starts with a valid cache. -/
theorem Started.cache_valid {client : MonerodClient} {store : Store} {n daemonHeight : ℕ}
    {initialHeight : Option ℕ} {g : Gateway}
    (h : Started client store n initialHeight g daemonHeight) (hn : 1 ≤ n)
    (hc : client.Consistent) : g.cache.Valid n ∧
      g.cache.height = Scanner.startHeight store n initialHeight daemonHeight := by
  obtain ⟨hvalid, hheight, -⟩ := BlockCache.init_valid hc
    (by unfold Scanner.startHeight; omega) h.blockCache
  exact ⟨hvalid, hheight⟩

/-! ## Taking a successful scan apart -/

/-- What a scan passes from one of its steps to the next. `found` is the state in which the scan of
the caches ends. -/
structure ScanTrace where
  blocksUpdated : ℕ
  newTransactions : List Transaction
  txpoolCache : TxpoolCache
  found : Shared
  blocksAmounts : List (SubIndex × Transfer)
  txpoolAmounts : List (SubIndex × Transfer)

/-- A **successful scan**: the caches are updated and scanned, and the invoices are settled. -/
structure Scanned (S : Backend) (env : ScanEnv) (g g' : Gateway) (t : ScanTrace) : Prop where
  blockCache : g.cache.update env.client = (.ok t.blocksUpdated, g'.cache)
  txpoolCache : g.scanner.txpoolCache.update env.client = (.ok t.newTransactions, t.txpoolCache)
  grows : Grows { g.shared with faults := env.faults } t.found
  blocks : Scanner.BlocksScanned S env g'.cache
    (if g.scanner.firstScan then g'.cache.blocks.length else t.blocksUpdated) t.blocksAmounts
    t.found
  txpool : Scanner.TxpoolScanned S env t.txpoolCache t.newTransactions t.txpoolAmounts
    g'.scanner.txpoolCache t.found
  firstScan : g'.scanner.firstScan = false
  saved : Scanner.Saved (t.blocksAmounts ++ t.txpoolAmounts) g'.cache.height t.blocksUpdated
    t.found g'.shared

/-- A scan whose updates have been saved has gone through all its steps. -/
theorem scanned_of_saved {S : Backend} {env : ScanEnv} {g : Gateway} {mid : Scanner}
    {blocksUpdated : ℕ} {newTransactions : List Transaction}
    {blocksAmounts txpoolAmounts : List (SubIndex × Transfer)} {cache : TxpoolCache}
    {found shared : Shared}
    (hcaches : g.scanner.updateCaches env.client = (.ok (blocksUpdated, newTransactions), mid))
    (hscanned : (Scanner.scanCaches env mid blocksUpdated newTransactions).run (handle S)
      { g.shared with faults := env.faults }
        = (.ok (.ok blocksAmounts, .ok (txpoolAmounts, cache)), found))
    (hsaved : Scanner.Saved (blocksAmounts ++ txpoolAmounts) mid.blockCache.height blocksUpdated
      found shared) :
    Scanned S env g ⟨{ mid with txpoolCache := cache, firstScan := false }, shared⟩
      ⟨blocksUpdated, newTransactions, mid.txpoolCache, found, blocksAmounts, txpoolAmounts⟩ := by
  obtain ⟨hgrows, hblocks, htxpool⟩ := Scanner.scanned_of_run hscanned
  unfold Scanner.updateCaches at hcaches
  split at hcaches
  · cases hcaches
  · rename_i count blockCache hblock
    split at hcaches
    · cases hcaches
    · rename_i txs pool htx
      cases hcaches
      exact ⟨hblock, htx, hgrows, hblocks _ rfl, htxpool _ _ rfl, rfl, hsaved⟩

/-- A scan that succeeds has gone through all its steps. -/
theorem scan_ok {S : Backend} {env : ScanEnv} {g g' : Gateway}
    (h : g.scan S env = (.ok (), g')) :
    ∃ t, Scanned S env g g' t := by
  unfold scan at h
  split at h
  · rename_i result scanner shared hrun
    obtain ⟨rfl, rfl⟩ := Prod.mk.inj h
    -- Of all the ways in which a scan ends, only the last is without an error.
    cases Scanner.scan_run hrun with
    | finished hcaches hscanned hfinish =>
        obtain ⟨-, -, e, hres⟩ | ⟨-, hsaved, -⟩ := Scanner.run_finishScan hfinish
        · cases hres
        · exact ⟨_, scanned_of_saved hcaches hscanned hsaved⟩
  · cases h

section Scanned

variable {S : Backend} {env : ScanEnv} {g g' : Gateway} {t : ScanTrace}

/-- The deepest height that a scan updates. -/
abbrev deepestUpdate (g' : Gateway) (t : ScanTrace) : ℕ :=
  U64.sub (g'.cache.height + 1) t.blocksUpdated

/-- If no stored invoice fails to be read or saved, the scan settles all of them. -/
theorem Scanned.invoices_eq_of_saved (h : Scanned S env g g' t)
    (hsaved : ∀ invoice ∈ g.invoices,
      env.faults.unreadable invoice.id = false ∧ env.faults.save invoice.id = none) :
    g'.invoices = g.invoices.map (Scanner.settle (t.blocksAmounts ++ t.txpoolAmounts)
      g'.cache.height (deepestUpdate g' t)) := by
  rw [invoices, h.saved.invoices, h.grows.invoices]
  refine List.map_congr_left fun old hold => ?_
  rw [Scanner.savedInvoice, h.grows.faults, if_pos (hsaved old hold)]

/-- Without failing requests, the scan settles every stored invoice. -/
theorem Scanned.invoices_eq (h : Scanned S env g g' t) (hf : env.faults = {}) :
    g'.invoices = g.invoices.map (Scanner.settle (t.blocksAmounts ++ t.txpoolAmounts)
      g'.cache.height (deepestUpdate g' t)) := by
  refine h.invoices_eq_of_saved fun invoice _ => ?_
  rw [hf]
  exact ⟨rfl, rfl⟩

/-- A scan keeps the recorded keys. -/
theorem Scanned.keysKept (h : Scanned S env g g' t) : KeysKept g.shared g'.shared := by
  intro key id hk
  rw [h.saved.keys]
  exact h.grows.keys key id hk

/-- The keys at the end of the scan are those by which the caches were scanned. -/
theorem Scanned.keys_eq (h : Scanned S env g g' t) : g'.keys = t.found.store.outputKeys :=
  h.saved.keys

end Scanned

end Gateway

/-! ## A small gateway to evaluate -/

/-- A transaction that pays to index 1, with a key of its own. -/
def payment (hash : Hash) (amount : ℕ) : Transaction :=
  ⟨hash, 0, [⟨0, ⟨hash⟩, ⟨0, 1⟩, some amount⟩]⟩

/-- A store with one unpaid invoice over 10 piconeros, for index 1. -/
def smallStore : Store :=
  ⟨[Invoice.new "" ⟨0, 1⟩ 1 10 1 100 ""], fun _ => none, none, List.nodup_singleton _⟩

/-- A scan that meets a daemon that does not fail. -/
def plainEnv (daemon : Daemon) : ScanEnv where
  client := daemon.client
  checker := ⟨(0, 1), (0, 2)⟩

theorem plainEnv_undisturbed (daemon : Daemon) : (plainEnv daemon).Undisturbed :=
  ⟨daemon.client_consistent, rfl⟩

/-- A gateway started on a daemon, with a cache of two blocks. -/
def Gateway.smallStart (daemon : Daemon) (store : Store) : Gateway :=
  match Gateway.start daemon.client store 2 none with
  | .ok g => g
  | .error _ => ⟨⟨⟨0, 0, []⟩, ⟨[], []⟩, true⟩, { store := store }⟩

/-- The gateway after a scan. -/
def Gateway.afterScan (daemon : Daemon) (g : Gateway) : Gateway :=
  (g.scan .exact (plainEnv daemon)).2

theorem Gateway.scan_eq_afterScan {daemon : Daemon} {g : Gateway}
    (h : (g.scan .exact (plainEnv daemon)).1 = .ok ()) :
    g.scan .exact (plainEnv daemon) = (.ok (), g.afterScan daemon) := Prod.ext h rfl

end AcceptXmr
