import AcceptXmr.Caching.BlockCache
import AcceptXmr.Caching.TxpoolCache
import AcceptXmr.Scanner.UpdateInvoices

/-! # The scanner

`Scanner::new` and `Scanner::scan` of `library/src/scanner.rs`. A scan updates the block cache and
the txpool cache, scans both at the same time, and then updates, saves and publishes invoices. Any
step may fail; what the caches and the store then hold is what the failing step left in them.

* **`scan_run`** — everything that a scan can do.
* **`run_scanCaches`** — what scanning the caches finds, under every interleaving.
* **`run_finishScan`** — what the rest of a scan saves. -/

namespace AcceptXmr

open AssocMap

/-- The scanner's own state. -/
structure Scanner where
  blockCache : BlockCache
  txpoolCache : TxpoolCache
  firstScan : Bool
  deriving DecidableEq, Repr

/-- What a scan meets: the daemon's answers, the subaddresses it can recognise, the transactions
whose check fails, the iteration orders of its hash maps, how the two halves of the scan are
interleaved, and the storage requests that fail. -/
structure ScanEnv where
  client : MonerodClient
  checker : SubKeyChecker
  checkFails : Transaction → Bool := fun _ => false
  /-- For the amounts found in the `i`-th block of the cache. -/
  blockOrder : ℕ → IterOrder (Hash × List OwnedAmount) := default
  txpoolOrder : IterOrder (Hash × List (SubIndex × Transfer)) := default
  schedule : List Bool := []
  faults : Faults := {}

namespace Scanner

/-! ## `Scanner::new` -/

/-- `last_height`: the stored height, or else the lowest height of an invoice. -/
def lastHeight (store : Store) : Option ℕ :=
  match store.height with
  | some h => some h
  | none => store.lowestHeight

/-- The height of the top block to start from. -/
def startHeight (store : Store) (blockCacheSize : ℕ) (initialHeight : Option ℕ)
    (daemonHeight : ℕ) : ℕ :=
  max (min (((lastHeight store).or initialHeight).getD daemonHeight) daemonHeight) blockCacheSize
    - 1

/-- `Scanner::new`. A failing storage request would end it with an error before it has any effect,
and is left out. -/
def new (client : MonerodClient) (store : Store) (blockCacheSize : ℕ)
    (initialHeight : Option ℕ) : Except ScannerError Scanner :=
  match client.daemonHeight with
  | .error e => .error (.rpc e)
  | .ok daemonHeight =>
      let cacheHeight := startHeight store blockCacheSize initialHeight daemonHeight
      -- The caches are filled before the first scan, and their contents count as new then.
      match BlockCache.init client blockCacheSize cacheHeight daemonHeight with
      | .error e => .error (.blockCache e)
      | .ok blockCache =>
          match TxpoolCache.init client with
          | .error e => .error (.txpoolCache e)
          | .ok txpoolCache => .ok ⟨blockCache, txpoolCache, true⟩

/-! ## `Scanner::scan` -/

/-- `update_caches`. -/
def updateCaches (client : MonerodClient) (self : Scanner) :
    Except ScannerError (ℕ × List Transaction) × Scanner :=
  match self.blockCache.update client with
  | (.error e, blockCache) => (.error (.blockCache e), { self with blockCache := blockCache })
  | (.ok blocksUpdated, blockCache) =>
      match self.txpoolCache.update client with
      -- The block cache stays updated if the pool cannot be.
      | (.error e, txpoolCache) =>
          (.error (.txpoolCache e),
            { self with blockCache := blockCache, txpoolCache := txpoolCache })
      | (.ok newTransactions, txpoolCache) =>
          (.ok (blocksUpdated, newTransactions),
            { self with blockCache := blockCache, txpoolCache := txpoolCache })

/-- The transactions of the `i`-th cached block. -/
def cachedTransactions (cache : BlockCache) (i : ℕ) : List Transaction :=
  match cache.blocks[i]? with
  | some block => block.transactions
  | none => []

/-- The amounts received in the `i`-th cached block, as transfers. -/
def blockTransfers (env : ScanEnv) (cache : BlockCache) (i : ℕ)
    (amountsReceived : List (Hash × List OwnedAmount)) : List (SubIndex × Transfer) :=
  ((env.blockOrder i).order amountsReceived).flatMap fun e =>
    e.2.map fun amount => (amount.subIndex, ⟨amount.amount, some (U64.sub cache.height i)⟩)

/-- The loop of `scan_blocks` over the `count` newest blocks, deepest first. -/
def scanBlocksFrom (env : ScanEnv) (cache : BlockCache) :
    ℕ → List (SubIndex × Transfer) → Program (List (SubIndex × Transfer))
  | 0, transfers => pure transfers
  | i + 1, transfers => do
      let amountsReceived ←
        scanTransactions env.checkFails (cachedTransactions cache i) env.checker
      scanBlocksFrom env cache i (transfers ++ blockTransfers env cache i amountsReceived)

/-- `scan_blocks`. The first scan goes over the whole cache. -/
def scanBlocks (env : ScanEnv) (self : Scanner) (blocksUpdated : ℕ) :
    Program (List (SubIndex × Transfer)) :=
  scanBlocksFrom env self.blockCache
    (if self.firstScan then self.blockCache.blocks.length else blocksUpdated) []

/-- The amounts received in pool transactions, as transfers. -/
def txpoolTransfers (amountsReceived : List (Hash × List OwnedAmount)) :
    List (Hash × List (SubIndex × Transfer)) :=
  amountsReceived.map fun e =>
    (e.1, e.2.map fun amount => (amount.subIndex, ⟨amount.amount, none⟩))

/-- `scan_txpool`: the transfers in the pool, and the cache that remembers the new ones. -/
def scanTxpool (env : ScanEnv) (cache : TxpoolCache) (newTransactions : List Transaction) :
    Program (List (SubIndex × Transfer) × TxpoolCache) := do
  let amountsReceived ← scanTransactions env.checkFails newTransactions env.checker
  let newTransfers := txpoolTransfers amountsReceived
  let transfers := extend newTransfers cache.discoveredTransfers
  pure ((env.txpoolOrder.order transfers).flatMap Prod.snd, cache.insertTransfers newTransfers)

/-- The join of `scan_blocks` and `scan_txpool`. -/
def scanCaches (env : ScanEnv) (self : Scanner) (blocksUpdated : ℕ)
    (newTransactions : List Transaction) :
    Program (Except ScannerError (List (SubIndex × Transfer)) ×
      Except ScannerError (List (SubIndex × Transfer) × TxpoolCache)) :=
  .merge env.schedule (scanBlocks env self blocksUpdated)
    (scanTxpool env self.txpoolCache newTransactions)

/-- Save updated invoices, and publish those that could be saved. -/
def saveUpdates : List Invoice → Program Unit
  | [] => pure ()
  | invoice :: rest =>
      .call (.updateInvoice invoice) fun (result : Except StorageError (Option Invoice)) =>
        match result with
        | .error _ => saveUpdates rest
        | .ok _ => .call (.sendUpdates invoice) fun _ => saveUpdates rest

/-- The rest of a scan, once both caches have been scanned. -/
def finishScan (cacheHeight blocksUpdated : ℕ) (transfers : List (SubIndex × Transfer)) :
    Program Unit := do
  let updatedInvoices ← updateInvoices transfers cacheHeight blocksUpdated
  saveUpdates updatedInvoices
  let _ ← StorageClient.upsertHeight cacheHeight
  StorageClient.flush

/-- `Scanner::scan`: the result of the scan and the scanner afterwards. -/
def scan (env : ScanEnv) (self : Scanner) : Program (Except ScannerError Unit × Scanner) :=
  match self.updateCaches env.client with
  | (.error e, self) => pure (.error e, self)
  | (.ok (blocksUpdated, newTransactions), self) => do
      match ← scanCaches env self blocksUpdated newTransactions with
      | (.error e, .error _) => pure (.error e, self)
      | (.error e, .ok (_, txpoolCache)) =>
          -- The pool has been scanned, and its transfers stay in the cache.
          pure (.error e, { self with txpoolCache := txpoolCache })
      | (.ok _, .error e) => pure (.error e, self)
      | (.ok blocksAmounts, .ok (txpoolAmounts, txpoolCache)) =>
          let result ← (finishScan self.blockCache.height blocksUpdated
            (blocksAmounts ++ txpoolAmounts)).attempt
          pure (result, { self with txpoolCache := txpoolCache, firstScan := false })

end Scanner

/-- Where the scanner stands: between two scans, or in one of them. -/
inductive Scanning where
  | between (scanner : Scanner)
  | during (program : Program (Except ScannerError Unit × Scanner))

/-! ## What scanning the caches finds -/

/-- What `scan_transactions` returns on some transactions, by the keys recorded in `s`. -/
def foundIn (S : Backend) (checker : SubKeyChecker) (s : Shared) (transactions : List Transaction) :
    List (Hash × List OwnedAmount) :=
  pushEntries [] (received s.store.outputKeys (S.containsSubIndex s.store.invoices)
    (ownedOutputs checker transactions))

/-- Later states find the same in recorded transactions. -/
theorem Grows.foundIn_eq {S : Backend} {checker : SubKeyChecker} {s t : Shared} (h : Grows s t)
    {transactions : List Transaction}
    (hr : Recorded s.store.outputKeys (ownedOutputs checker transactions)) :
    foundIn S checker t transactions = foundIn S checker s transactions := by
  rw [foundIn, foundIn, h.keysKept.received_eq hr, h.invoices]

namespace Scanner

/-- The result of scanning the `count` newest blocks, by the keys recorded in `s`. -/
structure BlocksScanned (S : Backend) (env : ScanEnv) (cache : BlockCache) (count : ℕ)
    (transfers : List (SubIndex × Transfer)) (s : Shared) : Prop where
  recorded : ∀ i < count,
    Recorded s.store.outputKeys (ownedOutputs env.checker (cachedTransactions cache i))
  transfers : transfers = (List.range count).reverse.flatMap fun i =>
    blockTransfers env cache i (foundIn S env.checker s (cachedTransactions cache i))

/-- The result of scanning new pool transactions, by the keys recorded in `s`. -/
structure TxpoolScanned (S : Backend) (env : ScanEnv) (cache : TxpoolCache)
    (newTransactions : List Transaction) (transfers : List (SubIndex × Transfer))
    (cache' : TxpoolCache) (s : Shared) : Prop where
  recorded : Recorded s.store.outputKeys (ownedOutputs env.checker newTransactions)
  transfers : transfers = (env.txpoolOrder.order (extend
    (txpoolTransfers (foundIn S env.checker s newTransactions))
    cache.discoveredTransfers)).flatMap Prod.snd
  cache : cache' =
    cache.insertTransfers (txpoolTransfers (foundIn S env.checker s newTransactions))

theorem scanBlocksFrom_sat (S : Backend) (env : ScanEnv) (cache : BlockCache) (count : ℕ)
    (transfers : List (SubIndex × Transfer)) (s : Shared) :
    (scanBlocksFrom env cache count transfers).Sat (handle S) Grows Grows
      (fun r t => ∀ result, r = .ok result → ∃ found, result = transfers ++ found ∧
        BlocksScanned S env cache count found t) s := by
  induction count generalizing transfers s with
  | zero =>
      intro t _ result h
      cases h
      exact ⟨[], (List.append_nil _).symm, fun i hi => absurd hi (Nat.not_lt_zero i), rfl⟩
  | succ i ih =>
      refine Resumption.Sat.bind Grows.refl ?_
      refine (scanTransactions_sat S env.checkFails (cachedTransactions cache i) env.checker s).mono
        (fun _ _ h => h) (fun _ _ h => h) ?_
      rintro (e | amountsReceived) t hfound
      · intro result h
        cases h
      · obtain ⟨hrec, rfl⟩ := hfound amountsReceived rfl
        refine ((ih _ t).track (M := Grows) (fun _ _ _ => Grows.trans) (fun _ _ h => h)
          (fun _ _ h => h) (Grows.refl t)).mono (fun _ _ h => h) (fun _ _ h => h) ?_
        rintro r u ⟨hrest, htu⟩ result hresult
        obtain ⟨found, rfl, hscanned⟩ := hrest result hresult
        refine ⟨_, List.append_assoc .., fun j hj => ?_, ?_⟩
        · rcases Nat.lt_succ_iff_lt_or_eq.mp hj with hj | rfl
          · exact hscanned.recorded j hj
          · exact htu.keysKept.recorded hrec
        · rw [List.range_succ, List.reverse_append, List.reverse_singleton, List.singleton_append,
            List.flatMap_cons, ← hscanned.transfers, htu.foundIn_eq hrec]
          rfl

theorem scanTxpool_sat (S : Backend) (env : ScanEnv) (cache : TxpoolCache)
    (newTransactions : List Transaction) (s : Shared) :
    (scanTxpool env cache newTransactions).Sat (handle S) Grows Grows
      (fun r t => ∀ transfers cache', r = .ok (transfers, cache') →
        TxpoolScanned S env cache newTransactions transfers cache' t) s := by
  refine Resumption.Sat.bind Grows.refl ?_
  refine (scanTransactions_sat S env.checkFails newTransactions env.checker s).mono
    (fun _ _ h => h) (fun _ _ h => h) ?_
  rintro (e | amountsReceived) t hfound
  · intro transfers cache' h
    cases h
  · obtain ⟨hrec, rfl⟩ := hfound amountsReceived rfl
    intro u hu transfers cache' h
    cases h
    exact ⟨hu.keysKept.recorded hrec, by rw [hu.foundIn_eq hrec]; rfl,
      by rw [hu.foundIn_eq hrec]; rfl⟩

/-- **Scanning the caches**, under every interleaving: both halves end, nothing but the record of
output keys grows, and a half that succeeds has found what is in its cache. -/
theorem run_scanCaches (S : Backend) (env : ScanEnv) (self : Scanner) (blocksUpdated : ℕ)
    (newTransactions : List Transaction) (s : Shared) :
    ∃ blocks txpool u, (scanCaches env self blocksUpdated newTransactions).run (handle S) s
        = (.ok (blocks, txpool), u) ∧ Grows s u ∧
      (∀ transfers, blocks = .ok transfers → BlocksScanned S env self.blockCache
        (if self.firstScan then self.blockCache.blocks.length else blocksUpdated) transfers u) ∧
      (∀ transfers cache, txpool = .ok (transfers, cache) →
        TxpoolScanned S env self.txpoolCache newTransactions transfers cache u) := by
  have hmerge := Resumption.Sat.merge (R := Eq) (M := Grows) (δ := ScannerError)
    (fun _ _ _ => Grows.trans) (fun a b h => h ▸ Grows.refl a) env.schedule
    (scanBlocksFrom_sat S env self.blockCache
      (if self.firstScan then self.blockCache.blocks.length else blocksUpdated) [] s)
    (scanTxpool_sat S env self.txpoolCache newTransactions s)
  have hgrows := hmerge.run_guarantee (fun _ => rfl) Grows.refl (fun _ _ _ => Grows.trans)
    (fun _ _ h => h)
  obtain ⟨blocks, txpool, hresult, hblocks, htxpool⟩ := hmerge.run fun _ => rfl
  refine ⟨blocks, txpool, _, Prod.ext hresult rfl, hgrows, fun transfers h => ?_, htxpool⟩
  obtain ⟨found, hfound, hscanned⟩ := hblocks transfers h
  rw [hfound]
  exact hscanned

/-! ## What the rest of a scan saves -/

/-- What an invoice becomes in the store: its update, unless it cannot be read or saved. -/
def savedInvoice (faults : Faults) (transfers : List (SubIndex × Transfer))
    (blockCacheHeight deepestUpdate : ℕ) (old : Invoice) : Invoice :=
  if faults.unreadable old.id = false ∧ faults.save old.id = none then
    settle transfers blockCacheHeight deepestUpdate old
  else old

/-- Whatever happens to an invoice, it stays under its id. -/
theorem savedInvoice_id (faults : Faults) (transfers : List (SubIndex × Transfer))
    (blockCacheHeight deepestUpdate : ℕ) (old : Invoice) :
    (savedInvoice faults transfers blockCacheHeight deepestUpdate old).id = old.id := by
  unfold savedInvoice
  split
  · exact (settle_sameTerms _ _ _ old).id
  · rfl

/-- Saving a list of updates saves those that the store accepts. -/
theorem run_saveUpdates (S : Backend) (updates : List Invoice) (s : Shared) :
    (saveUpdates updates).run (handle S) s = (.ok (), { s with
      store := (updates.filter fun u => (s.faults.save u.id).isNone).foldl Store.updateInvoice s.store
      published := s.published ++ updates.filter fun u => (s.faults.save u.id).isNone }) := by
  induction updates generalizing s with
  | nil => simp [saveUpdates]
  | cons invoice rest ih =>
      rw [saveUpdates, Resumption.run_call]
      cases hfault : s.faults.save invoice.id with
      | some e =>
          simp only [handle, serve, hfault]
          rw [ih s, List.filter_cons_of_neg (by simp [hfault])]
      | none =>
          simp only [handle, serve, hfault, Except.mapError, Resumption.run_call]
          rw [ih, List.filter_cons_of_pos (by simp [hfault])]
          simp

/-- The updates that are both read and saved, one invoice at a time. -/
theorem updatedInvoices_read (faults : Faults) (transfers : List (SubIndex × Transfer))
    (blockCacheHeight deepestUpdate : ℕ) (invoices : List Invoice) :
    (updatedInvoices transfers blockCacheHeight deepestUpdate (invoices.map faults.read)).filter
        (fun u => (faults.save u.id).isNone)
      = invoices.filterMap fun old =>
          if faults.unreadable old.id = false ∧ faults.save old.id = none then
            updateInvoice transfers blockCacheHeight deepestUpdate old else none := by
  rw [updatedInvoices, List.filterMap_map, List.filter_filterMap]
  refine List.filterMap_congr fun old _ => ?_
  cases hread : faults.unreadable old.id with
  | true => simp [Faults.read, hread]
  | false =>
      cases hnew : updateInvoice transfers blockCacheHeight deepestUpdate old with
      | none => simp [Faults.read, hread, hnew]
      | some new =>
          have hid := (updateInvoice_sameTerms _ _ _ _ hnew).id
          cases hsave : faults.save old.id <;> simp [Faults.read, hread, hnew, hid, hsave]

/-- The invoices after the updates of a scan have been saved. -/
theorem foldl_updatedInvoices (faults : Faults) (transfers : List (SubIndex × Transfer))
    (blockCacheHeight deepestUpdate : ℕ) (store : Store) :
    (((updatedInvoices transfers blockCacheHeight deepestUpdate
        (store.invoices.map faults.read)).filter fun u => (faults.save u.id).isNone).foldl
          Store.updateInvoice store).invoices
      = store.invoices.map (savedInvoice faults transfers blockCacheHeight deepestUpdate) := by
  rw [updatedInvoices_read, Store.foldl_updateInvoice ?_ store.invoices store store.nodupIds ?_]
  · refine List.map_congr_left fun old hold => ?_
    rw [if_pos hold, savedInvoice]
    split <;> rfl
  · intro old new hnew
    split at hnew
    · exact (updateInvoice_sameTerms _ _ _ _ hnew).id
    · cases hnew
  · exact fun old hold x hx hid => List.inj_on_of_nodup_map store.nodupIds hold hx hid

/-- `update_invoices` reads all invoices and changes nothing. -/
theorem run_updateInvoices (S : Backend) (transfers : List (SubIndex × Transfer))
    (blockCacheHeight blocksUpdated : ℕ) {s : Shared} (h : s.faults.forEach = none) :
    (updateInvoices transfers blockCacheHeight blocksUpdated).run (handle S) s
      = (.ok (updatedInvoices transfers blockCacheHeight
          (U64.sub (blockCacheHeight + 1) blocksUpdated) (s.store.invoices.map s.faults.read)), s) := by
  simp [updateInvoices, StorageClient.forEachInvoice, handle, serve, h, Except.mapError,
    Resumption.bind]

/-- What the rest of a scan has done when it went past the iteration over all invoices. -/
structure Saved (transfers : List (SubIndex × Transfer)) (blockCacheHeight blocksUpdated : ℕ)
    (s s' : Shared) : Prop where
  invoices : s'.store.invoices = s.store.invoices.map
    (savedInvoice s.faults transfers blockCacheHeight (U64.sub (blockCacheHeight + 1) blocksUpdated))
  keys : s'.store.outputKeys = s.store.outputKeys
  height : s'.store.height =
    if s.faults.upsertHeight = none then some blockCacheHeight else s.store.height
  faults : s'.faults = s.faults

/-- **The rest of a scan**: either the iteration over all invoices fails and nothing happens, or
the updates are saved, and only recording the height or flushing can still fail. -/
theorem run_finishScan {S : Backend} {transfers : List (SubIndex × Transfer)}
    {blockCacheHeight blocksUpdated : ℕ} {s s' : Shared} {result : Except ScannerError Unit}
    (h : (finishScan blockCacheHeight blocksUpdated transfers).run (handle S) s = (result, s')) :
    (s.faults.forEach ≠ none ∧ s' = s ∧ ∃ e, result = .error e) ∨
    (s.faults.forEach = none ∧ Saved transfers blockCacheHeight blocksUpdated s s' ∧
      (result = .ok () ↔ s.faults.upsertHeight = none ∧ s.faults.flush = none)) := by
  rw [finishScan, Resumption.bind_eq, Resumption.run_bind] at h
  cases hfor : s.faults.forEach with
  | some e =>
      have hread : (updateInvoices transfers blockCacheHeight blocksUpdated).run (handle S) s
          = (.error (.storage e), s) := by
        simp [updateInvoices, StorageClient.forEachInvoice, handle, serve, hfor, Except.mapError,
          Resumption.bind]
      rw [hread] at h
      cases h
      exact .inl ⟨by simp, rfl, _, rfl⟩
  | none =>
      refine .inr ⟨rfl, ?_⟩
      -- Updates that cannot be saved are passed over; the height is recorded after them all.
      have hinvoices := foldl_updatedInvoices s.faults transfers blockCacheHeight
        (U64.sub (blockCacheHeight + 1) blocksUpdated) s.store
      rw [run_updateInvoices S transfers blockCacheHeight blocksUpdated hfor] at h
      simp only [Resumption.bind_eq, Resumption.run_bind, run_saveUpdates] at h
      set store := List.foldl Store.updateInvoice s.store _ with hstore
      obtain ⟨hkeys, hheight⟩ : store.outputKeys = s.store.outputKeys ∧
          store.height = s.store.height := Store.foldl_updateInvoice_frame _ _
      cases hup : s.faults.upsertHeight with
      | some e =>
          simp only [StorageClient.upsertHeight, Resumption.run_call, handle, serve, hup,
            Except.mapError, Resumption.run_done] at h
          cases h
          exact ⟨⟨hinvoices, hkeys, by simp [hup, hheight], rfl⟩, by simp⟩
      | none =>
          simp only [StorageClient.upsertHeight, StorageClient.flush, Resumption.run_call, handle,
            serve, hup, Except.mapError, Resumption.run_done] at h
          cases hflush : s.faults.flush with
          | some e =>
              simp only [hflush] at h
              cases h
              exact ⟨⟨hinvoices, hkeys, by simp [hup, Store.upsertHeight], rfl⟩, by simp⟩
          | none =>
              simp only [hflush] at h
              cases h
              exact ⟨⟨hinvoices, hkeys, by simp [hup, Store.upsertHeight], rfl⟩, by simp⟩

/-- If the iteration does not fail, the updates are saved. -/
theorem saved_finishScan (S : Backend) (transfers : List (SubIndex × Transfer))
    (blockCacheHeight blocksUpdated : ℕ) {s : Shared} (hfor : s.faults.forEach = none) :
    Saved transfers blockCacheHeight blocksUpdated s
      ((finishScan blockCacheHeight blocksUpdated transfers).run (handle S) s).2 := by
  generalize hrun : (finishScan blockCacheHeight blocksUpdated transfers).run (handle S) s = r
  obtain ⟨hfails, -, -⟩ | ⟨-, hsaved, -⟩ := run_finishScan hrun
  · exact absurd hfor hfails
  · exact hsaved

/-! ## The whole scan -/

/-- **Everything that a scan can do**: the caches cannot be updated, the txpool or the blocks cannot
be scanned, or both have been scanned and the rest of the scan has run. -/
inductive Ends (S : Backend) (env : ScanEnv) (self : Scanner) (s : Shared) :
    Except ScannerError Unit → Scanner → Shared → Prop where
  | notUpdated {e : ScannerError} {mid : Scanner}
      (hcaches : self.updateCaches env.client = (.error e, mid)) :
      Ends S env self s (.error e) mid s
  | poolNotScanned {blocksUpdated : ℕ} {newTransactions : List Transaction} {mid : Scanner}
      {blocks : Except ScannerError (List (SubIndex × Transfer))} {e' : ScannerError} {u : Shared}
      (hcaches : self.updateCaches env.client = (.ok (blocksUpdated, newTransactions), mid))
      (hrun : (scanCaches env mid blocksUpdated newTransactions).run (handle S) s
        = (.ok (blocks, .error e'), u))
      (e : ScannerError) : Ends S env self s (.error e) mid u
  | blocksNotScanned {blocksUpdated : ℕ} {newTransactions : List Transaction} {mid : Scanner}
      {e : ScannerError} {transfers : List (SubIndex × Transfer)} {cache : TxpoolCache} {u : Shared}
      (hcaches : self.updateCaches env.client = (.ok (blocksUpdated, newTransactions), mid))
      (hrun : (scanCaches env mid blocksUpdated newTransactions).run (handle S) s
        = (.ok (.error e, .ok (transfers, cache)), u)) :
      Ends S env self s (.error e) { mid with txpoolCache := cache } u
  | finished {blocksUpdated : ℕ} {newTransactions : List Transaction} {mid : Scanner}
      {blocksAmounts txpoolAmounts : List (SubIndex × Transfer)} {cache : TxpoolCache}
      {u s' : Shared} {result : Except ScannerError Unit}
      (hcaches : self.updateCaches env.client = (.ok (blocksUpdated, newTransactions), mid))
      (hrun : (scanCaches env mid blocksUpdated newTransactions).run (handle S) s
        = (.ok (.ok blocksAmounts, .ok (txpoolAmounts, cache)), u))
      (hfinish : (finishScan mid.blockCache.height blocksUpdated
        (blocksAmounts ++ txpoolAmounts)).run (handle S) u = (result, s')) :
      Ends S env self s result { mid with txpoolCache := cache, firstScan := false } s'

theorem scan_run {S : Backend} {env : ScanEnv} {self self' : Scanner} {s s' : Shared}
    {result : Except ScannerError Unit}
    (h : (scan env self).run (handle S) s = (.ok (result, self'), s')) :
    Ends S env self s result self' s' := by
  unfold scan at h
  cases hcaches : self.updateCaches env.client with
  | mk caches mid =>
      rw [hcaches] at h
      cases caches with
      | error e =>
          cases h
          exact .notUpdated hcaches
      | ok updated =>
          obtain ⟨blocksUpdated, newTransactions⟩ := updated
          obtain ⟨blocks, txpool, u, hrun, -⟩ :=
            run_scanCaches S env mid blocksUpdated newTransactions s
          simp only [Resumption.bind_eq, Resumption.run_bind, hrun] at h
          cases blocks with
          | error e =>
              cases txpool with
              | error e' =>
                  cases h
                  exact .poolNotScanned hcaches hrun e
              | ok found =>
                  cases h
                  exact .blocksNotScanned hcaches hrun
          | ok blocksAmounts =>
              cases txpool with
              | error e =>
                  cases h
                  exact .poolNotScanned hcaches hrun e
              | ok found =>
                  obtain ⟨txpoolAmounts, cache⟩ := found
                  simp only [Resumption.run_bind, Resumption.run_attempt, Resumption.pure_eq,
                    Resumption.run_done] at h
                  obtain ⟨hres, rfl⟩ := Prod.mk.inj h
                  obtain ⟨rfl, rfl⟩ := Prod.mk.inj (Except.ok.inj hres)
                  exact .finished hcaches hrun rfl

/-- What the halves of a scan that succeed have found. -/
theorem scanned_of_run {S : Backend} {env : ScanEnv} {self : Scanner} {blocksUpdated : ℕ}
    {newTransactions : List Transaction} {s u : Shared}
    {blocks : Except ScannerError (List (SubIndex × Transfer))}
    {txpool : Except ScannerError (List (SubIndex × Transfer) × TxpoolCache)}
    (hrun : (scanCaches env self blocksUpdated newTransactions).run (handle S) s
      = (.ok (blocks, txpool), u)) : Grows s u ∧
    (∀ transfers, blocks = .ok transfers → BlocksScanned S env self.blockCache
      (if self.firstScan then self.blockCache.blocks.length else blocksUpdated) transfers u) ∧
    ∀ transfers cache, txpool = .ok (transfers, cache) →
      TxpoolScanned S env self.txpoolCache newTransactions transfers cache u := by
  obtain ⟨blocks', txpool', u', hrun', hscanned⟩ :=
    run_scanCaches S env self blocksUpdated newTransactions s
  rw [hrun] at hrun'
  cases hrun'
  exact hscanned

end Scanner

end AcceptXmr
