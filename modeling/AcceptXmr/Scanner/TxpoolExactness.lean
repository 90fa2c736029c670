import AcceptXmr.Scanner.Crediting

/-! # The txpool

What the scanner credits from the txpool: each transaction is scanned once, when it is new to the
cache, and its transfers are remembered until it leaves the pool. Two things are not seen that way.
Transactions that were in the pool when the scanner was created are in the cache from the start and
never scanned; and remembered transfers are keyed by subaddress index, so that an invoice created
later for the same index gets them.

`PoolView` records what a run has to remember to say which transactions count for which invoice.

* **`PoolBooks.step`** — the invariant of failure-free runs.
* **`txpool_exact`** — after every scan that meets neither, the pool transfers of an invoice are the
  outputs of the pool's transactions that count for it. -/

namespace AcceptXmr

open AssocMap
open scoped List

/-! ## The outputs of one pool transaction -/

theorem KeysKept.acceptable_iff {s s' : Shared} (h : KeysKept s s') {p : Hash × OwnedTxOut}
    (hr : s.store.outputKeys p.2.key ≠ none) :
    Acceptable s'.store.outputKeys p ↔ Acceptable s.store.outputKeys p := by
  rw [Acceptable, Acceptable, h.eq_of_ne_none hr, h.accepted_iff hr]

/-- The amounts of the outputs to one index that count as accepted. -/
def acceptableAmounts (keys : OutputPubKey → Option OutputId) (index : SubIndex)
    (outputs : List (Hash × OwnedTxOut)) : List ℕ :=
  outputs.filterMap fun p =>
    if Acceptable keys p ∧ p.2.subIndex = index then p.2.amount else none

/-- For recorded outputs this is acceptance. -/
theorem acceptableAmounts_eq {keys : OutputPubKey → Option OutputId} {index : SubIndex}
    {outputs : List (Hash × OwnedTxOut)} (h : RecordedFor keys index outputs) :
    acceptableAmounts keys index outputs = acceptedAmounts keys index outputs := by
  refine List.filterMap_congr fun p hp => ?_
  by_cases hidx : p.2.subIndex = index
  · simp [Acceptable, h p hp hidx]
  · simp [hidx]

/-- The amounts found in one transaction are found under its hash. -/
theorem received_filter_hash (keys : OutputPubKey → Option OutputId) (tracks : SubIndex → Bool)
    (outputs : List (Hash × OwnedTxOut)) (hash : Hash) :
    (received keys tracks outputs).filter (fun e => decide (hash = e.1))
      = received keys tracks (outputs.filter fun p => decide (hash = p.1)) := by
  rw [received, received, List.filter_filterMap, List.filterMap_filter]
  refine List.filterMap_congr fun p _ => ?_
  by_cases hrec : Accepted keys p ∧ tracks p.2.subIndex = true
  · rw [if_pos hrec]
    cases hwith : receivedWith p with
    | none => simp
    | some e =>
        obtain ⟨h, a⟩ := e
        obtain ⟨rfl, -⟩ := receivedWith_eq_some hwith
        by_cases hp : hash = p.1 <;> simp [hp]
  · simp [if_neg hrec]

/-- The outputs of one transaction are those under its hash. -/
theorem ownedOutputs_filter_hash (checker : SubKeyChecker) (transactions : List Transaction)
    (hash : Hash) :
    (ownedOutputs checker transactions).filter (fun p => decide (hash = p.1))
      = ownedOutputs checker (transactions.filter fun tx => decide (hash = tx.hash)) := by
  rw [ownedOutputs, ownedOutputs, List.filter_flatMap, List.filter_comm]
  induction transactions.filter fun tx => decide (tx.unlockTime = 0) with
  | nil => rfl
  | cons tx txs ih =>
      rw [List.flatMap_cons, ih, List.filter_cons]
      by_cases h : hash = tx.hash
      · rw [if_pos (by simpa using h), List.flatMap_cons, List.filter_eq_self.mpr]
        intro p hp
        obtain ⟨output, -, rfl⟩ := List.mem_map.mp hp
        simpa using h
      · rw [if_neg (by simpa using h), List.filter_eq_nil_iff.mpr, List.nil_append]
        intro p hp
        obtain ⟨output, -, rfl⟩ := List.mem_map.mp hp
        simpa using h

/-- **What scanning new pool transactions discovers under a hash**, for a tracked index. -/
theorem discovered_at {S : Backend} {checker : SubKeyChecker} {s : Shared} {index : SubIndex}
    (htracked : S.containsSubIndex s.store.invoices index = true)
    (hcover : checker.covers index = true) (transactions : List Transaction) (hash : Hash) :
    ((valuesAt (Scanner.txpoolTransfers (foundIn S checker s transactions)) hash).filter
        fun e => decide (e.1 = index)).map Prod.snd
      = (acceptedAmounts s.store.outputKeys index
          (unlockedOutputs (transactions.filter fun tx => decide (hash = tx.hash)))).map
            fun amount => ⟨amount, none⟩ := by
  rw [Scanner.txpoolTransfers, valuesAt_map, foundIn, valuesAt_pushEntries, valuesAt_nil,
    List.nil_append, received_filter_hash, ownedOutputs_filter_hash, List.map_map, List.filter_map,
    List.map_map, ← acceptedAmounts_ownedOutputs _ hcover, ← received_for _ htracked, List.map_map]
  rfl

/-- Going over the elements that pass a test. -/
theorem flatMap_filter_eq {α β : Type} (p : α → Bool) (l : List α) (f : α → List β) :
    (l.filter p).flatMap f = l.flatMap fun a => if p a then f a else [] := by
  induction l with
  | nil => rfl
  | cons a l ih =>
      rw [List.filter_cons, List.flatMap_cons]
      split <;> simp [*]

/-! ## Runs and what they have to remember -/

/-- The daemon serves a pool: `pool` lists its transactions, each once, and every requested
transaction is returned. `ledger` is the transaction of a hash. -/
structure ServesPool (ledger : Hash → Transaction) (pool : List Hash) (client : MonerodClient) :
    Prop where
  nodup : pool.Nodup
  hashes : client.txpoolHashes = .ok pool
  byHashes : ∀ hashes, hashes ⊆ pool → ∃ txs, client.transactionsByHashes hashes = .ok txs ∧
    txs.Perm (hashes.map ledger)

/-- What is returned for transactions in the pool are those transactions. -/
theorem ServesPool.byHashes_of_ok {ledger : Hash → Transaction} {pool : List Hash}
    {client : MonerodClient} (h : ServesPool ledger pool client) (pool' hashes : List Hash)
    (txs : List Transaction) (hpool : client.txpoolHashes = .ok pool') (hsub : hashes ⊆ pool')
    (htxs : client.transactionsByHashes hashes = .ok txs) : txs.Perm (hashes.map ledger) := by
  obtain rfl := Except.ok.inj (h.hashes.symm.trans hpool)
  obtain ⟨txs', htxs', hperm⟩ := h.byHashes hashes hsub
  obtain rfl := Except.ok.inj (htxs.symm.trans htxs')
  exact hperm

/-- **What a run remembers about the pool**: its transactions at the last scan, for each of them
the invoices that were tracked when it entered, and those that have been in the pool since the
scanner was created. -/
structure PoolView where
  pool : List Hash
  entry : Hash → List InvoiceId
  unscanned : List Hash

/-- The view of a new scanner: the whole pool entered, for the stored invoices, but unscanned. -/
def PoolView.start (pool : List Hash) (store : Store) : PoolView :=
  ⟨pool, fun _ => store.getIds, pool⟩

/-- The view after a scan that finds the pool at `pool`. -/
def PoolView.next (v : PoolView) (pool : List Hash) (tracked : List InvoiceId) : PoolView :=
  ⟨pool, fun hash => if hash ∈ v.pool then v.entry hash else tracked,
    v.unscanned.filter fun hash => decide (hash ∈ pool)⟩

/-- The amounts in the pool that count for an invoice: the accepted outputs to its index in the
transactions that entered while it was tracked. -/
def PoolView.amountsFor (v : PoolView) (ledger : Hash → Transaction)
    (keys : OutputPubKey → Option OutputId) (invoice : Invoice) : List ℕ :=
  (v.pool.filter fun hash => decide (invoice.id ∈ v.entry hash)).flatMap fun hash =>
    acceptableAmounts keys invoice.index (unlockedOutputs [ledger hash])

namespace Gateway

/-- No transaction that has been in the pool since the scanner was created pays a watched invoice for
which it counts. -/
def NoneMissed (ledger : Hash → Transaction) (W : Set InvoiceId) (g : Gateway) (v : PoolView)
    (pool : List Hash) : Prop :=
  ∀ hash ∈ v.unscanned, hash ∈ pool → ∀ invoice ∈ g.invoices, invoice.id ∈ W →
    invoice.id ∈ v.entry hash → ∀ p ∈ unlockedOutputs [ledger hash], p.2.subIndex = invoice.index →
      ¬ Acceptable g.keys p

/-- Of the transactions that have stayed in the pool, none that entered before a watched invoice was
tracked has a remembered transfer to its index. -/
def NotReused (W : Set InvoiceId) (g : Gateway) (v : PoolView) (pool : List Hash) : Prop :=
  ∀ hash ∈ v.pool, hash ∈ pool → ∀ invoice ∈ g.invoices, invoice.id ∈ W →
    invoice.id ∉ v.entry hash →
      ∀ x ∈ valuesAt g.scanner.txpoolCache.discoveredTransfers hash, x.1 ≠ invoice.index

/-- The steps of a failure-free run that watches the invoices of `W`. -/
inductive PoolStep (S : Backend) (ledger : Hash → Transaction) (W : Set InvoiceId) :
    Gateway × PoolView → Gateway × PoolView → Prop where
  | scan {g g' : Gateway} {v : PoolView} {env : ScanEnv} {pool : List Hash}
      (hserves : ServesPool ledger pool env.client) (hfaults : env.faults = {})
      (hwatches : g.Watches W env) (h : g.scan S env = (.ok (), g')) :
      PoolStep S ledger W (g, v) (g', v.next pool g.shared.store.getIds)
  | newInvoice {g g' : Gateway} {v : PoolView} {invoice : Invoice}
      (h : g.newInvoice S invoice = (.ok (), g')) : PoolStep S ledger W (g, v) (g', v)
  | removeInvoice {g : Gateway} {v : PoolView} (id : InvoiceId) :
      PoolStep S ledger W (g, v) ((g.removeInvoice S id).2, v)

/-- **The invariant**: the cached transactions are the pool's; the remembered transfers are in the
pool, and those of a scanned transaction are its accepted outputs to the index of every watched
invoice for which it counts. -/
structure PoolBooks (ledger : Hash → Transaction) (W : Set InvoiceId) (g : Gateway) (v : PoolView) :
    Prop where
  cached : ∀ hash, hash ∈ AssocMap.keys g.scanner.txpoolCache.transactions ↔ hash ∈ v.pool
  nodup : (AssocMap.keys g.scanner.txpoolCache.discoveredTransfers).Nodup
  inPool : ∀ e ∈ g.scanner.txpoolCache.discoveredTransfers, Scanner.InPool e.2
  mem : ∀ hash ∈ AssocMap.keys g.scanner.txpoolCache.discoveredTransfers,
    hash ∈ v.pool ∧ hash ∉ v.unscanned
  unscanned : ∀ hash ∈ v.unscanned, hash ∈ v.pool
  recorded : ∀ hash ∈ v.pool, hash ∉ v.unscanned → ∀ id ∈ v.entry hash, id ∈ W →
    RecordedFor g.keys id.subIndex (unlockedOutputs [ledger hash])
  counted : ∀ hash ∈ v.pool, hash ∉ v.unscanned → ∀ id ∈ v.entry hash, id ∈ W →
    (((valuesAt g.scanner.txpoolCache.discoveredTransfers hash).filter
      fun e => decide (e.1 = id.subIndex)).map Prod.snd).Perm
      ((acceptedAmounts g.keys id.subIndex (unlockedOutputs [ledger hash])).map
        fun amount => ⟨amount, none⟩)

/-! ## One scan -/

/-- **An update of the pool cache** that finds the pool at `pool`: what has left is forgotten and
what is new is fetched. -/
structure PoolUpdated (ledger : Hash → Transaction) (pool : List Hash) (cache : TxpoolCache)
    (newTransactions : List Transaction) (cache' : TxpoolCache) : Prop where
  nodup : pool.Nodup
  new : newTransactions.Perm ((pool.filter fun hash =>
    decide (hash ∉ AssocMap.keys cache.transactions)).map ledger)
  transactions : cache'.transactions = extend
    (retain (fun hash => decide (hash ∈ pool)) cache.transactions) (byHash newTransactions)
  discovered : cache'.discoveredTransfers
    = retain (fun hash => decide (hash ∈ pool)) cache.discoveredTransfers

/-- What updating the cache does when the daemon serves a pool. -/
theorem update_serves {ledger : Hash → Transaction} {pool : List Hash} {client : MonerodClient}
    (hserves : ServesPool ledger pool client) {cache cache' : TxpoolCache}
    {newTransactions : List Transaction}
    (h : cache.update client = (.ok newTransactions, cache')) :
    PoolUpdated ledger pool cache newTransactions cache' := by
  unfold TxpoolCache.update at h
  rw [hserves.hashes] at h
  obtain ⟨txs, htxs, hperm⟩ := hserves.byHashes (pool.filter fun hash =>
    decide (hash ∉ AssocMap.keys cache.transactions)) (List.filter_sublist.subset)
  simp only [htxs] at h
  cases h
  exact ⟨hserves.nodup, hperm, rfl, rfl⟩

/-- A transaction is recovered by its hash. -/
theorem filter_ledger_hash {ledger : Hash → Transaction} (hledger : ∀ h, (ledger h).hash = h)
    {hashes : List Hash} (hnodup : hashes.Nodup) {txs : List Transaction}
    (hperm : txs.Perm (hashes.map ledger)) (hash : Hash) :
    txs.filter (fun tx => decide (hash = tx.hash)) = if hash ∈ hashes then [ledger hash] else [] := by
  have hmap : (hashes.map ledger).filter (fun tx => decide (hash = tx.hash))
      = (hashes.filter fun h => decide (hash = h)).map ledger := by
    rw [List.filter_map]
    congr 1
    exact List.filter_congr fun h _ => by simp [hledger]
  have hone : hashes.filter (fun h => decide (hash = h)) = if hash ∈ hashes then [hash] else [] := by
    rw [show (fun h => decide (hash = h)) = fun h => decide (h = hash) by
      funext h; simp [eq_comm], List.filter_eq]
    split
    · rename_i hmem
      rw [List.count_eq_one_of_mem hnodup hmem]
      rfl
    · rename_i hmem
      rw [List.count_eq_zero_of_not_mem hmem]
      rfl
  have hfilter := hperm.filter fun tx => decide (hash = tx.hash)
  rw [hmap, hone] at hfilter
  split
  · rename_i hmem
    rw [if_pos hmem] at hfilter
    exact List.perm_singleton.mp hfilter
  · rename_i hmem
    rw [if_neg hmem] at hfilter
    exact hfilter.eq_nil

section Scan

variable {S : Backend} {ledger : Hash → Transaction} {env : ScanEnv} {g g' : Gateway}
  {v : PoolView} {pool : List Hash} {W : Set InvoiceId} {t : ScanTrace}

/-- **A scan that has gone over the pool**, whatever it does to the invoices afterwards. -/
structure PoolScanned (S : Backend) (ledger : Hash → Transaction) (pool : List Hash) (env : ScanEnv)
    (g g' : Gateway) (t : ScanTrace) : Prop where
  updated : PoolUpdated ledger pool g.scanner.txpoolCache t.newTransactions t.txpoolCache
  grows : Grows { g.shared with faults := env.faults } t.found
  txpool : Scanner.TxpoolScanned S env t.txpoolCache t.newTransactions t.txpoolAmounts
    g'.scanner.txpoolCache t.found
  keys_eq : g'.keys = t.found.store.outputKeys
  ids : ∀ invoice ∈ g'.invoices, invoice.id ∈ g.shared.store.getIds

/-- A scan that goes on to save invoices has done that. -/
theorem Scanned.poolScanned (hs : Scanned S env g g' t)
    (hupd : PoolUpdated ledger pool g.scanner.txpoolCache t.newTransactions t.txpoolCache) :
    PoolScanned S ledger pool env g g' t := by
  refine ⟨hupd, hs.grows, hs.txpool, hs.keys_eq, fun invoice hmem => ?_⟩
  rw [Gateway.invoices, hs.saved.invoices, hs.grows.invoices] at hmem
  obtain ⟨old, hold, rfl⟩ := List.mem_map.mp hmem
  rw [Scanner.savedInvoice_id]
  exact List.mem_map_of_mem hold

/-- A scan of the pool keeps the recorded keys. -/
theorem PoolScanned.keysKept (hs : PoolScanned S ledger pool env g g' t) :
    KeysKept g.shared g'.shared := by
  intro key id hk
  rw [show g'.shared.store.outputKeys = _ from hs.keys_eq]
  exact hs.grows.keys key id hk

/-- **The remembered transfers of a scan**: those of the transactions that stay, and those
discovered in the ones that have entered. -/
structure Remembered (ledger : Hash → Transaction) (g : Gateway) (v : PoolView) (pool : List Hash)
    (new m : List (Hash × List (SubIndex × Transfer))) : Prop where
  nodup : (AssocMap.keys m).Nodup
  mem : ∀ hash ∈ AssocMap.keys m, hash ∈ pool ∧ hash ∉ v.unscanned
  old : ∀ hash ∈ pool, hash ∈ v.pool →
    valuesAt m hash = valuesAt g.scanner.txpoolCache.discoveredTransfers hash
  entered : ∀ hash ∈ pool, hash ∉ v.pool → valuesAt m hash = valuesAt new hash

/-- What is discovered has entered the pool. -/
theorem mem_keys_discovered {checker : SubKeyChecker} {s : Shared}
    {transactions : List Transaction} {hash : Hash}
    (h : hash ∈ AssocMap.keys (Scanner.txpoolTransfers (foundIn S checker s transactions))) :
    ∃ tx ∈ transactions, tx.hash = hash := by
  rw [Scanner.txpoolTransfers, keys_map (fun as : List OwnedAmount =>
    as.map fun a => (a.subIndex, (⟨a.amount, none⟩ : Transfer))), foundIn, mem_keys_pushEntries] at h
  rcases h with h | h
  · cases h
  · obtain ⟨e, he, rfl⟩ := List.mem_map.mp h
    obtain ⟨p, hp, hsome⟩ := List.mem_filterMap.mp he
    split at hsome
    · obtain ⟨heq, -⟩ := receivedWith_eq_some (h := e.1) (a := e.2) hsome
      simp only [ownedOutputs, List.mem_flatMap, List.mem_filter, List.mem_map] at hp
      obtain ⟨tx, ⟨htx, -⟩, output, -, rfl⟩ := hp
      exact ⟨tx, htx, heq.symm⟩
    · cases hsome

/-- What is discovered in new transactions is in the pool and was not in the cache. -/
theorem PoolUpdated.of_mem_keys_discovered {cache cache' : TxpoolCache}
    {newTransactions : List Transaction} (hledger : ∀ h, (ledger h).hash = h)
    (h : PoolUpdated ledger pool cache newTransactions cache') {checker : SubKeyChecker}
    {s : Shared} {hash : Hash}
    (hmem : hash ∈ AssocMap.keys (Scanner.txpoolTransfers (foundIn S checker s newTransactions))) :
    hash ∈ pool ∧ hash ∉ AssocMap.keys cache.transactions := by
  obtain ⟨tx, htx, rfl⟩ := mem_keys_discovered hmem
  obtain ⟨hash, hentered, rfl⟩ := List.mem_map.mp (h.new.mem_iff.mp htx)
  rw [hledger]
  rwa [List.mem_filter, decide_eq_true_iff] at hentered

/-- Both the transfers a scan works with and those it remembers for the next one are of that
kind. -/
theorem PoolBooks.remembered (hb : PoolBooks ledger W g v) (hledger : ∀ h, (ledger h).hash = h)
    (hs : PoolScanned S ledger pool env g g' t) :
    Remembered ledger g v pool
        (Scanner.txpoolTransfers (foundIn S env.checker t.found t.newTransactions))
        (extend (Scanner.txpoolTransfers (foundIn S env.checker t.found t.newTransactions))
          t.txpoolCache.discoveredTransfers) ∧
      Remembered ledger g v pool
        (Scanner.txpoolTransfers (foundIn S env.checker t.found t.newTransactions))
        g'.scanner.txpoolCache.discoveredTransfers := by
  have hdisc := hs.updated.discovered
  set new := Scanner.txpoolTransfers (foundIn S env.checker t.found t.newTransactions) with hnewdef
  -- New transactions were not in the pool before, and remembered ones were.
  have hkeysnew : ∀ hash ∈ AssocMap.keys new, hash ∈ pool ∧ hash ∉ v.pool := by
    intro hash hmem
    rw [← hb.cached]
    exact hs.updated.of_mem_keys_discovered hledger hmem
  have hkeysold : ∀ hash, hash ∈ AssocMap.keys t.txpoolCache.discoveredTransfers ↔
      hash ∈ AssocMap.keys g.scanner.txpoolCache.discoveredTransfers ∧ hash ∈ pool := by
    intro hash
    rw [hdisc, mem_keys_retain, decide_eq_true_iff]
  have hold : ∀ hash ∈ pool, valuesAt t.txpoolCache.discoveredTransfers hash
      = valuesAt g.scanner.txpoolCache.discoveredTransfers hash := by
    intro hash hmem
    rw [hdisc, valuesAt_retain, if_pos (by simpa using hmem)]
  have hnodupnew : (AssocMap.keys new).Nodup := by
    rw [hnewdef, Scanner.txpoolTransfers, keys_map (fun as : List OwnedAmount =>
      as.map fun a => (a.subIndex, (⟨a.amount, none⟩ : Transfer)))]
    exact nodup_keys_pushEntries _ List.nodup_nil
  have hnodupold : (AssocMap.keys t.txpoolCache.discoveredTransfers).Nodup := by
    rw [hdisc, keys_retain]
    exact hb.nodup.filter _
  have hmem : ∀ hash, hash ∈ AssocMap.keys t.txpoolCache.discoveredTransfers ∨
      hash ∈ AssocMap.keys new → hash ∈ pool ∧ hash ∉ v.unscanned := by
    rintro hash (h | h)
    · rw [hkeysold] at h
      exact ⟨h.2, (hb.mem hash h.1).2⟩
    · exact ⟨(hkeysnew hash h).1, fun hu => (hkeysnew hash h).2 (hb.unscanned hash hu)⟩
  have hnotnew : ∀ hash ∈ v.pool, hash ∉ AssocMap.keys new := fun hash hv h => (hkeysnew hash h).2 hv
  have hnotold : ∀ hash, hash ∉ v.pool →
      hash ∉ AssocMap.keys t.txpoolCache.discoveredTransfers :=
    fun hash hv h => hv (hb.mem hash ((hkeysold hash).mp h).1).1
  -- No hash is in both maps, and so it does not matter which of them extends the other.
  refine ⟨⟨nodup_keys_extend hnodupnew hnodupold, fun hash h => ?_, fun hash hp hv => ?_,
    fun hash hp hv => ?_⟩, ?_⟩
  · rw [mem_keys_extend] at h
    exact hmem hash h.symm
  · rw [valuesAt_extend, valuesAt_eq_nil_of_not_mem (hnotnew hash hv), ← hold hash hp]
    split
    · rfl
    · rename_i hno
      rw [valuesAt_eq_nil_of_not_mem hno]
  · rw [valuesAt_extend, if_neg (hnotold hash hv)]
  · rw [hs.txpool.cache, TxpoolCache.insertTransfers]
    refine ⟨nodup_keys_extend hnodupold hnodupnew, fun hash h => ?_, fun hash hp hv => ?_,
      fun hash hp hv => ?_⟩
    · rw [mem_keys_extend] at h
      exact hmem hash h
    · rw [valuesAt_extend, if_neg (hnotnew hash hv), hold hash hp]
    · rw [valuesAt_extend, valuesAt_eq_nil_of_not_mem (hnotold hash hv)]
      split
      · rfl
      · rename_i hno
        rw [valuesAt_eq_nil_of_not_mem hno]

/-- The pool transfers of a settled invoice are the remembered ones for its index. -/
theorem Scanned.settle_poolTransfers (hs : Scanned S env g g' t)
    (hnodup : pool.Nodup) {new m : List (Hash × List (SubIndex × Transfer))}
    (hm : Remembered ledger g v pool new m) (hinPool : Scanner.InPool t.txpoolAmounts)
    (hamounts : t.txpoolAmounts = (env.txpoolOrder.order m).flatMap Prod.snd) (invoice : Invoice) :
    ((Scanner.settle (t.blocksAmounts ++ t.txpoolAmounts) g'.cache.height (deepestUpdate g' t)
        invoice).transfersAt none).Perm
      (pool.flatMap fun hash => ((valuesAt m hash).filter
        fun e => decide (e.1 = invoice.index)).map Prod.snd) := by
  have hset := Scanner.settle_transfersAt (t.blocksAmounts ++ t.txpoolAmounts) g'.cache.height
    (deepestUpdate g' t) invoice none
  rw [Scanner.keptTransfers_filter_of_not_lt invoice (by simp), List.nil_append,
    if_pos (by simp)] at hset
  refine hset.trans ?_
  -- Nothing that is found in blocks stands in the pool.
  have hblocks : ((t.blocksAmounts.filter fun e => decide (e.1 = invoice.index)).map
      Prod.snd).filter (fun x => decide (x.height = none)) = [] := by
    rw [List.filter_eq_nil_iff]
    intro x hx
    obtain ⟨e, he, rfl⟩ := List.mem_map.mp hx
    have hmem := List.mem_of_mem_filter he
    rw [hs.blocks.transfers] at hmem
    obtain ⟨i, -, hmem⟩ := List.mem_flatMap.mp hmem
    simp [Scanner.height_of_mem_blockTransfers hmem]
  have hpool : ((t.txpoolAmounts.filter fun e => decide (e.1 = invoice.index)).map
      Prod.snd).filter (fun x => decide (x.height = none))
        = (t.txpoolAmounts.filter fun e => decide (e.1 = invoice.index)).map Prod.snd := by
    rw [List.filter_eq_self]
    intro x hx
    obtain ⟨e, he, rfl⟩ := List.mem_map.mp hx
    simp [hinPool e (List.mem_of_mem_filter he)]
  rw [List.filter_append, List.map_append, List.filter_append, hblocks, hpool, List.nil_append,
    hamounts]
  have hflat : ((env.txpoolOrder.order m).flatMap Prod.snd).Perm (pool.flatMap (valuesAt m)) :=
    ((env.txpoolOrder.perm m).flatMap_right _).trans
      (flatMap_values_perm hm.nodup hnodup fun hash h => (hm.mem hash h).1)
  refine ((hflat.filter _).map _).trans ?_
  rw [List.filter_flatMap, List.map_flatMap]

/-- A transaction that has just entered the pool has been scanned for every invoice that the checker
recognises. -/
theorem PoolBooks.entered_for (hb : PoolBooks ledger W g v) (hledger : ∀ h, (ledger h).hash = h)
    (hs : PoolScanned S ledger pool env g g' t)
    {m : List (Hash × List (SubIndex × Transfer))}
    (hm : Remembered ledger g v pool
      (Scanner.txpoolTransfers (foundIn S env.checker t.found t.newTransactions)) m)
    {invoice : Invoice} (hmem : invoice ∈ g.invoices)
    (hcover : env.checker.covers invoice.index = true) {hash : Hash} (hpool : hash ∈ pool)
    (hv : hash ∉ v.pool) :
    RecordedFor g'.keys invoice.index (unlockedOutputs [ledger hash]) ∧
      ((valuesAt m hash).filter fun e => decide (e.1 = invoice.index)).map Prod.snd
        = (acceptedAmounts g'.keys invoice.index (unlockedOutputs [ledger hash])).map
          fun amount => ⟨amount, none⟩ := by
  obtain ⟨hnodup, hnew, -, -⟩ := hs.updated
  have hentered : hash ∈ pool.filter fun hash =>
      decide (hash ∉ AssocMap.keys g.scanner.txpoolCache.transactions) := by
    rw [List.mem_filter, decide_eq_true_iff, hb.cached]
    exact ⟨hpool, hv⟩
  -- Of the fetched transactions exactly one has this hash.
  have hone := filter_ledger_hash hledger (hnodup.filter _) hnew hash
  rw [if_pos hentered] at hone
  refine ⟨fun p hp => ?_, ?_⟩
  · -- All outputs of fetched transactions that the checker finds have been recorded.
    have hall := recordedFor_of_recorded hcover hs.txpool.recorded
    rw [← hs.keys_eq] at hall
    refine hall p ?_
    have htx : ledger hash ∈ t.newTransactions :=
      hnew.mem_iff.mpr (List.mem_map_of_mem hentered)
    simp only [unlockedOutputs, List.mem_flatMap, List.mem_filter, List.mem_singleton] at hp ⊢
    obtain ⟨tx, ⟨rfl, hlock⟩, hp⟩ := hp
    exact ⟨_, ⟨htx, hlock⟩, hp⟩
  · -- The invoice is tracked during the scan, so nothing sent to it is passed over.
    have htracked : S.containsSubIndex t.found.store.invoices invoice.index = true := by
      rw [hs.grows.invoices]
      exact S.complete hmem
    rw [hm.entered hash hpool hv, discovered_at htracked hcover, hone, ← hs.keys_eq]

/-- **What is remembered for one watched invoice under one hash**: the accepted outputs to it of a
transaction that has been scanned and that entered while the invoice was tracked, else nothing. -/
theorem PoolBooks.remembered_for (hb : PoolBooks ledger W g v) (hledger : ∀ h, (ledger h).hash = h)
    (hs : PoolScanned S ledger pool env g g' t) (hwatches : g.Watches W env)
    (hreused : NotReused W g v pool) {m : List (Hash × List (SubIndex × Transfer))}
    (hm : Remembered ledger g v pool
      (Scanner.txpoolTransfers (foundIn S env.checker t.found t.newTransactions)) m)
    {invoice : Invoice} (hmem : invoice ∈ g.invoices) (hid : invoice.id ∈ W) {hash : Hash}
    (hpool : hash ∈ pool) :
    (((valuesAt m hash).filter fun e => decide (e.1 = invoice.index)).map Prod.snd).Perm
      (if hash ∉ v.unscanned ∧ invoice.id ∈ (v.next pool g.shared.store.getIds).entry hash then
        (acceptedAmounts g'.keys invoice.index (unlockedOutputs [ledger hash])).map
          fun amount => ⟨amount, none⟩
      else []) := by
  by_cases hv : hash ∈ v.pool
  · -- The transaction was in the pool before, and what is remembered of it stays.
    rw [hm.old hash hpool hv]
    simp only [PoolView.next, if_pos hv]
    by_cases hu : hash ∈ v.unscanned
    · have hnone : hash ∉ AssocMap.keys g.scanner.txpoolCache.discoveredTransfers :=
        fun h => (hb.mem hash h).2 hu
      rw [if_neg fun h => h.1 hu, valuesAt_eq_nil_of_not_mem hnone]
      exact .refl _
    · by_cases hentry : invoice.id ∈ v.entry hash
      · have hsame : acceptedAmounts g'.keys invoice.index (unlockedOutputs [ledger hash])
            = acceptedAmounts g.keys invoice.index (unlockedOutputs [ledger hash]) :=
          hs.keysKept.acceptedAmounts_for (hb.recorded hash hv hu _ hentry hid)
        rw [if_pos ⟨hu, hentry⟩, hsame]
        exact hb.counted hash hv hu _ hentry hid
      · have hother := hreused hash hv hpool invoice hmem hid hentry
        rw [if_neg fun h => hentry h.2, List.filter_eq_nil_iff.mpr
          fun x hx => by simpa using hother x hx]
        exact .refl _
  · -- The transaction has just entered the pool.
    have hentry : invoice.id ∈ g.shared.store.getIds := List.mem_map_of_mem hmem
    have hu : hash ∉ v.unscanned := fun h => hv (hb.unscanned hash h)
    simp only [PoolView.next, if_neg hv, if_pos (show _ ∧ _ from ⟨hu, hentry⟩)]
    exact .of_eq (hb.entered_for hledger hs hm hmem (hwatches invoice hmem hid) hpool hv).2

/-- **Going over the pool keeps the invariant.** -/
theorem PoolBooks.poolScan (hb : PoolBooks ledger W g v) (hledger : ∀ h, (ledger h).hash = h)
    (hs : PoolScanned S ledger pool env g g' t) (hwatches : g.Watches W env) :
    PoolBooks ledger W g' (v.next pool g.shared.store.getIds) := by
  obtain ⟨-, hm'⟩ := hb.remembered hledger hs
  obtain ⟨-, hnew, htxs, hdisc⟩ := hs.updated
  have hinPool : ∀ e ∈ t.txpoolCache.discoveredTransfers, Scanner.InPool e.2 := by
    rw [hdisc]
    exact fun e he => hb.inPool e (List.mem_of_mem_filter he)
  have hscannedOld : ∀ hash ∈ pool, hash ∉ (v.next pool g.shared.store.getIds).unscanned →
      hash ∉ v.unscanned :=
    fun hash hp hu hold => hu (List.mem_filter.mpr ⟨hold, by simpa using hp⟩)
  -- The cached transactions, where remembered hashes lie, the unscanned ones, and then per hash:
  -- what is recorded and what is counted.
  refine ⟨?_, hm'.nodup, (hs.txpool.inPool hinPool).2, ?_, ?_, ?_, ?_⟩
  · intro hash
    have hentered : hash ∈ t.newTransactions.map (·.hash) ↔
        hash ∈ pool ∧ hash ∉ AssocMap.keys g.scanner.txpoolCache.transactions := by
      have hcomp : (fun tx : Transaction => tx.hash) ∘ ledger = id := funext hledger
      rw [(hnew.map _).mem_iff, List.map_map, hcomp, List.map_id, List.mem_filter,
        decide_eq_true_iff]
    rw [hs.txpool.cache, TxpoolCache.insertTransfers, htxs, mem_keys_extend, mem_keys_retain,
      keys_byHash, decide_eq_true_iff, hentered, PoolView.next]
    tauto
  · intro hash hmem
    exact ⟨(hm'.mem hash hmem).1, fun hu => (hm'.mem hash hmem).2 (List.mem_of_mem_filter hu)⟩
  · intro hash hmem
    exact of_decide_eq_true (List.mem_filter.mp hmem).2
  · intro hash hp hu id hentry hid
    by_cases hv : hash ∈ v.pool
    · simp only [PoolView.next, if_pos hv] at hentry
      exact hs.keysKept.recordedFor (hb.recorded hash hv (hscannedOld hash hp hu) id hentry hid)
    · simp only [PoolView.next, if_neg hv] at hentry
      obtain ⟨invoice, hmem, rfl⟩ := List.mem_map.mp hentry
      exact (hb.entered_for hledger hs hm' hmem (hwatches invoice hmem hid) hp hv).1
  · intro hash hp hu id hentry hid
    by_cases hv : hash ∈ v.pool
    · -- It was there before: the keys recorded since change nothing for it.
      simp only [PoolView.next, if_pos hv] at hentry
      have hu' := hscannedOld hash hp hu
      have hsame : acceptedAmounts g'.keys id.subIndex (unlockedOutputs [ledger hash])
          = acceptedAmounts g.keys id.subIndex (unlockedOutputs [ledger hash]) :=
        hs.keysKept.acceptedAmounts_for (hb.recorded hash hv hu' id hentry hid)
      rw [hm'.old hash hp hv, hsame]
      exact hb.counted hash hv hu' id hentry hid
    · simp only [PoolView.next, if_neg hv] at hentry
      obtain ⟨invoice, hmem, rfl⟩ := List.mem_map.mp hentry
      exact .of_eq (hb.entered_for hledger hs hm' hmem (hwatches invoice hmem hid) hp hv).2

/-- The outputs of a scanned transaction are recorded for every watched invoice for which it
counts. -/
theorem PoolBooks.recordedFor_scanned (hb : PoolBooks ledger W g v)
    (hledger : ∀ h, (ledger h).hash = h) (hs : PoolScanned S ledger pool env g g' t)
    (hwatches : g.Watches W env) {invoice : Invoice} (hmem : invoice ∈ g.invoices)
    (hid : invoice.id ∈ W) {hash : Hash} (hpool : hash ∈ pool) (hu : hash ∉ v.unscanned)
    (hentry : invoice.id ∈ (v.next pool g.shared.store.getIds).entry hash) :
    RecordedFor g'.keys invoice.index (unlockedOutputs [ledger hash]) := by
  by_cases hv : hash ∈ v.pool
  · simp only [PoolView.next, if_pos hv] at hentry
    exact hs.keysKept.recordedFor (hb.recorded hash hv hu _ hentry hid)
  · exact (hb.entered_for hledger hs (hb.remembered hledger hs).1 hmem (hwatches invoice hmem hid)
      hpool hv).1

/-- The outputs that count for a watched invoice are the accepted ones of scanned transactions, if
none has been missed. -/
theorem PoolBooks.acceptable_of_noneMissed (hb : PoolBooks ledger W g v)
    (hledger : ∀ h, (ledger h).hash = h) (hs : PoolScanned S ledger pool env g g' t)
    (hwatches : g.Watches W env) (hmissed : NoneMissed ledger W g v pool) {invoice : Invoice}
    (hmem : invoice ∈ g.invoices) (hid : invoice.id ∈ W) {hash : Hash} (hpool : hash ∈ pool)
    (hentry : invoice.id ∈ (v.next pool g.shared.store.getIds).entry hash) :
    acceptableAmounts g'.keys invoice.index (unlockedOutputs [ledger hash])
      = if hash ∉ v.unscanned then
          acceptedAmounts g'.keys invoice.index (unlockedOutputs [ledger hash])
        else [] := by
  by_cases hu : hash ∈ v.unscanned
  · have hv := hb.unscanned hash hu
    simp only [PoolView.next, if_pos hv] at hentry
    rw [if_neg (not_not.mpr hu), acceptableAmounts, List.filterMap_eq_nil_iff]
    intro p hp
    rw [if_neg]
    rintro ⟨hacc, hidx⟩
    have hnot := hmissed hash hu hpool invoice hmem hid hentry p hp hidx
    have hsome : g.keys p.2.key ≠ none := fun h => hnot (.inl h)
    exact hnot ((hs.keysKept.acceptable_iff hsome).mp hacc)
  · rw [if_pos hu, acceptableAmounts_eq
      (hb.recordedFor_scanned hledger hs hwatches hmem hid hpool hu hentry)]

/-- The pool transfers that a scan settles a watched invoice with. -/
theorem PoolBooks.settle_pool (hb : PoolBooks ledger W g v) (hledger : ∀ h, (ledger h).hash = h)
    (hs : Scanned S env g g' t)
    (hupd : PoolUpdated ledger pool g.scanner.txpoolCache t.newTransactions t.txpoolCache)
    (hwatches : g.Watches W env) (hreused : NotReused W g v pool) {invoice : Invoice}
    (hmem : invoice ∈ g.invoices) (hid : invoice.id ∈ W) :
    (((Scanner.settle (t.blocksAmounts ++ t.txpoolAmounts) g'.cache.height (deepestUpdate g' t)
        invoice).transfersAt none).map (·.amount)).Perm
      (pool.flatMap fun hash =>
        if hash ∉ v.unscanned ∧ invoice.id ∈ (v.next pool g.shared.store.getIds).entry hash then
          acceptedAmounts g'.keys invoice.index (unlockedOutputs [ledger hash])
        else []) := by
  have hps := hs.poolScanned hupd
  obtain ⟨hm, -⟩ := hb.remembered hledger hps
  obtain ⟨hinPool, -⟩ := hs.txpool.inPool fun e he =>
    hb.inPool e (Scanner.mem_discovered_of_update hs.txpoolCache he)
  have hpool := hs.settle_poolTransfers hupd.nodup hm hinPool hs.txpool.transfers invoice
  have heach := hpool.trans (List.Perm.flatMap_left pool fun hash hp =>
    hb.remembered_for hledger hps hwatches hreused hm hmem hid hp)
  refine (heach.map (·.amount)).trans (.of_eq ?_)
  rw [List.map_flatMap]
  refine List.flatMap_congr fun hash _ => ?_
  split
  · rw [List.map_map]
    exact List.map_id _
  · rfl

/-- **A scan credits the pool exactly** to the watched invoices, if it misses no payment and no index
has been reused. -/
theorem PoolBooks.scan_exact (hb : PoolBooks ledger W g v) (hledger : ∀ h, (ledger h).hash = h)
    (hserves : ServesPool ledger pool env.client) (hfaults : env.faults = {})
    (hwatches : g.Watches W env) (hmissed : NoneMissed ledger W g v pool)
    (hreused : NotReused W g v pool) (h : g.scan S env = (.ok (), g')) :
    ∀ invoice ∈ g'.invoices, invoice.id ∈ W → ((invoice.transfersAt none).map (·.amount)).Perm
      ((v.next pool g.shared.store.getIds).amountsFor ledger g'.keys invoice) := by
  obtain ⟨t, hs⟩ := scan_ok h
  have hupd := update_serves hserves hs.txpoolCache
  have hps := hs.poolScanned hupd
  intro invoice hmem hid
  rw [hs.invoices_eq hfaults] at hmem
  obtain ⟨old, hold, rfl⟩ := List.mem_map.mp hmem
  have hterms := Scanner.settle_sameTerms (t.blocksAmounts ++ t.txpoolAmounts) g'.cache.height
    (deepestUpdate g' t) old
  rw [hterms.id] at hid
  refine (hb.settle_pool hledger hs hupd hwatches hreused hold hid).trans (.of_eq ?_)
  rw [PoolView.amountsFor, hterms.id, hterms.index, flatMap_filter_eq]
  refine List.flatMap_congr fun hash hp => ?_
  by_cases hentry : old.id ∈ (v.next pool g.shared.store.getIds).entry hash
  · simp only [hentry, and_true, decide_true, if_true]
    exact (hb.acceptable_of_noneMissed hledger hps hwatches hmissed hold hid hp hentry).symm
  · rw [if_neg fun h => hentry h.2, if_neg (by simpa using hentry)]

end Scan

/-! ## Whole runs -/

section Run

variable {S : Backend} {ledger : Hash → Transaction} {W : Set InvoiceId}

/-- Starting on a daemon's pool. -/
theorem PoolBooks.start {client : MonerodClient} {store : Store} {n : ℕ}
    {initialHeight : Option ℕ} {g : Gateway} {pool : List Hash}
    (hledger : ∀ h, (ledger h).hash = h) (hpool : client.txpool = .ok (pool.map ledger))
    (h : Gateway.start client store n initialHeight = .ok g) :
    PoolBooks ledger W g (PoolView.start pool store) := by
  obtain ⟨d, hs⟩ := start_ok h
  have hcache : g.scanner.txpoolCache = ⟨byHash (pool.map ledger), []⟩ := by
    have hinit := hs.txpoolCache
    rw [TxpoolCache.init, hpool] at hinit
    exact (Except.ok.inj hinit).symm
  have hcomp : (fun tx : Transaction => tx.hash) ∘ ledger = id := funext hledger
  refine ⟨fun hash => ?_, ?_, ?_, ?_, fun hash h => h, fun hash hp hu => absurd hp hu,
    fun hash hp hu => absurd hp hu⟩
  · rw [hcache, keys_byHash, List.map_map, hcomp, List.map_id]
    rfl
  · rw [hcache]
    exact List.nodup_nil
  · rw [hcache]
    exact fun e he => absurd he (by simp)
  · rw [hcache]
    exact fun hash hmem => absurd hmem (by simp)

/-- **Every step of such a run keeps the invariant.** -/
theorem PoolBooks.step (hledger : ∀ h, (ledger h).hash = h) {c c' : Gateway × PoolView}
    (hb : PoolBooks ledger W c.1 c.2) (h : PoolStep S ledger W c c') :
    PoolBooks ledger W c'.1 c'.2 := by
  cases h with
  | scan hserves hfaults hwatches h =>
      obtain ⟨t, hs⟩ := scan_ok h
      exact hb.poolScan hledger (hs.poolScanned (update_serves hserves hs.txpoolCache)) hwatches
  | newInvoice h =>
      -- The invariant does not speak of the stored invoices.
      obtain ⟨hscanner, hkeys, -, -⟩ := newInvoice_ok h
      refine ⟨?_, ?_, ?_, ?_, hb.unscanned, ?_, ?_⟩
      · rw [hscanner]
        exact hb.cached
      · rw [hscanner]
        exact hb.nodup
      · rw [hscanner]
        exact hb.inPool
      · rw [hscanner]
        exact hb.mem
      · rw [hkeys]
        exact hb.recorded
      · rw [hscanner, hkeys]
        exact hb.counted
  | removeInvoice id =>
      exact ⟨hb.cached, hb.nodup, hb.inPool, hb.mem, hb.unscanned, hb.recorded, hb.counted⟩

/-- Every state of such a run satisfies the invariant. -/
theorem PoolBooks.run (hledger : ∀ h, (ledger h).hash = h) {c c' : Gateway × PoolView}
    (hb : PoolBooks ledger W c.1 c.2) (h : Relation.ReflTransGen (PoolStep S ledger W) c c') :
    PoolBooks ledger W c'.1 c'.2 := by
  induction h with
  | refl => exact hb
  | tail _ hstep ih => exact ih.step hledger hstep

/-- **Txpool exactness.** In every failure-free run from `Scanner::new` that has watched an invoice
while it was stored, after every scan that misses no pool payment to it and finds none that was
remembered for its index before it was tracked, its pool transfers are the accepted outputs to its
index in those transactions of the daemon's pool that entered while it was tracked, or that were in
the pool at the start when it was stored: each once, and none from transactions that have left. -/
theorem txpool_exact {client : MonerodClient} {store : Store} {n : ℕ} {initialHeight : Option ℕ}
    {pool₀ pool : List Hash} {g₀ g g' : Gateway} {v : PoolView} {env : ScanEnv}
    (hledger : ∀ h, (ledger h).hash = h) (hpool : client.txpool = .ok (pool₀.map ledger))
    (hstart : Gateway.start client store n initialHeight = .ok g₀)
    (hrun : Relation.ReflTransGen (PoolStep S ledger W) (g₀, PoolView.start pool₀ store) (g, v))
    (hserves : ServesPool ledger pool env.client) (hfaults : env.faults = {})
    (hwatches : g.Watches W env) (hmissed : NoneMissed ledger W g v pool)
    (hreused : NotReused W g v pool) (hscan : g.scan S env = (.ok (), g')) :
    ∀ invoice ∈ g'.invoices, invoice.id ∈ W → ((invoice.transfersAt none).map (·.amount)).Perm
      ((v.next pool g.shared.store.getIds).amountsFor ledger g'.keys invoice) := by
  have hb : PoolBooks ledger W g v :=
    (PoolBooks.start hledger hpool hstart : PoolBooks ledger W _ _).run hledger hrun
  exact hb.scan_exact hledger hserves hfaults hwatches hmissed hreused hscan

end Run

/-- A daemon serves the pool it has. -/
theorem servesPool_client {ledger : Hash → Transaction} (hledger : ∀ h, (ledger h).hash = h)
    {pool : List Hash} (hnodup : pool.Nodup) (chain : List (Hash × List Transaction)) :
    ServesPool ledger pool (Daemon.mk chain (pool.map ledger)).client where
  nodup := hnodup
  hashes := by simp [Daemon.client, Function.comp_def, hledger]
  byHashes := by
    intro hashes hsub
    suffices hfound : ∀ hash ∈ hashes,
        (pool.map ledger).find? (fun tx => decide (tx.hash = hash)) = some (ledger hash) from
      ⟨_, rfl, List.Perm.of_eq ((List.filterMap_congr hfound).trans
        (congrFun List.filterMap_eq_map hashes))⟩
    intro hash hmem
    cases hfind : (pool.map ledger).find? fun tx => decide (tx.hash = hash) with
    | none =>
        rw [List.find?_eq_none] at hfind
        exact absurd (hledger hash)
          (by simpa using hfind (ledger hash) (List.mem_map_of_mem (hsub hmem)))
    | some tx =>
        obtain ⟨h, -, rfl⟩ := List.mem_map.mp (List.mem_of_find?_eq_some hfind)
        have hhash := List.find?_some hfind
        rw [decide_eq_true_iff, hledger] at hhash
        rw [hhash]

/-- The ledger in which every transaction pays 5 piconeros to index 1. -/
def fives (hash : Hash) : Transaction := payment hash 5

/-- A daemon with some of these transactions in the pool. -/
def pooled (pool : List Hash) : Daemon := ⟨[(10, []), (11, []), (12, [])], pool.map fives⟩

/-- The ledger in which transaction 3 pays to index 2, and every other one to index 1. -/
def mixed (hash : Hash) : Transaction :=
  if hash = 3 then ⟨3, 0, [⟨0, ⟨3⟩, ⟨0, 2⟩, some 5⟩]⟩ else payment hash 5

theorem hash_mixed (hash : Hash) : (mixed hash).hash = hash := by
  unfold mixed
  split
  · rename_i h
    exact h.symm
  · rfl

/-- A daemon with some of its transactions in the pool. -/
def mixedPool (pool : List Hash) : Daemon := ⟨[(10, []), (11, []), (12, [])], pool.map mixed⟩

/-- A gateway that has found a pool at its start, and scanned it. -/
def poolScanned : Gateway := (smallStart (mixedPool [3]) smallStore).afterScan (mixedPool [3])

/-- What it has seen of the pool. -/
def poolSeen : PoolView :=
  (PoolView.start [3] smallStore).next [3] (smallStart (mixedPool [3]) smallStore).shared.store.getIds

/-- A payment that enters the pool after the first scan is credited by the second one, beside a
transaction that has been in the pool since the start and pays somebody else. -/
theorem txpool_exact_entering :
    (poolScanned.afterScan (mixedPool [3, 7])).invoices.map (·.transfers) = [[⟨5, none⟩]] ∧
      ∀ invoice ∈ (poolScanned.afterScan (mixedPool [3, 7])).invoices,
        ((invoice.transfersAt none).map (·.amount)).Perm
          ((poolSeen.next [3, 7] poolScanned.shared.store.getIds).amountsFor mixed
            (poolScanned.afterScan (mixedPool [3, 7])).keys invoice) := by
  have hstart : Gateway.start (mixedPool [3]).client smallStore 2 none
      = .ok (smallStart (mixedPool [3]) smallStore) := rfl
  have hscan : (smallStart (mixedPool [3]) smallStore).scan .exact (plainEnv (mixedPool [3]))
      = (.ok (), poolScanned) := scan_eq_afterScan (by decide +kernel)
  have hscan' : poolScanned.scan .exact (plainEnv (mixedPool [3, 7]))
      = (.ok (), poolScanned.afterScan (mixedPool [3, 7])) := scan_eq_afterScan (by decide +kernel)
  have hstep : PoolStep .exact mixed Set.univ
      (smallStart (mixedPool [3]) smallStore, PoolView.start [3] smallStore)
      (poolScanned, poolSeen) :=
    .scan (servesPool_client hash_mixed (List.nodup_singleton _) _) rfl
      (.of_covers (by decide +kernel) _) hscan
  have hunscanned : poolSeen.unscanned = [3] := by decide +kernel
  have hothers : ∀ invoice ∈ poolScanned.invoices, ∀ p ∈ unlockedOutputs [mixed 3],
      p.2.subIndex ≠ invoice.index := by decide +kernel
  have hmissed : NoneMissed mixed Set.univ poolScanned poolSeen [3, 7] := by
    intro hash hu _ invoice hmem _ _ p hp hindex
    rw [hunscanned, List.mem_singleton] at hu
    rw [hu] at hp
    exact absurd hindex (hothers invoice hmem p hp)
  have hnothing : valuesAt poolScanned.scanner.txpoolCache.discoveredTransfers 3 = [] := by
    decide +kernel
  have hreused : NotReused Set.univ poolScanned poolSeen [3, 7] := by
    intro hash hv _ invoice _ _ _ x hx
    obtain rfl := List.mem_singleton.mp (hv : hash ∈ [3])
    rw [hnothing] at hx
    cases hx
  refine ⟨by decide +kernel, fun invoice hmem => ?_⟩
  exact txpool_exact hash_mixed rfl hstart (.single hstep)
    (servesPool_client hash_mixed (by decide) _) rfl (.of_covers (by decide +kernel) _) hmissed
    hreused hscan' invoice hmem (Set.mem_univ _)

/-- **A payment that is in the pool at the start is never credited**: the invoice it pays is stored,
the scan succeeds, and the invoice has no transfers. -/
theorem txpool_payment_missed :
    Gateway.start (pooled [7]).client smallStore 2 none = .ok (smallStart (pooled [7]) smallStore) ∧
    ServesPool fives [7] (plainEnv (pooled [7])).client ∧
    (smallStart (pooled [7]) smallStore).scan .exact (plainEnv (pooled [7]))
      = (.ok (), (smallStart (pooled [7]) smallStore).afterScan (pooled [7])) ∧
    ((smallStart (pooled [7]) smallStore).afterScan (pooled [7])).invoices.map (·.transfers)
      = [[]] ∧
    ¬ ∀ invoice ∈ ((smallStart (pooled [7]) smallStore).afterScan (pooled [7])).invoices,
      ((invoice.transfersAt none).map (·.amount)).Perm
        (((PoolView.start [7] smallStore).next [7]
            (smallStart (pooled [7]) smallStore).shared.store.getIds).amountsFor fives
          ((smallStart (pooled [7]) smallStore).afterScan (pooled [7])).keys invoice) :=
  ⟨rfl, servesPool_client (fun _ => rfl) (List.nodup_singleton _) _,
    scan_eq_afterScan (by decide +kernel), by decide +kernel, by decide +kernel⟩

end Gateway

end AcceptXmr
