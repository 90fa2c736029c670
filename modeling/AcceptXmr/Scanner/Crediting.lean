import AcceptXmr.Scanner.Readable

/-! # Exact crediting

What a scan finds in a cached block is what it credits to an invoice at that height, through
advances, reorgs and scans without a new block.

* **`Credited`** — the invariant: in the cached window, the transfers of an invoice are the accepted
  outputs to its index, and none below its creation height.
* **`Ledger.step`** — every step of a failure-free run keeps it.
* **`scan_credits_exactly`** — after every scan of such a run it holds for every stored invoice. -/

namespace AcceptXmr

open AssocMap
open scoped List

/-! ## Outputs to one index -/

/-- The wallet's outputs in the transactions without a time lock. -/
def unlockedOutputs (transactions : List Transaction) : List (Hash × OwnedTxOut) :=
  (transactions.filter fun tx => tx.unlockTime = 0).flatMap fun tx =>
    tx.outputs.map fun output => (tx.hash, output)

/-- The outputs to one index have recorded keys. -/
def RecordedFor (keys : OutputPubKey → Option OutputId) (index : SubIndex)
    (outputs : List (Hash × OwnedTxOut)) : Prop :=
  ∀ p ∈ outputs, p.2.subIndex = index → keys p.2.key ≠ none

/-- What a checker finds among the wallet's outputs. -/
theorem ownedOutputs_eq_filter (checker : SubKeyChecker) (transactions : List Transaction) :
    ownedOutputs checker transactions
      = (unlockedOutputs transactions).filter fun p => checker.covers p.2.subIndex := by
  simp only [ownedOutputs, unlockedOutputs, List.filter_flatMap, List.filter_map,
    Transaction.checkOutputsWith]
  rfl

/-- A checker that covers an index misses no output to it. -/
theorem acceptedAmounts_ownedOutputs (keys : OutputPubKey → Option OutputId) {index : SubIndex}
    {checker : SubKeyChecker} (hc : checker.covers index = true) (transactions : List Transaction) :
    acceptedAmounts keys index (ownedOutputs checker transactions)
      = acceptedAmounts keys index (unlockedOutputs transactions) := by
  rw [ownedOutputs_eq_filter, acceptedAmounts, acceptedAmounts, List.filterMap_filter]
  refine List.filterMap_congr fun p _ => ?_
  by_cases hp : p.2.subIndex = index
  · simp [hp, hc]
  · simp [hp]

theorem recordedFor_of_recorded {keys : OutputPubKey → Option OutputId} {index : SubIndex}
    {checker : SubKeyChecker} (hc : checker.covers index = true) {transactions : List Transaction}
    (h : Recorded keys (ownedOutputs checker transactions)) :
    RecordedFor keys index (unlockedOutputs transactions) := by
  intro p hp hidx
  refine h p ?_
  rw [ownedOutputs_eq_filter, List.mem_filter, hidx]
  exact ⟨hp, hc⟩

/-- For recorded outputs, later keys accept the same. -/
theorem KeysKept.acceptedAmounts_for {s s' : Shared} (h : KeysKept s s') {index : SubIndex}
    {outputs : List (Hash × OwnedTxOut)} (hr : RecordedFor s.store.outputKeys index outputs) :
    acceptedAmounts s'.store.outputKeys index outputs
      = acceptedAmounts s.store.outputKeys index outputs := by
  refine List.filterMap_congr fun p hp => ?_
  by_cases hidx : p.2.subIndex = index
  · simp only [h.accepted_iff (hr p hp hidx)]
  · simp [hidx]

theorem KeysKept.recordedFor {s s' : Shared} (h : KeysKept s s') {index : SubIndex}
    {outputs : List (Hash × OwnedTxOut)} (hr : RecordedFor s.store.outputKeys index outputs) :
    RecordedFor s'.store.outputKeys index outputs := by
  intro p hp hidx
  rw [h.eq_of_ne_none (hr p hp hidx)]
  exact hr p hp hidx

/-! ## What a scan finds for one index -/

/-- The amounts found for a tracked index are those of the accepted outputs to it. -/
theorem received_for (keys : OutputPubKey → Option OutputId) {tracks : SubIndex → Bool}
    {index : SubIndex} (htracked : tracks index = true) (outputs : List (Hash × OwnedTxOut)) :
    ((received keys tracks outputs).filter fun e => e.2.subIndex = index).map (fun e => e.2.amount)
      = acceptedAmounts keys index outputs := by
  induction outputs with
  | nil => rfl
  | cons p outputs ih =>
      rw [received, List.filterMap_cons, ← received, acceptedAmounts, List.filterMap_cons,
        ← acceptedAmounts]
      by_cases hidx : p.2.subIndex = index
      · by_cases hacc : Accepted keys p
        · cases hamount : p.2.amount with
          | none => simp [hidx, hacc, htracked, receivedWith, hamount, ih]
          | some amount => simp [hidx, hacc, htracked, receivedWith, hamount, ih]
        · simp [hacc, ih]
      · by_cases hrec : Accepted keys p ∧ tracks p.2.subIndex = true
        · cases hamount : p.2.amount with
          | none => simp [hidx, hrec, receivedWith, hamount, ih]
          | some amount => simp [hidx, hrec, receivedWith, hamount, ih]
        · simp [hidx, hrec, ih]

/-- What is found in some transactions for a tracked index, in any iteration order. -/
theorem foundIn_for {S : Backend} (checker : SubKeyChecker) {s : Shared} {index : SubIndex}
    (htracked : S.containsSubIndex s.store.invoices index = true)
    (transactions : List Transaction) (order : IterOrder (Hash × List OwnedAmount))
    (height : Option ℕ) :
    ((((order.order (foundIn S checker s transactions)).flatMap fun e =>
        e.2.map fun a => (a.subIndex, (⟨a.amount, height⟩ : Transfer))).filter
          fun e => decide (e.1 = index)).map Prod.snd).Perm
      ((acceptedAmounts s.store.outputKeys index (ownedOutputs checker transactions)).map
        fun amount => ⟨amount, height⟩) := by
  set es := received s.store.outputKeys (S.containsSubIndex s.store.invoices)
    (ownedOutputs checker transactions) with hes
  have hflat : ((order.order (foundIn S checker s transactions)).flatMap fun e =>
      e.2.map fun a => (a.subIndex, (⟨a.amount, height⟩ : Transfer))).Perm
        (es.map fun e => (e.2.subIndex, ⟨e.2.amount, height⟩)) := by
    refine ((order.perm _).flatMap_right _).trans ?_
    have hpush := (flatMap_pushEntries_perm [] es).map
      fun a => (a.subIndex, (⟨a.amount, height⟩ : Transfer))
    rw [List.map_flatMap, List.flatMap_nil, List.nil_append, List.map_map] at hpush
    exact hpush
  refine ((hflat.filter _).map _).trans ?_
  rw [List.filter_map, List.map_map, ← received_for _ htracked, List.map_map]
  exact .refl _

/-- A list of blocks in which only one counts. -/
theorem flatMap_range_reverse_ite {α : Type} (count j : ℕ) (f : ℕ → List α) :
    ((List.range count).reverse.flatMap fun i => if i = j then f i else [])
      = if j < count then f j else [] := by
  induction count with
  | zero => simp
  | succ i ih =>
      rw [List.range_succ, List.reverse_append, List.reverse_singleton, List.singleton_append,
        List.flatMap_cons, ih]
      rcases Nat.lt_trichotomy j i with h | rfl | h
      · simp [h, Nat.lt_succ_of_lt h, (Nat.ne_of_lt h).symm]
      · simp
      · simp [Nat.not_lt.mpr (Nat.le_of_lt h), (Nat.ne_of_lt h), Nat.not_lt.mpr h]

namespace Scanner

/-- All transfers of a list are in the txpool. -/
def InPool (transfers : List (SubIndex × Transfer)) : Prop := ∀ e ∈ transfers, e.2.height = none

/-- Everything found in the `i`-th block stands at its height. -/
theorem height_of_mem_blockTransfers {env : ScanEnv} {cache : BlockCache} {i : ℕ}
    {amountsReceived : List (Hash × List OwnedAmount)} {e : SubIndex × Transfer}
    (he : e ∈ blockTransfers env cache i amountsReceived) :
    e.2.height = some (U64.sub cache.height i) := by
  obtain ⟨x, -, he⟩ := List.mem_flatMap.mp he
  obtain ⟨a, -, rfl⟩ := List.mem_map.mp he
  rfl

/-- **What a scan finds at one height.** For a tracked index and a height among the scanned blocks,
the accepted outputs to the index in the block at that height; elsewhere nothing. -/
theorem found_at {S : Backend} {env : ScanEnv} {cache : BlockCache} {count : ℕ}
    {blocksAmounts txpoolAmounts : List (SubIndex × Transfer)} {s : Shared} {index : SubIndex}
    (hblocks : BlocksScanned S env cache count blocksAmounts s) (hcount : count ≤ cache.height + 1)
    (hpool : InPool txpoolAmounts) (htracked : S.containsSubIndex s.store.invoices index = true)
    (b : ℕ) :
    ((((blocksAmounts ++ txpoolAmounts).filter fun e => decide (e.1 = index)).map Prod.snd).filter
        fun t => decide (t.height = some b)).Perm
      (if b ≤ cache.height ∧ cache.height < b + count then
        (acceptedAmounts s.store.outputKeys index
          (ownedOutputs env.checker (cachedTransactions cache (cache.height - b)))).map
            fun amount => ⟨amount, some b⟩
      else []) := by
  have hpool' : ((txpoolAmounts.filter fun e => decide (e.1 = index)).map Prod.snd).filter
      (fun t => decide (t.height = some b)) = [] := by
    rw [List.filter_eq_nil_iff]
    intro t ht
    obtain ⟨e, he, rfl⟩ := List.mem_map.mp ht
    simp [hpool e (List.mem_of_mem_filter he)]
  rw [List.filter_append, List.map_append, List.filter_append, hpool', List.append_nil,
    hblocks.transfers, List.filter_flatMap, List.map_flatMap, List.filter_flatMap]
  -- Only the block at height `b` contributes.
  have hone : ∀ i ∈ (List.range count).reverse,
      (((blockTransfers env cache i (foundIn S env.checker s (cachedTransactions cache i))).filter
        fun e => decide (e.1 = index)).map Prod.snd).filter (fun t => decide (t.height = some b))
      = if i = cache.height - b then
          if b ≤ cache.height then
            ((blockTransfers env cache i
              (foundIn S env.checker s (cachedTransactions cache i))).filter
                fun e => decide (e.1 = index)).map Prod.snd
          else []
        else [] := by
    intro i hi
    have hi' : i ≤ cache.height := by
      rw [List.mem_reverse, List.mem_range] at hi
      omega
    have hheight : ∀ t ∈ ((blockTransfers env cache i
        (foundIn S env.checker s (cachedTransactions cache i))).filter
          fun e => decide (e.1 = index)).map Prod.snd, t.height = some (cache.height - i) := by
      intro t ht
      obtain ⟨e, he, rfl⟩ := List.mem_map.mp ht
      rw [height_of_mem_blockTransfers (List.mem_of_mem_filter he), U64.sub_of_le hi']
    by_cases hb : cache.height - i = b
    · rw [if_pos (by omega), if_pos (by omega), List.filter_eq_self]
      intro t ht
      simp [hheight t ht, hb]
    · have hnil : ∀ t ∈ ((blockTransfers env cache i
          (foundIn S env.checker s (cachedTransactions cache i))).filter
            fun e => decide (e.1 = index)).map Prod.snd, ¬ decide (t.height = some b) = true := by
        intro t ht
        simp [hheight t ht, hb]
      rw [List.filter_eq_nil_iff.mpr hnil]
      split
      · rw [if_neg (by omega)]
      · rfl
  rw [List.flatMap_congr hone, flatMap_range_reverse_ite]
  by_cases hb : b ≤ cache.height
  · by_cases hw : cache.height < b + count
    · rw [if_pos (by omega), if_pos hb, if_pos ⟨hb, hw⟩]
      have hfound := foundIn_for env.checker htracked
        (cachedTransactions cache (cache.height - b)) (env.blockOrder (cache.height - b)) (some b)
      rw [blockTransfers, U64.sub_of_le (Nat.sub_le _ _), Nat.sub_sub_self hb]
      exact hfound
    · rw [if_neg (by omega), if_neg (fun h => hw h.2)]
  · rw [if_neg (fun h : b ≤ cache.height ∧ _ => hb h.1)]
    split <;> simp

/-- What is found in the pool are transfers in the pool. -/
theorem inPool_txpoolTransfers {amountsReceived : List (Hash × List OwnedAmount)}
    {e : Hash × List (SubIndex × Transfer)} (he : e ∈ txpoolTransfers amountsReceived) :
    InPool e.2 := by
  intro x hx
  obtain ⟨y, -, rfl⟩ := List.mem_map.mp he
  obtain ⟨a, -, rfl⟩ := List.mem_map.mp hx
  rfl

/-- Scanning the pool finds pool transfers only, and remembers pool transfers only. -/
theorem TxpoolScanned.inPool {S : Backend} {env : ScanEnv} {cache cache' : TxpoolCache}
    {newTransactions : List Transaction} {transfers : List (SubIndex × Transfer)} {s : Shared}
    (h : TxpoolScanned S env cache newTransactions transfers cache' s)
    (hcache : ∀ e ∈ cache.discoveredTransfers, InPool e.2) :
    InPool transfers ∧ ∀ e ∈ cache'.discoveredTransfers, InPool e.2 := by
  refine ⟨fun x hx => ?_, fun e he => ?_⟩
  · rw [h.transfers] at hx
    obtain ⟨e, he, hx⟩ := List.mem_flatMap.mp hx
    rcases mem_extend ((env.txpoolOrder.perm _).mem_iff.mp he) with he | he
    · exact inPool_txpoolTransfers he x hx
    · exact hcache e he x hx
  · rw [h.cache] at he
    rcases mem_extend he with he | he
    · exact hcache e he
    · exact inPool_txpoolTransfers he

/-- Updating the pool cache only forgets discovered transfers. -/
theorem mem_discovered_of_update {client : MonerodClient} {cache cache' : TxpoolCache}
    {result : Except RpcError (List Transaction)} (h : cache.update client = (result, cache'))
    {e : Hash × List (SubIndex × Transfer)} (he : e ∈ cache'.discoveredTransfers) :
    e ∈ cache.discoveredTransfers := by
  unfold TxpoolCache.update at h
  split at h
  · cases h
    exact he
  · dsimp only at h
    split at h
    · cases h
      exact List.mem_of_mem_filter he
    · cases h
      exact List.mem_of_mem_filter he

end Scanner

/-! ## The invariant -/

/-- A cached block lies in the window, at its place. -/
theorem BlockCache.blockAt_eq_some {cache : BlockCache} {b : ℕ} {block : Block}
    (h : cache.blockAt b = some block) :
    b ≤ cache.height ∧ cache.height - b < cache.blocks.length ∧
      Scanner.cachedTransactions cache (cache.height - b) = block.transactions := by
  unfold BlockCache.blockAt at h
  split at h
  · rename_i hb
    obtain ⟨hlt, -⟩ := List.getElem?_eq_some_iff.mp h
    exact ⟨hb, hlt, by simp [Scanner.cachedTransactions, h]⟩
  · cases h

/-- **Exact crediting** of one invoice: at every cached height at which it receives, the transfers
are the accepted outputs to its index, all of which are recorded; elsewhere there are none. -/
structure Credited (cache : BlockCache) (keys : OutputPubKey → Option OutputId)
    (invoice : Invoice) : Prop where
  transfers : ∀ b block, cache.blockAt b = some block →
    (invoice.transfersAt (some b)).Perm (if invoice.ReceivesAt b then
      (acceptedAmounts keys invoice.index (unlockedOutputs block.transactions)).map
        fun amount => ⟨amount, some b⟩ else [])
  recorded : ∀ b block, cache.blockAt b = some block → invoice.ReceivesAt b →
    RecordedFor keys invoice.index (unlockedOutputs block.transactions)

namespace Gateway

section Scanned

variable {S : Backend} {env : ScanEnv} {g g' : Gateway} {t : ScanTrace} {n : ℕ}

/-- The stored invoice's index is tracked while the caches are scanned. -/
theorem Scanned.tracked (h : Scanned S env g g' t) {invoice : Invoice}
    (hmem : invoice ∈ g.invoices) :
    S.containsSubIndex t.found.store.invoices invoice.index = true := by
  rw [h.grows.invoices]
  exact S.complete hmem

/-- How far a scan goes into the cache. -/
abbrev scanDepth (g g' : Gateway) (t : ScanTrace) : ℕ :=
  if g.scanner.firstScan then g'.cache.blocks.length else t.blocksUpdated

/-- A scan stays within the chain, covers the updated blocks, and there are blocks to cover. -/
theorem Scanned.scanDepth_le (h : Scanned S env g g' t) (hn : 1 ≤ n)
    (hc : env.client.Consistent) (hv : g.cache.Valid n) :
    scanDepth g g' t ≤ g'.cache.height + 1 ∧ t.blocksUpdated ≤ scanDepth g g' t ∧
      t.blocksUpdated ≤ g'.cache.height := by
  have hupd := BlockCache.update_spec hc hn hv h.blockCache
  have := hupd.count_le_height hv
  have := hupd.valid.height
  have := hupd.valid.length
  have := hupd.count_le
  unfold scanDepth
  split <;> omega

/-- **Settling an invoice credits it exactly**, if it was credited exactly before or if nothing had
been credited before the first scan. -/
theorem Scanned.settle_credited (h : Scanned S env g g' t) (hn : 1 ≤ n)
    (hc : env.client.Consistent) (hv : g.cache.Valid n) (hpool : Scanner.InPool t.txpoolAmounts)
    {invoice : Invoice} (hmem : invoice ∈ g.invoices)
    (hcover : env.checker.covers invoice.index = true)
    (hfirst : g.scanner.firstScan = true → invoice.transfers = [])
    (hcredited : g.scanner.firstScan = false → Credited g.cache g.keys invoice) :
    Credited g'.cache g'.keys (Scanner.settle (t.blocksAmounts ++ t.txpoolAmounts) g'.cache.height
      (deepestUpdate g' t) invoice) := by
  have hupd := BlockCache.update_spec hc hn hv h.blockCache
  obtain ⟨hdepth, hcover_depth, hcount⟩ := h.scanDepth_le hn hc hv
  have hterms := Scanner.settle_sameTerms (t.blocksAmounts ++ t.txpoolAmounts) g'.cache.height
    (deepestUpdate g' t) invoice
  have hlen := hupd.valid.length
  -- The outputs of the blocks that are scanned have been recorded,
  have hrec : ∀ b block, g'.cache.blockAt b = some block →
      g'.cache.height < b + scanDepth g g' t →
      RecordedFor g'.keys invoice.index (unlockedOutputs block.transactions) := by
    intro b block hb hw
    obtain ⟨hle, -, htxs⟩ := BlockCache.blockAt_eq_some hb
    have := h.blocks.recorded (g'.cache.height - b) (by unfold scanDepth at hw; omega)
    rw [htxs] at this
    rw [h.keys_eq]
    exact recordedFor_of_recorded hcover this
  -- and the other blocks were in the cache before.
  have hkept : ∀ b block, g'.cache.blockAt b = some block →
      ¬ g'.cache.height < b + scanDepth g g' t →
      g.scanner.firstScan = false ∧ g.cache.blockAt b = some block := by
    intro b block hb hw
    obtain ⟨hle, hlt, -⟩ := BlockCache.blockAt_eq_some hb
    have hfs : g.scanner.firstScan = false := by
      by_contra hfs
      rw [scanDepth, if_pos (by simpa using hfs)] at hw
      omega
    refine ⟨hfs, ?_⟩
    rw [← hupd.kept b (by omega) (by omega)]
    exact hb
  refine ⟨fun b block hb => ?_, fun b block hb hle => ?_⟩
  · simp only [hterms.receivesAt_iff, hterms.index]
    obtain ⟨hle, hlt, htxs⟩ := BlockCache.blockAt_eq_some hb
    have hset := Scanner.settle_transfersAt (t.blocksAmounts ++ t.txpoolAmounts) g'.cache.height
      (deepestUpdate g' t) invoice (some b)
    have hfound := Scanner.found_at h.blocks hdepth hpool (h.tracked hmem) b
    rw [htxs, ← h.keys_eq, acceptedAmounts_ownedOutputs _ hcover] at hfound
    simp only [Option.some.injEq, forall_eq'] at hset
    refine hset.trans ?_
    rw [deepestUpdate, U64.sub_of_le (Nat.le_add_right_of_le hcount)]
    by_cases hw : g'.cache.height < b + scanDepth g g' t
    · -- The block has been scanned: nothing older stays at its height.
      have hnil : (Scanner.keptTransfers (g'.cache.height + 1 - t.blocksUpdated) invoice).filter
          (fun t => decide (t.height = some b)) = [] := by
        cases hfs : g.scanner.firstScan with
        | true => simp [Scanner.keptTransfers, hfirst hfs]
        | false =>
            rw [scanDepth, hfs, if_neg (by simp)] at hw
            refine Scanner.keptTransfers_filter_of_not_lt invoice fun b' hb' => ?_
            cases hb'
            omega
      rw [hnil, List.nil_append]
      rw [if_pos ⟨hle, hw⟩] at hfound
      split
      · exact hfound
      · exact .refl _
    · -- The block is older: its transfers stay, and nothing is added.
      obtain ⟨hfs, hb'⟩ := hkept b block hb hw
      rw [if_neg (fun h => hw h.2)] at hfound
      rw [scanDepth, hfs, if_neg (by simp)] at hw
      rw [Scanner.keptTransfers_filter_of_lt invoice (by omega), hfound.eq_nil, ite_self,
        List.append_nil]
      refine ((hcredited hfs).transfers b block hb').trans ?_
      split
      · rename_i hcb
        rw [← h.keysKept.acceptedAmounts_for ((hcredited hfs).recorded b block hb' hcb)]
      · exact .refl _
  · rw [hterms.receivesAt_iff] at hle
    rw [hterms.index]
    by_cases hw : g'.cache.height < b + scanDepth g g' t
    · exact hrec b block hb hw
    · obtain ⟨hfs, hb'⟩ := hkept b block hb hw
      exact h.keysKept.recordedFor ((hcredited hfs).recorded b block hb' hle)

end Scanned

/-- **The invariant of failure-free runs** with a cache of size `n`: the watched invoices are
credited exactly from the first scan on, and before it no invoice has any transfers. -/
structure Ledger (n : ℕ) (W : Set InvoiceId) (g : Gateway) : Prop where
  cache : g.cache.Valid n
  pool : ∀ e ∈ g.scanner.txpoolCache.discoveredTransfers, Scanner.InPool e.2
  first : g.scanner.firstScan = true → ∀ invoice ∈ g.invoices, invoice.transfers = []
  credited : g.scanner.firstScan = false → ∀ invoice ∈ g.invoices, invoice.id ∈ W →
    Credited g.cache g.keys invoice

/-- Starting on a store without transfers. -/
theorem Ledger.start {client : MonerodClient} {store : Store} {n : ℕ} {W : Set InvoiceId}
    {initialHeight : Option ℕ} {g : Gateway} (hn : 1 ≤ n) (hc : client.Consistent)
    (hstore : ∀ invoice ∈ store.invoices, invoice.transfers = [])
    (h : Gateway.start client store n initialHeight = .ok g) : Ledger n W g := by
  obtain ⟨daemonHeight, hs⟩ := start_ok h
  refine ⟨(hs.cache_valid hn hc).1, ?_, ?_, ?_⟩
  · have hpool := hs.txpoolCache
    unfold TxpoolCache.init at hpool
    split at hpool
    · cases hpool
    · rw [← Except.ok.inj hpool]
      exact fun e he => absurd he (by simp)
  · rw [Gateway.invoices, hs.shared]
    exact fun _ => hstore
  · intro hfs
    rw [hs.firstScan] at hfs
    cases hfs

section Step

variable {S : Backend} {g g' : Gateway} {n : ℕ} {W : Set InvoiceId}

/-- What is found in the pool has no height. -/
theorem Ledger.inPool {env : ScanEnv} {t : ScanTrace} (hl : Ledger n W g)
    (h : Scanned S env g g' t) : Scanner.InPool t.txpoolAmounts ∧
      ∀ e ∈ g'.scanner.txpoolCache.discoveredTransfers, Scanner.InPool e.2 :=
  h.txpool.inPool fun e he => hl.pool e (Scanner.mem_discovered_of_update h.txpoolCache he)

/-- A scan whose updates are all saved credits the watched invoices exactly. -/
theorem Ledger.scanned {env : ScanEnv} {t : ScanTrace} (hn : 1 ≤ n) (hl : Ledger n W g)
    (hc : env.client.Consistent) (hwatches : g.Watches W env)
    (hs : Scanned S env g g' t) (hinv : g'.invoices = g.invoices.map
      (Scanner.settle (t.blocksAmounts ++ t.txpoolAmounts) g'.cache.height (deepestUpdate g' t))) :
    Ledger n W g' := by
  obtain ⟨hpool, hpool'⟩ := hl.inPool hs
  refine ⟨(BlockCache.update_spec hc hn hl.cache hs.blockCache).valid, hpool', ?_, ?_⟩
  · intro hfs
    rw [hs.firstScan] at hfs
    cases hfs
  · intro _ invoice hmem hid
    rw [hinv] at hmem
    obtain ⟨old, hold, rfl⟩ := List.mem_map.mp hmem
    rw [(Scanner.settle_sameTerms _ _ _ old).id] at hid
    exact hs.settle_credited hn hc hl.cache hpool hold (hwatches old hold hid)
      (fun hfs => hl.first hfs old hold) (fun hfs => hl.credited hfs old hold hid)

/-- A successful scan without failing requests does so. -/
theorem Ledger.scan {env : ScanEnv} (hn : 1 ≤ n) (hl : Ledger n W g) (henv : env.Undisturbed)
    (hwatches : g.Watches W env) (h : g.scan S env = (.ok (), g')) : Ledger n W g' := by
  obtain ⟨t, hs⟩ := scan_ok h
  exact hl.scanned hn henv.consistent hwatches hs (hs.invoices_eq henv.faults)

/-- A new invoice above the cache's height has nothing to be credited with. -/
theorem credited_of_lt {cache : BlockCache} {keys : OutputPubKey → Option OutputId}
    {invoice : Invoice} (hnil : invoice.transfers = [])
    (hheight : cache.height < invoice.creationHeight) : Credited cache keys invoice := by
  have hbelow : ∀ b block, cache.blockAt b = some block → ¬ invoice.ReceivesAt b := by
    intro b block hb hreceives
    have := (BlockCache.blockAt_eq_some hb).1
    have := hreceives.creationHeight_le
    omega
  refine ⟨fun b block hb => ?_, fun b block hb hle => absurd hle (hbelow b block hb)⟩
  rw [if_neg (hbelow b block hb), Invoice.transfersAt, hnil]
  exact .refl _

/-- What creating an invoice does to the gateway. -/
theorem newInvoice_ok {invoice : Invoice} (h : g.newInvoice S invoice = (.ok (), g')) :
    g'.scanner = g.scanner ∧ g'.keys = g.keys ∧ g'.invoices = g.invoices ++ [invoice] ∧
      g'.shared.store.height = g.shared.store.height := by
  simp only [Gateway.newInvoice, handle, serve, Store.insertInvoice] at h
  by_cases hid : invoice.id ∈ g.shared.store.invoices.map Invoice.id
  · rw [dif_pos hid] at h
    cases h
  · rw [dif_neg hid] at h
    cases h
    exact ⟨rfl, rfl, rfl, rfl⟩

/-- Removing an invoice leaves the others. -/
theorem mem_of_mem_removeInvoice {id : InvoiceId} {invoice : Invoice}
    (h : invoice ∈ (g.removeInvoice S id).2.invoices) : invoice ∈ g.invoices :=
  List.mem_of_mem_filter h

/-- Creating and removing invoices keeps the invariant. -/
theorem Ledger.invoiceStep (hl : Ledger n W g) (h : InvoiceStep S W g g') : Ledger n W g' := by
  cases h with
  | @newInvoice _ _ index creationHeight _ _ _ _ hheight h =>
      obtain ⟨hscanner, hkeys, hinvoices, -⟩ := newInvoice_ok h
      have hmem : ∀ invoice ∈ g'.invoices, invoice ∈ g.invoices ∨
          invoice.transfers = [] ∧ (invoice.id ∈ W → g.cache.height < invoice.creationHeight) := by
        intro invoice hi
        rw [hinvoices, List.mem_append, List.mem_singleton] at hi
        exact hi.imp id fun heq => by rw [heq]; exact ⟨rfl, hheight⟩
      refine ⟨?_, ?_, fun hfs i hi => ?_, fun hfs i hi hid => ?_⟩
      · rw [Gateway.cache, hscanner]
        exact hl.cache
      · rw [hscanner]
        exact hl.pool
      · rw [hscanner] at hfs
        exact (hmem i hi).elim (hl.first hfs i) fun h => h.1
      · rw [hscanner] at hfs
        rw [Gateway.cache, hscanner, hkeys]
        exact (hmem i hi).elim (fun hold => hl.credited hfs i hold hid)
          fun h => credited_of_lt h.1 (h.2 hid)
  | removeInvoice id =>
      exact ⟨hl.cache, hl.pool, fun hfs i hi => hl.first hfs i (mem_of_mem_removeInvoice hi),
        fun hfs i hi => hl.credited hfs i (mem_of_mem_removeInvoice hi)⟩

/-- **Every step of a failure-free run keeps the invariant.** -/
theorem Ledger.step (hn : 1 ≤ n) (hl : Ledger n W g) (h : Step S W g g') : Ledger n W g' := by
  cases h with
  | scan henv hwatches h => exact hl.scan hn henv hwatches h
  | invoices h => exact hl.invoiceStep h

/-- Every state of a failure-free run satisfies the invariant. -/
theorem Ledger.run (hn : 1 ≤ n) (hl : Ledger n W g) (h : Relation.ReflTransGen (Step S W) g g') :
    Ledger n W g' := by
  induction h with
  | refl => exact hl
  | tail _ hstep ih => exact ih.step hn hstep

end Step

/-! ## Exact crediting through reorgs -/

/-- Scanning transactions again gives the amounts of the outputs accepted before. -/
theorem rescan_for {S : Backend} {checker : SubKeyChecker} {s s' : Shared} {index : SubIndex}
    {checkFails : Transaction → Bool} {transactions : List Transaction}
    {amountsReceived : List (Hash × List OwnedAmount)}
    (htracked : S.containsSubIndex s.store.invoices index = true)
    (hcover : checker.covers index = true)
    (hr : RecordedFor s.store.outputKeys index (unlockedOutputs transactions))
    (h : (scanTransactions checkFails transactions checker).run (handle S) s
      = (.ok amountsReceived, s')) :
    (((amountsIn amountsReceived).filter fun a => a.subIndex = index).map (·.amount)).Perm
      (acceptedAmounts s.store.outputKeys index (unlockedOutputs transactions)) := by
  have hsat := scanTransactions_sat S checkFails transactions checker s
  have hgrows := hsat.run_guarantee Grows.refl Grows.refl (fun _ _ _ => Grows.trans)
    (fun _ _ h => h)
  obtain ⟨-, rfl⟩ := hsat.run Grows.refl amountsReceived (by rw [h])
  rw [h] at hgrows ⊢
  rw [← hgrows.keysKept.acceptedAmounts_for hr, ← acceptedAmounts_ownedOutputs _ hcover,
    ← received_for _ (hgrows.invoices ▸ htracked)]
  have hflat := (flatMap_pushEntries_perm [] (received s'.store.outputKeys
    (S.containsSubIndex s'.store.invoices) (ownedOutputs checker transactions)))
  rw [List.flatMap_nil, List.nil_append] at hflat
  refine ((hflat.filter _).map _).trans ?_
  rw [List.filter_map, List.map_map]
  exact .refl _

/-- **Exact crediting at a height** of the cached window: the invoice's transfers there are the
outputs to its index that are accepted in the cached block, or none below its creation height. The
accepted outputs are also what `scan_transactions` finds when it goes over the block once more. -/
def CreditedAt (S : Backend) (checker : SubKeyChecker) (g : Gateway) (invoice : Invoice) (b : ℕ) :
    Prop :=
  ∃ block, g.cache.blockAt b = some block ∧
    ((invoice.transfersAt (some b)).map (·.amount)).Perm
      (if invoice.creationHeight ≤ b then
        acceptedAmounts g.keys invoice.index (ownedOutputs checker block.transactions)
      else []) ∧
    ∀ checkFails amountsReceived s', invoice.creationHeight ≤ b →
      (scanTransactions checkFails block.transactions checker).run (handle S) g.shared
        = (.ok amountsReceived, s') →
      (((amountsIn amountsReceived).filter fun a => a.subIndex = invoice.index).map
        (·.amount)).Perm ((invoice.transfersAt (some b)).map (·.amount))

/-- What the ledger says of one invoice that is recognised. -/
theorem Ledger.creditedAt {S : Backend} {checker : SubKeyChecker} {n : ℕ} {W : Set InvoiceId}
    {g : Gateway} (hl : Ledger n W g) (hfs : g.scanner.firstScan = false) {invoice : Invoice}
    (hmem : invoice ∈ g.invoices) (hid : invoice.id ∈ W)
    (hcover : checker.covers invoice.index = true) (hcreated : 1 ≤ invoice.creationHeight) {b : ℕ}
    (hb : b ≤ g.cache.height) (hw : g.cache.height < b + n) : CreditedAt S checker g invoice b := by
  have hcredited := hl.credited hfs invoice hmem hid
  obtain ⟨block, hblock⟩ : ∃ block, g.cache.blockAt b = some block := by
    rw [BlockCache.blockAt, if_pos hb]
    exact ⟨_, List.getElem?_eq_getElem (by rw [hl.cache.length]; omega)⟩
  -- From transfers to their amounts.
  have hamounts : ((invoice.transfersAt (some b)).map (·.amount)).Perm
      (if invoice.creationHeight ≤ b then
        acceptedAmounts g.keys invoice.index (ownedOutputs checker block.transactions)
      else []) := by
    have h := (hcredited.transfers b block hblock).map (·.amount)
    simp only [Invoice.receivesAt_iff hcreated] at h
    rw [acceptedAmounts_ownedOutputs _ hcover]
    split <;> rename_i hle
    · rw [if_pos hle, List.map_map] at h
      simpa [Function.comp_def] using h
    · rw [if_neg hle] at h
      exact h
  refine ⟨block, hblock, hamounts, fun checkFails amountsReceived s' hle hrescan => ?_⟩
  rw [if_pos hle, acceptedAmounts_ownedOutputs _ hcover] at hamounts
  exact (rescan_for (S.complete hmem) hcover (hcredited.recorded b block hblock
    ((Invoice.receivesAt_iff hcreated).mpr hle)) hrescan).trans hamounts.symm

/-- The steps of a run in which every call is answered: scans that find readable outputs only and
watch the invoices of `W`, with invoices created and removed in between. -/
inductive CreditStep (S : Backend) (W : Set InvoiceId) (g : Gateway) : Gateway → Prop where
  | scan {env : ScanEnv} {result : Except ScannerError Unit} {g' : Gateway}
      (henv : env.Undisturbed) (hanswered : Answered result) (hreadable : g.FindsReadable S env)
      (hwatches : g.Watches W env) (h : g.scan S env = (result, g')) : CreditStep S W g g'
  | invoices {g' : Gateway} (h : InvoiceStep S W g g') : CreditStep S W g g'

/-- Nothing fails in such a run. -/
theorem CreditStep.step {S : Backend} {W : Set InvoiceId} {g g' : Gateway}
    (h : CreditStep S W g g') : Step S W g g' := by
  cases h with
  | scan henv hanswered hreadable hwatches h =>
      obtain rfl := scan_ok_of_readable henv.faults hanswered hreadable h
      exact .scan henv hwatches h
  | invoices h => exact .invoices h

/-- **Exact crediting through reorgs.** In every run of one scanner over a store without transfers in
which every call is answered, if all scans find readable outputs only, then each of them succeeds
and leaves every stored invoice at the cache's height; and an invoice that all of them have watched
while it was stored is credited exactly at every height of the cached window. -/
theorem scan_credits_exactly {S : Backend} {client : MonerodClient} {store : Store} {n : ℕ}
    {initialHeight : Option ℕ} {W : Set InvoiceId} {g₀ g g' : Gateway} {env : ScanEnv}
    {result : Except ScannerError Unit} (hn : 1 ≤ n)
    (hstore : ∀ invoice ∈ store.invoices, invoice.transfers = [])
    (hc : client.Consistent) (hstart : Gateway.start client store n initialHeight = .ok g₀)
    (hrun : Relation.ReflTransGen (CreditStep S W) g₀ g) (henv : env.Undisturbed)
    (hanswered : Answered result) (hreadable : g.FindsReadable S env) (hwatches : g.Watches W env)
    (hscan : g.scan S env = (result, g')) :
    result = .ok () ∧ ∀ invoice ∈ g'.invoices, invoice.currentHeight = g'.cache.height + 1 ∧
      (invoice.id ∈ W → 1 ≤ invoice.creationHeight →
        ∀ b, b ≤ g'.cache.height → g'.cache.height < b + n →
          CreditedAt S env.checker g' invoice b) := by
  obtain rfl := scan_ok_of_readable henv.faults hanswered hreadable hscan
  -- The invariant at the end of the run, and once more after the scan.
  have hl := (Ledger.start hn hc hstore hstart).run hn
    (Relation.ReflTransGen.mono (fun _ _ => CreditStep.step) _ _ hrun)
  have hl' := hl.scan hn henv hwatches hscan
  obtain ⟨t, hs⟩ := scan_ok hscan
  refine ⟨rfl, fun invoice hmem => ?_⟩
  have hmem' := hmem
  rw [hs.invoices_eq henv.faults] at hmem'
  obtain ⟨old, hold, rfl⟩ := List.mem_map.mp hmem'
  have hterms := Scanner.settle_sameTerms (t.blocksAmounts ++ t.txpoolAmounts) g'.cache.height
    (deepestUpdate g' t) old
  refine ⟨Scanner.settle_currentHeight _ _ _ old, fun hid hcreated b hb hw => ?_⟩
  refine hl'.creditedAt hs.firstScan hmem hid ?_ hcreated hb hw
  rw [hterms.index]
  exact hwatches old hold (hterms.id ▸ hid)

/-- A daemon with a payment in the block at height 2. -/
def beforeReorg : Daemon := ⟨[(10, []), (11, []), (12, [payment 1 5])], []⟩

/-- After a reorg the same payment stands at height 3. -/
def afterReorg : Daemon := ⟨[(10, []), (11, []), (22, []), (23, [payment 1 5])], []⟩

/-- The gateway after a scan before the reorg. -/
def reorgGateway : Gateway := (smallStart beforeReorg smallStore).afterScan beforeReorg

/-- A result without an error comes with answers to all calls. -/
theorem answered_ok : Answered (.ok ()) := ⟨fun _ => nofun, fun _ => nofun, fun _ => nofun⟩

/-- A scan before and one after the reorg: the payment moves with its block. -/
theorem scan_credits_exactly_reorg :
    reorgGateway.invoices.map (·.transfers) = [[⟨5, some 2⟩]] ∧
      (reorgGateway.afterScan afterReorg).invoices.map (·.transfers) = [[⟨5, some 3⟩]] ∧
      ∀ invoice ∈ (reorgGateway.afterScan afterReorg).invoices,
        CreditedAt .exact (plainEnv afterReorg).checker (reorgGateway.afterScan afterReorg)
          invoice 3 := by
  have hstart : Gateway.start beforeReorg.client smallStore 2 none
      = .ok (smallStart beforeReorg smallStore) := rfl
  have hscan : (smallStart beforeReorg smallStore).scan .exact (plainEnv beforeReorg)
      = (.ok (), reorgGateway) := scan_eq_afterScan (by decide +kernel)
  have hscan' : reorgGateway.scan .exact (plainEnv afterReorg)
      = (.ok (), reorgGateway.afterScan afterReorg) := scan_eq_afterScan (by decide +kernel)
  have hreadable : (smallStart beforeReorg smallStore).FindsReadable .exact
      (plainEnv beforeReorg) :=
    @FindsReadable.of_updateCaches .exact _ _ 1 [] _ rfl (by decide +kernel) (by decide +kernel)
  have hreadable' : reorgGateway.FindsReadable .exact (plainEnv afterReorg) :=
    @FindsReadable.of_updateCaches .exact _ _ 2 [] _ rfl (by decide +kernel) (by decide +kernel)
  obtain ⟨-, hcredited⟩ := scan_credits_exactly (by decide) (by decide +kernel)
    beforeReorg.client_consistent hstart
    (.single (.scan (plainEnv_undisturbed _) answered_ok hreadable
      (.of_covers (by decide +kernel) Set.univ) hscan))
    (plainEnv_undisturbed _) answered_ok hreadable' (.of_covers (by decide +kernel) _) hscan'
  have hfacts : ∀ invoice ∈ (reorgGateway.afterScan afterReorg).invoices,
      1 ≤ invoice.creationHeight := by decide +kernel
  refine ⟨by decide +kernel, by decide +kernel, fun invoice hmem => ?_⟩
  exact (hcredited invoice hmem).2 (Set.mem_univ _) (hfacts invoice hmem) 3 (by decide +kernel)
    (by decide +kernel)

/-- A daemon that has three blocks, and nothing in them. -/
def beforePayment : Daemon := ⟨[(10, []), (11, []), (12, [])], []⟩

/-- The gateway after its first scan of it. -/
def firstScanned : Gateway := (smallStart beforePayment smallStore).afterScan beforePayment

/-- The daemon has a fourth block with a payment, and another transaction in its pool. -/
def besideUnreadable : Daemon :=
  ⟨[(10, []), (11, []), (12, []), (13, [payment 1 5])], [payment 9 1]⟩

/-- A scan in which the output check fails on that transaction, as it does on every transaction
without a public key in its extra field. -/
def checkFailing : ScanEnv :=
  { plainEnv besideUnreadable with checkFails := fun tx => decide (tx.hash = 9) }

/-- The gateway after a scan that meets the transaction, and after one more. -/
def afterUnreadable : ℕ → Gateway
  | 0 => firstScanned
  | k + 1 => ((afterUnreadable k).scan .exact checkFailing).2

/-- **A transaction that cannot be read loses a payment.** All calls are answered; the scan that
meets the transaction fails, with the new block in the cache, and the next scan succeeds without
crediting what the block pays. -/
theorem unreadable_output_loses_payment :
    Gateway.start beforePayment.client smallStore 2 none
      = .ok (smallStart beforePayment smallStore) ∧
    (smallStart beforePayment smallStore).scan .exact (plainEnv beforePayment)
      = (.ok (), firstScanned) ∧
    checkFailing.Undisturbed ∧
    firstScanned.scan .exact checkFailing = (.error .ownedOutputCheck, afterUnreadable 1) ∧
    Answered (.error .ownedOutputCheck) ∧
    (afterUnreadable 1).scan .exact checkFailing = (.ok (), afterUnreadable 2) ∧
    (afterUnreadable 2).invoices.map (·.transfers) = [[]] ∧
    ¬ ∀ invoice ∈ (afterUnreadable 2).invoices, ∀ b, b ≤ (afterUnreadable 2).cache.height →
      (afterUnreadable 2).cache.height < b + 2 →
      CreditedAt .exact checkFailing.checker (afterUnreadable 2) invoice b := by
  refine ⟨rfl, scan_eq_afterScan (by decide +kernel), ⟨besideUnreadable.client_consistent, rfl⟩,
    Prod.ext (by decide +kernel) rfl, ⟨fun _ => nofun, fun _ => nofun, fun _ => nofun⟩,
    Prod.ext (by decide +kernel) rfl, by decide +kernel, fun hcredited => ?_⟩
  have hlost : ¬ ∀ invoice ∈ (afterUnreadable 2).invoices,
      ((invoice.transfersAt (some 3)).map (·.amount)).Perm (if invoice.creationHeight ≤ 3 then
        acceptedAmounts (afterUnreadable 2).keys invoice.index
          (ownedOutputs checkFailing.checker [payment 1 5]) else []) := by
    decide +kernel
  refine hlost fun invoice hmem => ?_
  obtain ⟨block, hblock, hamounts, -⟩ :=
    hcredited invoice hmem 3 (by decide +kernel) (by decide +kernel)
  have htop : ∀ block ∈ (afterUnreadable 2).cache.blockAt 3,
      block.transactions = [payment 1 5] := by decide +kernel
  rwa [htop block hblock] at hamounts

end Gateway

end AcceptXmr
