import AcceptXmr.Scanner.PaymentStatus

/-! # Restarting the gateway

`Scanner::new` starts one block below the stored height, so the first scan after a restart updates
one block and prunes that block's transfers only; but a first scan goes over the whole cache, and
what it finds in the deeper blocks is added once more.

* **`Restart.cache_eq`** — over an unchanged daemon, the first scan ends with the cache that the
  scanner had before.
* **`Rescanned.settle_transfersAt`** — at each height, what an invoice holds afterwards.
* **`restart_unchanged_iff`** — a restart leaves what an invoice has been paid in blocks unchanged
  exactly if it has no transfer in the cached window below the rescanned top block. -/

namespace AcceptXmr

open scoped List

/-- The transfers in blocks. -/
def Invoice.blockTransfers (self : Invoice) : List Transfer :=
  self.transfers.filter fun t => t.height.isSome

/-- Two invoices hold the same block transfers exactly if they do at every height. -/
theorem Invoice.blockTransfers_perm_iff {i j : Invoice} :
    i.blockTransfers.Perm j.blockTransfers ↔
      ∀ b, (i.transfersAt (some b)).Perm (j.transfersAt (some b)) := by
  have hat : ∀ (i : Invoice) (b : ℕ),
      i.blockTransfers.filter (fun t => t.height = some b) = i.transfersAt (some b) := by
    intro i b
    rw [blockTransfers, List.filter_filter, transfersAt]
    refine List.filter_congr fun t _ => ?_
    by_cases h : t.height = some b <;> simp [h]
  refine ⟨fun h b => ?_, fun h => List.perm_iff_count.mpr fun t => ?_⟩
  · rw [← hat, ← hat]
    exact h.filter _
  · cases ht : t.height with
    | none =>
        have hnot : ∀ i : Invoice, t ∉ i.blockTransfers := by
          intro i hmem
          simpa [ht] using (List.mem_filter.mp hmem).2
        rw [List.count_eq_zero_of_not_mem (hnot i), List.count_eq_zero_of_not_mem (hnot j)]
    | some b =>
        have hcount : ∀ i : Invoice, i.blockTransfers.count t = (i.transfersAt (some b)).count t := by
          intro i
          rw [← hat, List.count_filter (by simp [ht])]
        rw [hcount, hcount, (h b).count_eq]

/-- What has been paid up to a height depends on the block transfers only. -/
theorem paidBy_blockTransfers (i : Invoice) (b : ℕ) :
    paidBy i.blockTransfers b = paidBy i.transfers b := by
  unfold paidBy Invoice.blockTransfers
  rw [List.filter_filter]
  congr 1
  refine List.filter_congr fun t _ => ?_
  unfold Transfer.upTo
  cases t.height <;> simp

theorem paidBy_perm {l l' : List Transfer} (h : l.Perm l') (b : ℕ) : paidBy l b = paidBy l' b :=
  ((h.filter _).map _).sum_nat

/-- **What an invoice has been paid in blocks is unchanged**: its block transfers as a multiset,
their sum, and the height at which it was paid, unless its sums leave the range of a `u64`. -/
structure PaidUnchanged (before after : Invoice) : Prop where
  transfers : after.blockTransfers.Perm before.blockTransfers
  amount : totalOf after.blockTransfers = totalOf before.blockTransfers
  paidHeight : totalOf before.transfers < u64Size → totalOf after.transfers < u64Size →
    after.paidHeight = before.paidHeight

/-- The height at which an invoice is paid depends on its block transfers only. -/
theorem Invoice.paidAt_iff_of_perm {i j : Invoice} (hperm : i.blockTransfers.Perm j.blockTransfers)
    (hreq : i.amountRequested = j.amountRequested) (b : ℕ) : i.PaidAt b ↔ j.PaidAt b := by
  have hstands : ∀ i : Invoice, (∃ t ∈ i.transfers, t.height = some b) ↔
      ∃ t ∈ i.blockTransfers, t.height = some b := by
    intro i
    refine ⟨fun ⟨t, ht, hb⟩ => ⟨t, List.mem_filter.mpr ⟨ht, by simp [hb]⟩, hb⟩, ?_⟩
    exact fun ⟨t, ht, hb⟩ => ⟨t, List.mem_of_mem_filter ht, hb⟩
  have hpaid : paidBy i.transfers b = paidBy j.transfers b := by
    rw [← paidBy_blockTransfers, ← paidBy_blockTransfers, paidBy_perm hperm]
  rw [PaidAt, PaidAt, hstands, hstands, hreq, hpaid]
  simp only [hperm.mem_iff]

/-- With the right status on both sides, the block transfers decide. -/
theorem PaidUnchanged.of_perm {before after : Invoice}
    (hperm : after.blockTransfers.Perm before.blockTransfers)
    (hreq : after.amountRequested = before.amountRequested) (hbefore : Gateway.StatusRight before)
    (hafter : Gateway.StatusRight after) : PaidUnchanged before after := by
  refine ⟨hperm, (hperm.map _).sum_nat, fun hsum hsum' => Option.ext fun b => ?_⟩
  rw [(hafter hsum').paidAt, (hbefore hsum).paidAt]
  simp only [Invoice.paidAt_iff_of_perm hperm hreq]

namespace Gateway

/-! ## The invariant of runs with restarts -/

/-- What holds between scans: for the watched invoices exact crediting, tidy transfers and the right
status; and the height of the cache in the store, which reaches down to the genesis block only as
long as the daemon has nothing more. -/
structure Books (n : ℕ) (W : Set InvoiceId) (g : Gateway) : Prop where
  ledger : Ledger n W g
  tidy : ∀ invoice ∈ g.invoices, invoice.id ∈ W → Tidy g.cache.height invoice
  status : ∀ invoice ∈ g.invoices, invoice.id ∈ W → StatusRight invoice
  height : g.scanner.firstScan = false → g.shared.store.height = some g.cache.height
  caughtUp : g.scanner.firstScan = false →
    n ≤ g.cache.height ∨ g.cache.daemonHeight ≤ g.cache.height + 1

/-- An invoice without transfers and totals, as `new_invoice` stores it. -/
structure Unseen (invoice : Invoice) : Prop where
  transfers : invoice.transfers = []
  amountPaid : invoice.amountPaid = 0
  paidHeight : invoice.paidHeight = none

/-- Nothing received is the right status. -/
theorem Unseen.statusRight {invoice : Invoice} (h : Unseen invoice) : StatusRight invoice := by
  intro _
  refine ⟨by rw [h.amountPaid, h.transfers]; rfl, fun b => ?_⟩
  rw [h.paidHeight]
  constructor
  · intro hb
    cases hb
  · rintro ⟨⟨⟨t, ht, -⟩, -⟩, -⟩
    rw [h.transfers] at ht
    cases ht

theorem Unseen.tidy {invoice : Invoice} (h : Unseen invoice) (height : ℕ) : Tidy height invoice :=
  ⟨by rw [h.transfers]; exact .nil, fun x hx => absurd hx (by simp [h.transfers])⟩

/-- Starting on a store of unseen invoices. -/
theorem Books.start {client : MonerodClient} {store : Store} {n : ℕ} {W : Set InvoiceId}
    {initialHeight : Option ℕ} {g : Gateway} (hn : 1 ≤ n) (hc : client.Consistent)
    (hstore : ∀ invoice ∈ store.invoices, Unseen invoice)
    (h : Gateway.start client store n initialHeight = .ok g) : Books n W g := by
  obtain ⟨daemonHeight, hs⟩ := start_ok h
  have hunseen : ∀ invoice ∈ g.invoices, Unseen invoice := by
    rw [Gateway.invoices, hs.shared]
    exact hstore
  have hfirst : ∀ {P : Prop}, g.scanner.firstScan = false → P := by
    intro P hfs
    rw [hs.firstScan] at hfs
    cases hfs
  exact ⟨Ledger.start hn hc (fun i hi => (hstore i hi).transfers) h,
    fun i hi _ => (hunseen i hi).tidy _, fun i hi _ => (hunseen i hi).statusRight, hfirst, hfirst⟩

section Step

variable {S : Backend} {g g' : Gateway} {n : ℕ} {W : Set InvoiceId}

/-- A scan without failing requests records the height of the cache. -/
theorem Scanned.height_eq {env : ScanEnv} {t : ScanTrace} (h : Scanned S env g g' t)
    (hf : env.faults = {}) : g'.shared.store.height = some g'.cache.height := by
  rw [h.saved.height, h.grows.faults, hf, if_pos rfl]

/-- After a scan, the cache reaches down to the genesis block only if there was nothing more. -/
theorem Scanned.caughtUp {env : ScanEnv} {t : ScanTrace} (h : Scanned S env g g' t)
    (hv : g.cache.Valid n) :
    n ≤ g'.cache.height ∨ g'.cache.daemonHeight ≤ g'.cache.height + 1 := by
  have hvh := hv.height
  obtain ⟨d, -, ⟨hle, hfix⟩ | ⟨-, block, fixed, -, hfix, -⟩⟩ :=
    BlockCache.update_cases h.blockCache
  · obtain ⟨hheight, hdaemon⟩ := BlockCache.checkAndFixReorg_height hfix
    refine .inr ?_
    rw [hheight, hdaemon]
    exact Nat.le_add_of_sub_le hle
  · obtain ⟨hheight, -⟩ := BlockCache.checkAndFixReorg_height hfix
    refine .inl ?_
    rw [hheight]
    exact hvh

/-- Every step of a failure-free run keeps the books. -/
theorem Books.step (hn : 1 ≤ n) (hb : Books n W g) (h : Step S W g g') : Books n W g' := by
  refine ⟨hb.ledger.step hn h, tidy_step hn hb.ledger hb.tidy h, ?_, ?_, ?_⟩
  · intro invoice hmem hid
    cases h with
    | scan henv hwatches h =>
        obtain ⟨old, hold, hterms, -, hsettled⟩ := hb.ledger.scan_tidy hn henv h hmem
        rw [hterms.id] at hid
        exact (hsettled (hb.tidy old hold hid).sorted).2 (.inl (hb.status old hold hid))
    | invoices h =>
        cases h with
        | newInvoice hheight h =>
            obtain ⟨-, -, hinvoices, -⟩ := newInvoice_ok h
            rw [hinvoices, List.mem_append, List.mem_singleton] at hmem
            rcases hmem with hmem | rfl
            · exact hb.status invoice hmem hid
            · exact Unseen.statusRight ⟨rfl, rfl, rfl⟩
        | removeInvoice id => exact hb.status invoice (mem_of_mem_removeInvoice hmem) hid
  · cases h with
    | scan henv hwatches h =>
        obtain ⟨t, hs⟩ := scan_ok h
        exact fun _ => hs.height_eq henv.faults
    | invoices h =>
        cases h with
        | newInvoice hheight h =>
            obtain ⟨hscanner, -, -, hstored⟩ := newInvoice_ok h
            rw [hscanner, hstored, Gateway.cache, hscanner]
            exact hb.height
        | removeInvoice id => exact hb.height
  · cases h with
    | scan henv hwatches h =>
        obtain ⟨t, hs⟩ := scan_ok h
        exact fun _ => hs.caughtUp hb.ledger.cache
    | invoices h =>
        cases h with
        | newInvoice hheight h =>
            rw [Gateway.cache, (newInvoice_ok h).1]
            exact hb.caughtUp
        | removeInvoice id => exact hb.caughtUp

end Step

/-! ## A restart over an unchanged daemon -/

/-- **A restart and its first scan**, over a daemon whose height and chain have not changed since
the last scan: it still serves the cached blocks. The scan watches the invoices of `W`. -/
structure Restart (S : Backend) (n : ℕ) (W : Set InvoiceId) (g g₁ g' : Gateway)
    (client : MonerodClient) (env : ScanEnv) (initialHeight : Option ℕ) : Prop where
  scanned : g.scanner.firstScan = false
  start : Gateway.start client g.shared.store n initialHeight = .ok g₁
  consistent : client.Consistent
  undisturbed : env.Undisturbed
  watches : g₁.Watches W env
  scan : g₁.scan S env = (.ok (), g')
  daemonHeight : client.daemonHeight = .ok g.cache.daemonHeight ∧
    env.client.daemonHeight = .ok g.cache.daemonHeight
  known : g.cache.height < g.cache.daemonHeight
  chain : ∀ b block, g.cache.blockAt b = some block →
    client.fetch b = .ok block ∧ env.client.fetch b = .ok block

section Restart

variable {S : Backend} {n : ℕ} {W : Set InvoiceId} {g g₁ g' : Gateway} {client : MonerodClient} {env : ScanEnv}
  {initialHeight : Option ℕ}

/-- A restart begins one block below the stored height, but not below a full cache. -/
theorem Restart.startHeight_eq (h : Restart S n W g g₁ g' client env initialHeight)
    (hb : Books n W g) : Scanner.startHeight g.shared.store n initialHeight g.cache.daemonHeight
      = max g.cache.height n - 1 := by
  have hlast : Scanner.lastHeight g.shared.store = some g.cache.height := by
    rw [Scanner.lastHeight, hb.height h.scanned]
  rw [Scanner.startHeight, hlast, Option.some_or, Option.getD_some,
    Nat.min_eq_left (Nat.le_of_lt h.known)]

/-- The cached block at a position is the one served for its height. -/
theorem Restart.served (h : Restart S n W g g₁ g' client env initialHeight) (hb : Books n W g)
    {i : ℕ} {block : Block} (hi : g.cache.blocks[i]? = some block) :
    client.fetch (g.cache.height - i) = .ok block ∧
      env.client.fetch (g.cache.height - i) = .ok block := by
  refine h.chain (g.cache.height - i) block ?_
  have hlt : i < g.cache.blocks.length := (List.getElem?_eq_some_iff.mp hi).1
  have := hb.ledger.cache.length
  have := hb.ledger.cache.height
  rw [BlockCache.blockAt, if_pos (Nat.sub_le _ _), Nat.sub_sub_self (by omega)]
  exact hi

/-- **The cache is the same after the first scan**, which reports one block, or none if the cache
reaches down to the genesis block. -/
theorem Restart.cache_eq (h : Restart S n W g g₁ g' client env initialHeight) (hn : 1 ≤ n)
    (hb : Books n W g) {t : ScanTrace} (hs : Scanned S env g₁ g' t) :
    g'.cache.height = g.cache.height ∧ g'.cache.blocks = g.cache.blocks ∧
      t.blocksUpdated = if n ≤ g.cache.height then 1 else 0 := by
  obtain ⟨d, hstarted⟩ := start_ok h.start
  obtain rfl : d = g.cache.daemonHeight :=
    Except.ok.inj (hstarted.daemonHeight.symm.trans h.daemonHeight.1)
  have hv := hb.ledger.cache
  have hvh := hv.height
  have hlen := hv.length
  obtain ⟨hv₁, hh₁⟩ := hstarted.cache_valid hn h.consistent
  rw [h.startHeight_eq hb] at hh₁
  -- The restarted cache holds what the daemon serves, down from its height.
  have hget₁ : ∀ i block, g₁.cache.blocks[i]? = some block →
      client.fetch (g₁.cache.height - i) = .ok block := by
    have hinit := hstarted.blockCache
    rw [h.startHeight_eq hb] at hinit
    unfold BlockCache.init at hinit
    split at hinit
    · cases hinit
    · rename_i blocks hblocks
      rw [← Except.ok.inj hinit]
      exact (BlockCache.fetchDown_spec h.consistent (by omega) hblocks).2.2
  have hknown := h.known
  obtain ⟨d, hd, ⟨hle, hfix⟩ | ⟨hlt, block, fixed, hblock, hfix, hcount⟩⟩ :=
    BlockCache.update_cases hs.blockCache
  · -- Nothing to fetch: the cache reaches down to the genesis block.
    obtain rfl : d = g.cache.daemonHeight := Except.ok.inj (hd.symm.trans h.daemonHeight.2)
    have hshallow : ¬ n ≤ g.cache.height := fun hdeep => by omega
    have hh : g₁.cache.height = g.cache.height := by omega
    have hblocks : g₁.cache.blocks = g.cache.blocks := by
      refine List.ext_getElem (hv₁.length.trans hlen.symm) fun i hi₁ hi => ?_
      have h₁ := hget₁ i _ (List.getElem?_eq_getElem hi₁)
      rw [hh, (h.served hb (List.getElem?_eq_getElem hi)).1] at h₁
      exact (Except.ok.inj h₁).symm
    have hlinked : Linked { g₁.cache with daemonHeight := g.cache.daemonHeight }.blocks :=
      hv₁.linked
    rw [BlockCache.checkAndFixReorg_linked env.client hlinked] at hfix
    obtain ⟨hzero, hcache⟩ := Prod.mk.inj hfix
    rw [if_neg hshallow, ← hcache]
    exact ⟨hh, hblocks, (Except.ok.inj hzero).symm⟩
  · -- The top block is fetched again.
    obtain rfl : d = g.cache.daemonHeight := Except.ok.inj (hd.symm.trans h.daemonHeight.2)
    have hdeep : n ≤ g.cache.height := by
      rcases hb.caughtUp h.scanned with hdeep | hsync
      · exact hdeep
      · omega
    have hh : g₁.cache.height + 1 = g.cache.height := by omega
    have hblocks : (block :: g₁.cache.blocks).dropLast = g.cache.blocks := by
      refine List.ext_getElem ?_ fun i hi₁ hi => ?_
      · rw [List.length_dropLast, List.length_cons, hv₁.length, hlen]
        rfl
      · rw [List.getElem_dropLast]
        have hserved := h.served hb (List.getElem?_eq_getElem hi)
        cases i with
        | zero =>
            rw [hh] at hblock
            exact Except.ok.inj (hblock.symm.trans hserved.2)
        | succ i =>
            have hi' : i < g₁.cache.blocks.length := by rw [hv₁.length]; omega
            have h₁ := hget₁ i _ (List.getElem?_eq_getElem hi')
            rw [show g₁.cache.height - i = g.cache.height - (i + 1) by omega, hserved.1] at h₁
            exact (Except.ok.inj h₁).symm
    have hlinked : Linked (BlockCache.mk g.cache.height g.cache.daemonHeight
        g.cache.blocks).blocks := hv.linked
    rw [hh, hblocks, BlockCache.checkAndFixReorg_linked env.client hlinked] at hfix
    obtain ⟨hzero, hcache⟩ := Prod.mk.inj hfix
    rw [if_pos hdeep, ← hcache, hcount, ← Except.ok.inj hzero]
    exact ⟨rfl, rfl, rfl⟩

/-- The first scan after a restart: it scans the whole cache, which is the cache of before, and
prunes from the stored height on. -/
structure Rescanned (S : Backend) (n : ℕ) (g g₁ g' : Gateway) (env : ScanEnv) (t : ScanTrace) :
    Prop where
  scanned : Scanned S env g₁ g' t
  pool : Scanner.InPool t.txpoolAmounts
  discovered : ∀ e ∈ g'.scanner.txpoolCache.discoveredTransfers, Scanner.InPool e.2
  valid : g₁.cache.Valid n
  store : g₁.shared.store = g.shared.store
  height : g'.cache.height = g.cache.height
  blocks : g'.cache.blocks = g.cache.blocks
  deepest : deepestUpdate g' t = max g.cache.height n
  depth : scanDepth g₁ g' t = n

theorem Restart.rescanned (h : Restart S n W g g₁ g' client env initialHeight) (hn : 1 ≤ n)
    (hb : Books n W g) : ∃ t, Rescanned S n g g₁ g' env t := by
  obtain ⟨t, hs⟩ := scan_ok h.scan
  obtain ⟨d, hstarted⟩ := start_ok h.start
  obtain ⟨hheight, hblocks, hcount⟩ := h.cache_eq hn hb hs
  have hvh := hb.ledger.cache.height
  have hnone : ∀ e ∈ t.txpoolCache.discoveredTransfers, Scanner.InPool e.2 := by
    intro e he
    have hold := Scanner.mem_discovered_of_update hs.txpoolCache he
    have hpool := hstarted.txpoolCache
    unfold TxpoolCache.init at hpool
    split at hpool
    · cases hpool
    · rw [← Except.ok.inj hpool] at hold
      exact absurd hold (by simp)
  obtain ⟨hpool, hdiscovered⟩ := hs.txpool.inPool hnone
  refine ⟨t, hs, hpool, hdiscovered, (hstarted.cache_valid hn h.consistent).1,
    by rw [hstarted.shared], hheight, hblocks, ?_, ?_⟩
  · rw [deepestUpdate, hheight, hcount]
    split
    · rw [U64.sub_of_le (by omega)]
      omega
    · rw [U64.sub_of_le (Nat.zero_le _)]
      omega
  · rw [scanDepth, hstarted.firstScan, if_pos rfl, hblocks, hb.ledger.cache.length]

section Rescanned

variable {t : ScanTrace}

/-- Every cached height has its block back. -/
theorem Rescanned.blockAt_eq (h : Rescanned S n g g₁ g' env t) (b : ℕ) :
    g'.cache.blockAt b = g.cache.blockAt b := by
  rw [BlockCache.blockAt, BlockCache.blockAt, h.height, h.blocks]

theorem Rescanned.keysKept (h : Rescanned S n g g₁ g' env t) : KeysKept g.shared g'.shared := by
  intro key id hk
  rw [← h.store] at hk
  exact h.scanned.keysKept key id hk

/-- **What the first scan finds is what the invoice already holds**, at every cached height. -/
theorem Rescanned.found_at (h : Rescanned S n g g₁ g' env t) (hb : Books n W g)
    (hfs : g.scanner.firstScan = false) {invoice : Invoice} (hmem : invoice ∈ g.invoices)
    (hid : invoice.id ∈ W) (hcover : env.checker.covers invoice.index = true) (b : ℕ) :
    (if invoice.ReceivesAt b then
      (((t.blocksAmounts ++ t.txpoolAmounts).filter fun e => decide (e.1 = invoice.index)).map
        Prod.snd).filter fun x => decide (x.height = some b) else []).Perm
      (if b ≤ g.cache.height ∧ g.cache.height < b + n then invoice.transfersAt (some b)
        else []) := by
  have hv := hb.ledger.cache
  have hvh := hv.height
  have hdepth : scanDepth g₁ g' t ≤ g'.cache.height + 1 := by rw [h.depth, h.height]; exact hvh
  have hmem₁ : invoice ∈ g₁.invoices := by
    rw [Gateway.invoices, h.store]
    exact hmem
  have hfound := Scanner.found_at h.scanned.blocks hdepth h.pool (h.scanned.tracked hmem₁) b
  rw [show (if g₁.scanner.firstScan = true then g'.cache.blocks.length else t.blocksUpdated) = n
    from h.depth, h.height] at hfound
  by_cases hw : b ≤ g.cache.height ∧ g.cache.height < b + n
  · rw [if_pos hw] at hfound ⊢
    -- A height of the cached window: the new cache has the block that the old one had.
    obtain ⟨block, hblock⟩ : ∃ block, g.cache.blockAt b = some block := by
      rw [BlockCache.blockAt, if_pos hw.1]
      exact ⟨_, List.getElem?_eq_getElem (by rw [hv.length]; omega)⟩
    have hcredited := hb.ledger.credited hfs invoice hmem hid
    obtain ⟨-, -, htxs⟩ := BlockCache.blockAt_eq_some ((h.blockAt_eq b).trans hblock)
    rw [h.height] at htxs
    rw [htxs, ← h.scanned.keys_eq, acceptedAmounts_ownedOutputs _ hcover] at hfound
    refine List.Perm.trans ?_ (hcredited.transfers b block hblock).symm
    by_cases hle : invoice.ReceivesAt b
    · rw [if_pos hle, if_pos hle,
        ← h.keysKept.acceptedAmounts_for (hcredited.recorded b block hblock hle)]
      exact hfound
    · rw [if_neg hle, if_neg hle]
  · -- Outside of the window nothing is scanned.
    rw [if_neg hw] at hfound ⊢
    rw [hfound.eq_nil, ite_self]

/-- **What an invoice holds after a restart**, at each height: what it held, if the height is not
pruned, and what it held once more, if the height is in the cached window. -/
theorem Rescanned.settle_transfersAt (h : Rescanned S n g g₁ g' env t) (hb : Books n W g)
    (hfs : g.scanner.firstScan = false) {invoice : Invoice} (hmem : invoice ∈ g.invoices)
    (hid : invoice.id ∈ W) (hcover : env.checker.covers invoice.index = true) (b : ℕ) :
    ((Scanner.settle (t.blocksAmounts ++ t.txpoolAmounts) g'.cache.height (deepestUpdate g' t)
        invoice).transfersAt (some b)).Perm
      ((if b < max g.cache.height n then invoice.transfersAt (some b) else []) ++
        if b ≤ g.cache.height ∧ g.cache.height < b + n then invoice.transfersAt (some b)
        else []) := by
  have hset := Scanner.settle_transfersAt (t.blocksAmounts ++ t.txpoolAmounts) g'.cache.height
    (deepestUpdate g' t) invoice (some b)
  simp only [Option.some.injEq, forall_eq'] at hset
  refine hset.trans (List.Perm.append ?_ (h.found_at hb hfs hmem hid hcover b))
  rw [h.deepest]
  split
  · rename_i hlt
    rw [Scanner.keptTransfers_filter_of_lt invoice hlt]
  · rename_i hge
    rw [Scanner.keptTransfers_filter_of_not_lt invoice]
    intro b' hb'
    cases hb'
    omega

/-- An invoice is **quiet** if it has no transfer in the cached window below the height that a
restart prunes. -/
def Quiet (n : ℕ) (g : Gateway) (invoice : Invoice) : Prop :=
  ∀ x ∈ invoice.transfers, ∀ b, x.height = some b → g.cache.height < b + n →
    max g.cache.height n ≤ b

/-- **A restart keeps an invoice's block transfers** exactly if the invoice is quiet; otherwise it
doubles some of them. -/
theorem Rescanned.blockTransfers_perm_iff (h : Rescanned S n g g₁ g' env t) (hn : 1 ≤ n)
    (hb : Books n W g) (hfs : g.scanner.firstScan = false) {invoice : Invoice}
    (hmem : invoice ∈ g.invoices) (hid : invoice.id ∈ W)
    (hcover : env.checker.covers invoice.index = true) :
    (Scanner.settle (t.blocksAmounts ++ t.txpoolAmounts) g'.cache.height (deepestUpdate g' t)
        invoice).blockTransfers.Perm invoice.blockTransfers ↔ Quiet n g invoice := by
  have hvh := hb.ledger.cache.height
  have hbelow := (hb.tidy invoice hmem hid).below
  have hnil : ∀ b, (∀ x ∈ invoice.transfers, x.height ≠ some b) →
      invoice.transfersAt (some b) = [] := by
    intro b hx
    rw [Invoice.transfersAt, List.filter_eq_nil_iff]
    exact fun x hmem => by simpa using hx x hmem
  rw [Invoice.blockTransfers_perm_iff]
  constructor
  · -- A transfer that is cached and not pruned would be there twice.
    intro hperm x hx b hxb hw
    by_contra hlt
    have hle := hbelow x hx b hxb
    have htwice := (hperm b).symm.trans (h.settle_transfersAt hb hfs hmem hid hcover b)
    rw [if_pos (by omega), if_pos ⟨hle, hw⟩] at htwice
    have hlen := htwice.length_eq
    rw [List.length_append] at hlen
    have hpos : 0 < (invoice.transfersAt (some b)).length :=
      List.length_pos_of_mem (List.mem_filter.mpr ⟨hx, by simp [hxb]⟩)
    omega
  · intro hquiet b
    refine (h.settle_transfersAt hb hfs hmem hid hcover b).trans ?_
    by_cases hnone : ∀ x ∈ invoice.transfers, x.height ≠ some b
    · rw [hnil b hnone]
      split <;> split <;> exact .refl _
    · -- Some transfer stands at this height, which is either not cached or pruned.
      push Not at hnone
      obtain ⟨x, hx, hxb⟩ := hnone
      have hle := hbelow x hx b hxb
      by_cases hw : g.cache.height < b + n
      · have := hquiet x hx b hxb hw
        rw [if_neg (by omega), if_pos ⟨hle, hw⟩, List.nil_append]
      · rw [if_pos (by omega), if_neg (fun h => hw h.2), List.append_nil]

/-- If an invoice is quiet, what it holds and what a restart adds do not overlap. -/
theorem Rescanned.apart (h : Rescanned S n g g₁ g' env t) (hb : Books n W g)
    (hfs : g.scanner.firstScan = false) {invoice : Invoice} (hmem : invoice ∈ g.invoices)
    (hid : invoice.id ∈ W) (hcover : env.checker.covers invoice.index = true)
    (hquiet : Quiet n g invoice) : Apart g' t invoice := by
  refine .inr fun x hx b hxb => ?_
  have hfilter : x ∈ (Scanner.addedTransfers (t.blocksAmounts ++ t.txpoolAmounts) invoice).filter
      fun x => decide (x.height = some b) := List.mem_filter.mpr ⟨hx, by simp [hxb]⟩
  rw [Scanner.addedTransfers_filter] at hfilter
  simp only [Option.some.injEq, forall_eq'] at hfilter
  rw [(h.found_at hb hfs hmem hid hcover b).mem_iff] at hfilter
  split at hfilter
  · rename_i hw
    rw [h.deepest]
    exact hquiet x (List.mem_filter.mp hfilter).1 b hxb hw.2
  · cases hfilter

end Rescanned

/-- **A restart keeps the books**, if the watched invoices are quiet. -/
theorem Books.restart (hn : 1 ≤ n) (hb : Books n W g)
    (hquiet : ∀ invoice ∈ g.invoices, invoice.id ∈ W → Quiet n g invoice)
    (h : Restart S n W g g₁ g' client env initialHeight) : Books n W g' := by
  obtain ⟨t, hr⟩ := h.rescanned hn hb
  have hund := h.undisturbed
  have hinv := hr.scanned.invoices_eq hund.faults
  have hsame : g₁.invoices = g.invoices := by rw [Gateway.invoices, hr.store]
  -- The store has survived, so every watched invoice is the settled form of one from before.
  have hsettled : ∀ invoice ∈ g'.invoices, invoice.id ∈ W → ∃ old ∈ g.invoices, old.id ∈ W ∧
      env.checker.covers old.index = true ∧
      invoice = Scanner.settle (t.blocksAmounts ++ t.txpoolAmounts) g'.cache.height
        (deepestUpdate g' t) old := by
    intro invoice hmem hid
    rw [hinv, hsame] at hmem
    obtain ⟨old, hold, rfl⟩ := List.mem_map.mp hmem
    rw [(Scanner.settle_sameTerms _ _ _ old).id] at hid
    exact ⟨old, hold, hid, h.watches old (hsame ▸ hold) hid, rfl⟩
  have htidy : ∀ invoice ∈ g'.invoices, invoice.id ∈ W →
      Tidy g'.cache.height invoice ∧ StatusRight invoice := by
    intro invoice hmem hid
    obtain ⟨old, hold, hold', hcover, rfl⟩ := hsettled invoice hmem hid
    obtain ⟨htidy, hstatus⟩ := hr.scanned.settle_tidy hn hund.consistent hr.valid hr.pool
      (hb.tidy old hold hold').sorted
      (hr.apart hb h.scanned hold hold' hcover (hquiet old hold hold'))
    exact ⟨htidy, hstatus (.inl (hb.status old hold hold'))⟩
  -- The ledger of the new scanner: its cache, and what is credited.
  refine ⟨⟨?_, hr.discovered, ?_, ?_⟩, fun i hi hid => (htidy i hi hid).1,
    fun i hi hid => (htidy i hi hid).2, fun _ => hr.scanned.height_eq hund.faults,
    fun _ => hr.scanned.caughtUp hr.valid⟩
  · exact (BlockCache.update_spec hund.consistent hn hr.valid hr.scanned.blockCache).valid
  · intro hfs
    rw [hr.scanned.firstScan] at hfs
    cases hfs
  · intro _ invoice hmem hid
    obtain ⟨old, hold, hold', hcover, rfl⟩ := hsettled invoice hmem hid
    have hterms := Scanner.settle_sameTerms (t.blocksAmounts ++ t.txpoolAmounts) g'.cache.height
      (deepestUpdate g' t) old
    have hcredited := hb.ledger.credited h.scanned old hold hold'
    -- The block transfers of a quiet invoice are what they were.
    have hperm := Invoice.blockTransfers_perm_iff.mp
      ((hr.blockTransfers_perm_iff hn hb h.scanned hold hold' hcover).mpr (hquiet old hold hold'))
    refine ⟨fun b block hblock => ?_, fun b block hblock hle => ?_⟩
    · simp only [hterms.receivesAt_iff, hterms.index]
      rw [hr.blockAt_eq] at hblock
      refine (hperm b).trans ((hcredited.transfers b block hblock).trans ?_)
      split
      · rename_i hle
        rw [← hr.keysKept.acceptedAmounts_for (hcredited.recorded b block hblock hle)]
      · exact .refl _
    · rw [hterms.receivesAt_iff] at hle
      rw [hterms.index]
      rw [hr.blockAt_eq] at hblock
      exact hr.keysKept.recordedFor (hcredited.recorded b block hblock hle)

/-! ## Whole runs -/

/-- A step of a run with restarts: a step without failures, or a restart at a moment when the
watched invoices are quiet. -/
inductive QuietStep (S : Backend) (n : ℕ) (W : Set InvoiceId) (g : Gateway) : Gateway → Prop where
  | step {g' : Gateway} (h : Step S W g g') : QuietStep S n W g g'
  | restart {g₁ g' : Gateway} {client : MonerodClient} {env : ScanEnv} {initialHeight : Option ℕ}
      (hquiet : ∀ invoice ∈ g.invoices, invoice.id ∈ W → Quiet n g invoice)
      (h : Restart S n W g g₁ g' client env initialHeight) : QuietStep S n W g g'

theorem Books.run (hn : 1 ≤ n) (hb : Books n W g)
    (h : Relation.ReflTransGen (QuietStep S n W) g g') : Books n W g' := by
  induction h with
  | refl => exact hb
  | tail _ hstep ih =>
      cases hstep with
      | step h => exact ih.step hn h
      | restart hquiet h => exact ih.restart hn hquiet h

/-- **When a restart is idempotent.** After any run of scans, invoice changes and restarts on a store
of unseen invoices that has watched an invoice, and in which it was quiet at every restart, one more
restart over an unchanged daemon that watches it leaves what it has been paid in blocks unchanged if
and only if it is quiet. -/
theorem restart_unchanged_iff {store : Store} {client₀ : MonerodClient}
    {initialHeight₀ : Option ℕ} {g₀ : Gateway} (hn : 1 ≤ n)
    (hstore : ∀ invoice ∈ store.invoices, Unseen invoice) (hc : client₀.Consistent)
    (hstart : Gateway.start client₀ store n initialHeight₀ = .ok g₀)
    (hrun : Relation.ReflTransGen (QuietStep S n W) g₀ g)
    (h : Restart S n W g g₁ g' client env initialHeight) :
    ∀ invoice ∈ g.invoices, invoice.id ∈ W →
      ((∃ invoice' ∈ g'.invoices, invoice'.id = invoice.id ∧ PaidUnchanged invoice invoice') ↔
        Quiet n g invoice) := by
  intro invoice hmem hid
  -- The books hold at the end of the run, and say what the invoice has been credited.
  have hb := (Books.start hn hc hstore hstart).run hn hrun
  obtain ⟨t, hr⟩ := h.rescanned hn hb
  have hsame : g₁.invoices = g.invoices := by rw [Gateway.invoices, hr.store]
  have hinv := hr.scanned.invoices_eq h.undisturbed.faults
  rw [hsame] at hinv
  have hcover := h.watches invoice (hsame ▸ hmem) hid
  have hiff := hr.blockTransfers_perm_iff hn hb h.scanned hmem hid hcover
  constructor
  · rintro ⟨invoice', hmem', hid', hpaid⟩
    -- Ids are unique: the invoice that is unchanged is the settled form of this one.
    rw [hinv] at hmem'
    obtain ⟨old, hold, rfl⟩ := List.mem_map.mp hmem'
    rw [(Scanner.settle_sameTerms _ _ _ old).id] at hid'
    obtain rfl := List.inj_on_of_nodup_map g.shared.store.nodupIds hold hmem hid'
    exact hiff.mp hpaid.transfers
  · intro hquiet
    have hterms := Scanner.settle_sameTerms (t.blocksAmounts ++ t.txpoolAmounts) g'.cache.height
      (deepestUpdate g' t) invoice
    have hmem' := List.mem_map_of_mem (f := Scanner.settle (t.blocksAmounts ++ t.txpoolAmounts)
      g'.cache.height (deepestUpdate g' t)) hmem
    rw [← hinv] at hmem'
    obtain ⟨-, hstatus⟩ := hr.scanned.settle_tidy hn h.undisturbed.consistent hr.valid hr.pool
      (hb.tidy invoice hmem hid).sorted (hr.apart hb h.scanned hmem hid hcover hquiet)
    exact ⟨_, hmem', hterms.id, .of_perm (hiff.mpr hquiet) hterms.amountRequested
      (hb.status invoice hmem hid) (hstatus (.inl (hb.status invoice hmem hid)))⟩

end Restart

/-- A daemon whose top block has a payment of 5 piconeros. -/
def paidAtTop : Daemon := ⟨[(10, []), (11, []), (12, [payment 1 5])], []⟩

/-- A daemon with the payment in the block below the top one. -/
def paidBelowTop : Daemon := ⟨[(10, []), (11, [payment 1 5]), (12, [])], []⟩

/-- The gateway after its first scan. -/
def scannedOnce (daemon : Daemon) : Gateway := (smallStart daemon smallStore).afterScan daemon

/-- The gateway restarted on the store that the first scan has left. -/
def restartedOnce (daemon : Daemon) : Gateway :=
  smallStart daemon (scannedOnce daemon).shared.store

/-- What has to be evaluated to see that this is a restart over an unchanged daemon. -/
theorem restart_small {daemon : Daemon} (hfs : (scannedOnce daemon).scanner.firstScan = false)
    (hstart : Gateway.start daemon.client (scannedOnce daemon).shared.store 2 none
      = .ok (restartedOnce daemon))
    (hcovers : ∀ invoice ∈ (restartedOnce daemon).invoices,
      (plainEnv daemon).checker.covers invoice.index = true)
    (hscan : ((restartedOnce daemon).scan .exact (plainEnv daemon)).1 = .ok ())
    (hdaemon : (scannedOnce daemon).cache.daemonHeight = daemon.chain.length)
    (hheight : (scannedOnce daemon).cache.height < daemon.chain.length)
    (hchain : ∀ b ≤ (scannedOnce daemon).cache.height,
      ∀ block ∈ (scannedOnce daemon).cache.blockAt b, daemon.client.fetch b = .ok block) :
    Restart .exact 2 Set.univ (scannedOnce daemon) (restartedOnce daemon)
      ((restartedOnce daemon).afterScan daemon) daemon.client (plainEnv daemon) none where
  scanned := hfs
  start := hstart
  consistent := daemon.client_consistent
  undisturbed := plainEnv_undisturbed daemon
  watches := .of_covers hcovers _
  scan := scan_eq_afterScan hscan
  daemonHeight := by rw [hdaemon]; exact ⟨rfl, rfl⟩
  known := by rw [hdaemon]; exact hheight
  chain b block hb :=
    have hfetch := hchain b (BlockCache.blockAt_eq_some hb).1 block hb
    ⟨hfetch, hfetch⟩

/-- The payment in the top block is not doubled. -/
theorem restart_unchanged_iff_top :
    ∃ invoice ∈ (scannedOnce paidAtTop).invoices, invoice.transfers = [⟨5, some 2⟩] ∧
      ∃ invoice' ∈ ((restartedOnce paidAtTop).afterScan paidAtTop).invoices,
        invoice'.id = invoice.id ∧ PaidUnchanged invoice invoice' := by
  have hstart : Gateway.start paidAtTop.client smallStore 2 none
      = .ok (smallStart paidAtTop smallStore) := rfl
  have hstore : ∀ invoice ∈ smallStore.invoices, Unseen invoice := by
    intro invoice hmem
    obtain rfl := List.mem_singleton.mp hmem
    exact ⟨rfl, rfl, rfl⟩
  have hscan : (smallStart paidAtTop smallStore).scan .exact (plainEnv paidAtTop)
      = (.ok (), scannedOnce paidAtTop) := scan_eq_afterScan (by decide +kernel)
  have hstep : Step .exact Set.univ (smallStart paidAtTop smallStore) (scannedOnce paidAtTop) :=
    .scan (plainEnv_undisturbed _) (.of_covers (by decide +kernel) _) hscan
  have hrestart := @restart_small paidAtTop (by decide +kernel) rfl (by decide +kernel)
    (by decide +kernel) (by decide +kernel) (by decide +kernel) (by decide +kernel)
  have htransfers : ∀ invoice ∈ (scannedOnce paidAtTop).invoices,
      invoice.transfers = [⟨5, some 2⟩] := by decide +kernel
  obtain ⟨invoice, hmem⟩ :=
    List.exists_mem_of_ne_nil (scannedOnce paidAtTop).invoices (by decide +kernel)
  have hquiet : Quiet 2 (scannedOnce paidAtTop) invoice := by
    intro x hx b hb _
    rw [htransfers invoice hmem, List.mem_singleton] at hx
    rw [hx] at hb
    cases hb
    decide +kernel
  exact ⟨invoice, hmem, htransfers invoice hmem,
    (restart_unchanged_iff (by decide) hstore paidAtTop.client_consistent hstart
      (.single (.step hstep)) hrestart invoice hmem (Set.mem_univ _)).mpr hquiet⟩

/-- **A restart doubles a payment below the top block**: one payment of half the requested amount
makes the invoice paid. -/
theorem restart_doubles_payment :
    Step .exact Set.univ (smallStart paidBelowTop smallStore) (scannedOnce paidBelowTop) ∧
    Restart .exact 2 Set.univ (scannedOnce paidBelowTop) (restartedOnce paidBelowTop)
      ((restartedOnce paidBelowTop).afterScan paidBelowTop) paidBelowTop.client
      (plainEnv paidBelowTop) none ∧
    (scannedOnce paidBelowTop).invoices.map (fun i => (i.transfers, i.isPaid))
      = [([⟨5, some 1⟩], false)] ∧
    ((restartedOnce paidBelowTop).afterScan paidBelowTop).invoices.map
      (fun i => (i.transfers, i.isPaid)) = [([⟨5, some 1⟩, ⟨5, some 1⟩], true)] ∧
    ¬ ∀ invoice ∈ (scannedOnce paidBelowTop).invoices,
      ∃ invoice' ∈ ((restartedOnce paidBelowTop).afterScan paidBelowTop).invoices,
        invoice'.id = invoice.id ∧ PaidUnchanged invoice invoice' := by
  have hscan : (smallStart paidBelowTop smallStore).scan .exact (plainEnv paidBelowTop)
      = (.ok (), scannedOnce paidBelowTop) := scan_eq_afterScan (by decide +kernel)
  refine ⟨.scan (plainEnv_undisturbed _) (.of_covers (by decide +kernel) _) hscan,
    restart_small (by decide +kernel) rfl (by decide +kernel)
    (by decide +kernel) (by decide +kernel) (by decide +kernel) (by decide +kernel),
    by decide +kernel, by decide +kernel, fun hall => ?_⟩
  have hperm : ¬ ∀ invoice ∈ (scannedOnce paidBelowTop).invoices,
      ∃ invoice' ∈ ((restartedOnce paidBelowTop).afterScan paidBelowTop).invoices,
        invoice'.id = invoice.id ∧ invoice'.blockTransfers.Perm invoice.blockTransfers := by
    decide +kernel
  refine hperm fun invoice hmem => ?_
  obtain ⟨invoice', hmem', hid, hpaid⟩ := hall invoice hmem
  exact ⟨invoice', hmem', hid, hpaid.transfers⟩

end Gateway

end AcceptXmr
