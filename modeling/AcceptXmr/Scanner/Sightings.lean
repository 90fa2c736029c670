import AcceptXmr.Scanner.Scan

/-! # What a scan counts

A transfer of an invoice is an amount with a height; the output it was received with is forgotten.
Here the outputs are followed through a scan: from the transactions in which the scan finds them,
over the transfers that are remembered from the txpool, to the invoices that they are added to.

* **`look`** — the outputs that a scan finds, and where.
* **`scan_look`** — the transfers that a scan adds to invoices are those of the outputs it finds. -/

namespace AcceptXmr

open AssocMap
open scoped List

/-! ## Where a scan meets transactions -/

namespace Scanner

/-- The transactions that a scan looks into, each with its height, `none` for the txpool. -/
def transactionsIn (env : ScanEnv) (self : Scanner) : List (Transaction × Option ℕ) :=
  match self.updateCaches env.client with
  | (.error _, _) => []
  | (.ok (blocksUpdated, newTransactions), mid) =>
      ((List.range (if mid.firstScan then mid.blockCache.blocks.length else blocksUpdated)).flatMap
        fun i => (cachedTransactions mid.blockCache i).map fun tx =>
          (tx, some (U64.sub mid.blockCache.height i)))
      ++ newTransactions.map fun tx => (tx, none)

/-- **Where a scan meets a transaction**: in the blocks, among the new ones of the txpool, or in
what is remembered of the txpool. -/
def meets (env : ScanEnv) (self : Scanner) (hash : Hash) : List (Option ℕ) :=
  ((self.transactionsIn env).filter fun e => decide (e.1.hash = hash)).map Prod.snd ++
    if hash ∈ keys (self.updateCaches env.client).2.txpoolCache.discoveredTransfers then [none]
    else []

end Scanner

/-- The transactions agree on which subaddress an output pays to. -/
def PaysAs (pays : OutputId → SubIndex) (transactions : List Transaction) : Prop :=
  ∀ tx ∈ transactions, ∀ output ∈ tx.outputs, pays (tx.outputId output) = output.subIndex

instance (pays : OutputId → SubIndex) (transactions : List Transaction) :
    Decidable (PaysAs pays transactions) :=
  inferInstanceAs (Decidable (∀ tx ∈ transactions, ∀ output ∈ tx.outputs, _ = _))

/-- Amounts are listed under the hash of their transaction, with the subaddress that their output
pays to. -/
def Filed (pays : OutputId → SubIndex) (amounts : List (Hash × List OwnedAmount)) : Prop :=
  ∀ e ∈ amounts, ∀ a ∈ e.2, a.outputId.txHash = e.1 ∧ pays a.outputId = a.subIndex

/-- What is found in some transactions is received with one of their outputs. -/
theorem mem_foundIn {S : Backend} {checker : SubKeyChecker} {s : Shared}
    {transactions : List Transaction} {e : Hash × List OwnedAmount} {a : OwnedAmount}
    (he : e ∈ foundIn S checker s transactions) (ha : a ∈ e.2) :
    ∃ tx ∈ transactions, ∃ output ∈ tx.outputs,
      tx.hash = e.1 ∧ a.outputId = tx.outputId output ∧ a.subIndex = output.subIndex := by
  rcases mem_of_mem_pushEntries he ha with ⟨e', he', -⟩ | hmem
  · cases he'
  · obtain ⟨p, hp, hreceived⟩ := List.mem_filterMap.mp hmem
    obtain ⟨tx, htx, hp⟩ := List.mem_flatMap.mp hp
    obtain ⟨output, houtput, rfl⟩ := List.mem_map.mp hp
    split at hreceived
    · obtain ⟨hhash, hindex, -, -, hid⟩ := receivedWith_eq_some hreceived
      exact ⟨tx, List.mem_of_mem_filter htx, output, List.mem_of_mem_filter houtput, hhash.symm,
        hid, hindex⟩
    · cases hreceived

theorem PaysAs.filed {pays : OutputId → SubIndex} {transactions : List Transaction}
    (h : PaysAs pays transactions) (S : Backend) (checker : SubKeyChecker) (s : Shared) :
    Filed pays (foundIn S checker s transactions) := by
  intro e he a ha
  obtain ⟨tx, htx, output, houtput, hhash, hid, hindex⟩ := mem_foundIn he ha
  rw [hid, hindex]
  exact ⟨hhash, h tx htx output houtput⟩

theorem Filed.retain {pays : OutputId → SubIndex} {amounts : List (Hash × List OwnedAmount)}
    (h : Filed pays amounts) (p : Hash → Bool) : Filed pays (retain p amounts) :=
  fun e he => h e (List.mem_of_mem_filter he)

theorem Filed.extend {pays : OutputId → SubIndex} {amounts new : List (Hash × List OwnedAmount)}
    (h : Filed pays amounts) (hnew : Filed pays new) : Filed pays (extend amounts new) :=
  fun e he => (mem_extend he).elim (h e) (hnew e)

/-! ## Sightings -/

/-- An amount where a scan finds it, `none` for the txpool. -/
structure Sighting where
  amount : OwnedAmount
  height : Option ℕ
  deriving DecidableEq

namespace Sighting

/-- The output that was seen. -/
abbrev outputId (self : Sighting) : OutputId := self.amount.outputId

/-- What becomes of it in an invoice. -/
def transfer (self : Sighting) : Transfer := ⟨self.amount.amount, self.height⟩

/-- Whether `update_invoices` adds it to an invoice. -/
def countsFor (self : Sighting) (invoice : Invoice) : Bool :=
  decide (self.amount.subIndex = invoice.index) &&
    (self.transfer.cmpByHeight ⟨0, some (U64.sub invoice.creationHeight 1)⟩).isGT

/-- What counts for an invoice pays to its subaddress and is not below its creation height. -/
theorem of_countsFor {x : Sighting} {invoice : Invoice} (h : x.countsFor invoice = true) :
    x.amount.subIndex = invoice.index ∧ ∀ b, x.height = some b → invoice.creationHeight ≤ b := by
  rw [countsFor, Bool.and_eq_true, decide_eq_true_iff, Transfer.cmpByHeight_isGT] at h
  exact ⟨h.1, fun b hb => (show invoice.ReceivesAt b from h.2 b hb).creationHeight_le⟩

end Sighting

namespace Scanner

/-- The sightings in the `count` newest blocks, by the keys recorded in `s`. -/
def blockSightings (S : Backend) (checker : SubKeyChecker) (cache : BlockCache) (count : ℕ)
    (s : Shared) : List Sighting :=
  (List.range count).flatMap fun i =>
    (amountsIn (foundIn S checker s (cachedTransactions cache i))).map fun a =>
      ⟨a, some (U64.sub cache.height i)⟩

/-- The sightings in the txpool. -/
def poolSightings (amounts : List (Hash × List OwnedAmount)) : List Sighting :=
  (amountsIn amounts).map fun a => ⟨a, none⟩

/-- The amounts behind the transfers that are still remembered. -/
def remembered (self : Scanner) (discovered : List (Hash × List OwnedAmount)) :
    List (Hash × List OwnedAmount) :=
  retain (fun hash => decide (hash ∈ keys self.txpoolCache.discoveredTransfers)) discovered

/-- **What a scan finds.** `discovered` are the amounts behind the transfers that are remembered
from the txpool before the scan; the second component are those afterwards. -/
def look (S : Backend) (env : ScanEnv) (self : Scanner)
    (discovered : List (Hash × List OwnedAmount)) (s : Shared) : List Sighting × List (Hash × List OwnedAmount) :=
  match self.updateCaches env.client with
  | (.error _, mid) => ([], mid.remembered discovered)
  | (.ok (blocksUpdated, newTransactions), mid) =>
      let kept := mid.remembered discovered
      match (scanCaches env mid blocksUpdated newTransactions).run (handle S) s with
      -- Both scans succeed, and their transfers reach the invoices.
      | (.ok (.ok _, .ok _), found) =>
          let new := foundIn S env.checker found newTransactions
          let count := if mid.firstScan then mid.blockCache.blocks.length else blocksUpdated
          (blockSightings S env.checker mid.blockCache count found
            ++ poolSightings (extend new kept), extend kept new)
      -- Nothing is credited now, but the pool transfers are remembered.
      | (.ok (.error _, .ok _), found) =>
          ([], extend kept (foundIn S env.checker found newTransactions))
      | _ => ([], kept)

/-! ## The sightings are what a scan adds to invoices -/

/-- A sighting as the scan passes it on. -/
def owned (x : Sighting) : SubIndex × Transfer := (x.amount.subIndex, x.transfer)

/-- The transfers found in the blocks are those of the sightings. -/
theorem BlocksScanned.perm {S : Backend} {env : ScanEnv} {cache : BlockCache} {count : ℕ}
    {transfers : List (SubIndex × Transfer)} {s : Shared}
    (h : BlocksScanned S env cache count transfers s) :
    transfers.Perm ((blockSightings S env.checker cache count s).map owned) := by
  rw [h.transfers, blockSightings, List.map_flatMap]
  refine ((List.reverse_perm _).flatMap_right _).trans (List.Perm.flatMap_left _ fun i _ => ?_)
  -- Within a block the order is that of a hash map.
  refine (((env.blockOrder i).perm _).flatMap_right _).trans (List.Perm.of_eq ?_)
  rw [amountsIn, List.map_map, List.map_flatMap]
  rfl

/-- The transfers found in the txpool are those of the sightings. -/
theorem TxpoolScanned.perm {S : Backend} {env : ScanEnv} {cache cache' : TxpoolCache}
    {newTransactions : List Transaction} {transfers : List (SubIndex × Transfer)} {s : Shared}
    {kept : List (Hash × List OwnedAmount)}
    (h : TxpoolScanned S env cache newTransactions transfers cache' s)
    (hkept : cache.discoveredTransfers = txpoolTransfers kept) :
    transfers.Perm
      ((poolSightings (extend (foundIn S env.checker s newTransactions) kept)).map owned) := by
  have hextend : extend (txpoolTransfers (foundIn S env.checker s newTransactions))
      (txpoolTransfers kept)
        = txpoolTransfers (extend (foundIn S env.checker s newTransactions) kept) :=
    extend_map _ _ _
  rw [h.transfers, hkept, hextend, txpoolTransfers]
  refine ((env.txpoolOrder.perm _).flatMap_right _).trans (List.Perm.of_eq ?_)
  rw [poolSightings, amountsIn, List.map_map, List.map_flatMap, List.flatMap_map]
  rfl

/-- The transfers remembered after the txpool has been scanned. -/
theorem TxpoolScanned.discovered {S : Backend} {env : ScanEnv} {cache cache' : TxpoolCache}
    {newTransactions : List Transaction} {transfers : List (SubIndex × Transfer)} {s : Shared}
    {kept : List (Hash × List OwnedAmount)}
    (h : TxpoolScanned S env cache newTransactions transfers cache' s)
    (hkept : cache.discoveredTransfers = txpoolTransfers kept) :
    cache'.discoveredTransfers
      = txpoolTransfers (extend kept (foundIn S env.checker s newTransactions)) := by
  rw [h.cache, TxpoolCache.insertTransfers, hkept]
  exact extend_map _ _ _

/-- Updating the caches only forgets remembered transfers. -/
theorem updateCaches_discovered (client : MonerodClient) (self : Scanner) :
    ∃ p, (self.updateCaches client).2.txpoolCache.discoveredTransfers
      = retain p self.txpoolCache.discoveredTransfers := by
  have hall : self.txpoolCache.discoveredTransfers
      = retain (fun _ => true) self.txpoolCache.discoveredTransfers := by
    rw [retain, List.filter_true]
  have hupdate : ∀ cache' result, self.txpoolCache.update client = (result, cache') →
      ∃ p, cache'.discoveredTransfers = retain p self.txpoolCache.discoveredTransfers := by
    intro cache' result h
    unfold TxpoolCache.update at h
    split at h
    · cases h
      exact ⟨_, hall⟩
    · rename_i txpoolHashes _
      dsimp only at h
      split at h
      · cases h
        exact ⟨fun hash => decide (hash ∈ txpoolHashes), rfl⟩
      · cases h
        exact ⟨fun hash => decide (hash ∈ txpoolHashes), rfl⟩
  unfold updateCaches
  split
  · exact ⟨_, hall⟩
  · split
    · rename_i hpool
      exact hupdate _ _ hpool
    · rename_i hpool
      exact hupdate _ _ hpool

/-- The transfers that are still remembered are those of the amounts that are. -/
theorem discovered_remembered {client : MonerodClient} {self mid : Scanner}
    {result : Except ScannerError (ℕ × List Transaction)}
    {discovered : List (Hash × List OwnedAmount)}
    (h : self.updateCaches client = (result, mid))
    (hlink : self.txpoolCache.discoveredTransfers = txpoolTransfers discovered) :
    mid.txpoolCache.discoveredTransfers = txpoolTransfers (mid.remembered discovered) := by
  obtain ⟨p, hp⟩ := updateCaches_discovered client self
  have hmid : mid.txpoolCache.discoveredTransfers = txpoolTransfers (retain p discovered) := by
    rw [h, hlink] at hp
    exact hp.trans (retain_map _ _ _)
  have hkeys : keys mid.txpoolCache.discoveredTransfers = keys (retain p discovered) := by
    rw [hmid]
    exact keys_map _ _
  rw [hmid, remembered, hkeys, retain_mem_keys_retain]

/-- **A scan adds what it has found.** Afterwards the amounts of `look` are behind the remembered
transfers. If the scan comes to the invoices, every one becomes what the transfers of the sightings
make of it; else no invoice changes. -/
theorem scan_look {S : Backend} {env : ScanEnv} {self self' : Scanner} {s s' : Shared}
    {result : Except ScannerError Unit} {discovered : List (Hash × List OwnedAmount)}
    (hlink : self.txpoolCache.discoveredTransfers = txpoolTransfers discovered)
    (h : (scan env self).run (handle S) s = (.ok (result, self'), s')) :
    self'.txpoolCache.discoveredTransfers = txpoolTransfers (look S env self discovered s).2 ∧
      (s'.store.invoices = s.store.invoices ∨
        s.faults.forEach = none ∧ ∃ transfers height deepestUpdate,
          transfers.Perm ((look S env self discovered s).1.map owned) ∧
          s'.store.invoices
            = s.store.invoices.map (savedInvoice s.faults transfers height deepestUpdate)) := by
  cases scan_run h with
  | notUpdated hcaches =>
      have hkept := discovered_remembered hcaches hlink
      simp only [look, hcaches]
      exact ⟨hkept, .inl trivial⟩
  | @poolNotScanned _ _ _ blocks _ _ hcaches hrun e =>
      -- Nothing new is remembered, although the blocks may have been scanned.
      have hkept := discovered_remembered hcaches hlink
      obtain ⟨hgrows, -, -⟩ := scanned_of_run hrun
      simp only [look, hcaches, hrun]
      cases blocks with
      | error e => exact ⟨hkept, .inl hgrows.invoices⟩
      | ok blocksAmounts => exact ⟨hkept, .inl hgrows.invoices⟩
  | blocksNotScanned hcaches hrun =>
      -- The cache has the new transfers of the txpool already.
      have hkept := discovered_remembered hcaches hlink
      obtain ⟨hgrows, -, htxpool⟩ := scanned_of_run hrun
      simp only [look, hcaches, hrun]
      exact ⟨(htxpool _ _ rfl).discovered hkept, .inl hgrows.invoices⟩
  | @finished blocksUpdated _ mid blocksAmounts txpoolAmounts _ u _ _ hcaches hrun hfinish =>
      have hkept := discovered_remembered hcaches hlink
      obtain ⟨hgrows, hblocks, htxpool⟩ := scanned_of_run hrun
      simp only [look, hcaches, hrun]
      refine ⟨(htxpool _ _ rfl).discovered hkept, ?_⟩
      have hfor : u.faults.forEach = s.faults.forEach := by rw [hgrows.faults]
      obtain ⟨-, rfl, -⟩ | ⟨hnone, hsaved, -⟩ := run_finishScan hfinish
      · exact .inl hgrows.invoices
      · -- The invoices are settled with the transfers of the blocks and of the whole cache.
        refine .inr ⟨hfor ▸ hnone, blocksAmounts ++ txpoolAmounts, mid.blockCache.height,
          U64.sub (mid.blockCache.height + 1) blocksUpdated, ?_, ?_⟩
        · rw [List.map_append]
          exact (hblocks _ rfl).perm.append ((htxpool _ _ rfl).perm hkept)
        · rw [hsaved.invoices, hgrows.invoices]
          refine List.map_congr_left fun old _ => ?_
          rw [savedInvoice, savedInvoice, hgrows.faults]

/-- The transfers that an update adds are those of the sightings that count for the invoice. -/
theorem addedTransfers_perm {transfers : List (SubIndex × Transfer)} {sightings : List Sighting}
    (h : transfers.Perm (sightings.map owned)) (old : Invoice) :
    (addedTransfers transfers old).Perm
      ((sightings.filter fun x => x.countsFor old).map Sighting.transfer) := by
  refine ((h.filter _).map _).trans (List.Perm.of_eq ?_)
  rw [List.filter_map, List.map_map]
  rfl

/-! ## Where the sightings are -/

section Look

variable {S : Backend} {env : ScanEnv} {self : Scanner}
  {discovered : List (Hash × List OwnedAmount)} {s : Shared} {pays : OutputId → SubIndex}

/-- A scan meets a transaction that it looks into. -/
theorem mem_meets_of_mem_transactionsIn {tx : Transaction} {height : Option ℕ}
    (h : (tx, height) ∈ self.transactionsIn env) : height ∈ self.meets env tx.hash := by
  refine List.mem_append_left _ (List.mem_map.mpr ⟨(tx, height), List.mem_filter.mpr ⟨h, ?_⟩, rfl⟩)
  exact decide_eq_true rfl

/-- What is found in transactions that the scan looks into at one height is met there. -/
theorem met_of_found (htransactions : PaysAs pays ((self.transactionsIn env).map Prod.fst))
    {transactions : List Transaction} {height : Option ℕ}
    (hall : ∀ tx ∈ transactions, (tx, height) ∈ self.transactionsIn env) {u : Shared}
    {a : OwnedAmount} (ha : a ∈ amountsIn (foundIn S env.checker u transactions)) :
    height ∈ self.meets env a.outputId.txHash ∧ pays a.outputId = a.subIndex := by
  obtain ⟨e, he, ha⟩ := List.mem_flatMap.mp ha
  obtain ⟨tx, htx, output, houtput, -, hid, hindex⟩ := mem_foundIn he ha
  have hmem := hall tx htx
  rw [hid, hindex]
  exact ⟨mem_meets_of_mem_transactionsIn hmem,
    htransactions tx (List.mem_map_of_mem hmem) output houtput⟩

/-- What is still remembered from the txpool is met there: it stands under the hash of its
transaction. -/
theorem met_of_remembered (hdiscovered : Filed pays discovered) {mid : Scanner}
    {result : Except ScannerError (ℕ × List Transaction)}
    (hcaches : self.updateCaches env.client = (result, mid)) {a : OwnedAmount}
    (ha : a ∈ amountsIn (mid.remembered discovered)) :
    none ∈ self.meets env a.outputId.txHash ∧ pays a.outputId = a.subIndex := by
  obtain ⟨e, he, ha⟩ := List.mem_flatMap.mp ha
  obtain ⟨he, hkey⟩ := List.mem_filter.mp he
  obtain ⟨hhash, hindex⟩ := hdiscovered e he a ha
  refine ⟨List.mem_append_right _ ?_, hindex⟩
  rw [hcaches, hhash, if_pos (of_decide_eq_true hkey)]
  exact List.mem_singleton_self _

/-- **Sightings are where the scan meets their transactions**, and the amounts that are remembered
afterwards are in order. -/
theorem look_meets (hdiscovered : Filed pays discovered)
    (htransactions : PaysAs pays ((self.transactionsIn env).map Prod.fst)) :
    (∀ x ∈ (look S env self discovered s).1, x.height ∈ self.meets env x.outputId.txHash ∧
        pays x.outputId = x.amount.subIndex) ∧
      Filed pays (look S env self discovered s).2 := by
  unfold look
  cases hcaches : self.updateCaches env.client with
  | mk caches mid =>
      have hkept : Filed pays (mid.remembered discovered) := hdiscovered.retain _
      cases caches with
      | error e => exact ⟨nofun, hkept⟩
      | ok updated =>
          obtain ⟨blocksUpdated, newTransactions⟩ := updated
          have hnew : ∀ tx ∈ newTransactions, (tx, none) ∈ self.transactionsIn env := by
            intro tx htx
            rw [transactionsIn, hcaches]
            exact List.mem_append_right _ (List.mem_map_of_mem htx)
          have hfound : ∀ u, Filed pays (foundIn S env.checker u newTransactions) :=
            fun u => PaysAs.filed (fun tx htx => htransactions tx (List.mem_map_of_mem (hnew tx htx)))
              S env.checker u
          dsimp only
          split
          · rename_i u hrun
            refine ⟨fun x hx => ?_, hkept.extend (hfound u)⟩
            rcases List.mem_append.mp hx with hx | hx
            · obtain ⟨i, hi, hx⟩ := List.mem_flatMap.mp hx
              obtain ⟨a, ha, rfl⟩ := List.mem_map.mp hx
              refine met_of_found htransactions (fun tx htx => ?_) ha
              rw [transactionsIn, hcaches]
              exact List.mem_append_left _ (List.mem_flatMap.mpr ⟨i, hi, List.mem_map_of_mem htx⟩)
            · obtain ⟨a, ha, rfl⟩ := List.mem_map.mp hx
              obtain ⟨e, he, ha⟩ := List.mem_flatMap.mp ha
              -- In the txpool it is new, or it was remembered and is still there.
              rcases mem_extend he with he | he
              · exact met_of_found htransactions hnew (List.mem_flatMap.mpr ⟨e, he, ha⟩)
              · exact met_of_remembered hdiscovered hcaches (List.mem_flatMap.mpr ⟨e, he, ha⟩)
          · exact ⟨nofun, hkept.extend (hfound _)⟩
          · exact ⟨nofun, hkept⟩

end Look

end Scanner

end AcceptXmr
