import AcceptXmr.Scanner.Scan

/-! # Saving and publishing

The order of a scan's requests. Scanning the caches asks about output keys and subaddresses only;
afterwards every update that is published is the one that has been saved just before.

* **`scan_follows`** — a scan publishes what it has saved, and neither creates nor removes
  invoices.
* **`scan_savesRead`** — a scan saves updates of what it has read. -/

namespace AcceptXmr

open Resumption

/-- The requests by which transactions are scanned. -/
def Request.IsKey : Request → Prop
  | .getOutputKeyId _ | .insertOutputKey _ _ | .containsSubIndex _ => True
  | _ => False

/-- Whether a scan may send a request after the save of `saved`: it publishes only that, and neither
creates nor removes invoices. -/
def Request.AllowedAfter (saved : Option Invoice) : Request → Prop
  | .sendUpdates invoice => saved = some invoice
  | .insertInvoice _ | .removeInvoice _ => False
  | _ => True

/-- Whether a request publishes an update. -/
def Request.publishes : Request → Bool
  | .sendUpdates _ => true
  | _ => false

/-- The invoice that a request has saved. -/
def Request.saved : (req : Request) → req.Response → Option Invoice
  | .updateInvoice invoice, .ok _ => some invoice
  | _, _ => none

/-- **A program that publishes only what it has just saved.** -/
def Program.PublishesSaved {α : Type} (saved : Option Invoice) (p : Program α) : Prop :=
  p.Follows Request.AllowedAfter Request.saved saved

/-- What the scan of transactions asks for is allowed after any request: it publishes nothing. -/
theorem Request.IsKey.allowedAfter {req : Request} (h : req.IsKey) (saved : Option Invoice) :
    req.AllowedAfter saved := by
  cases req <;> trivial

/-- **What an allowed request does**: it leaves invoices and updates alone, saves an invoice, or
publishes the one just saved. -/
theorem handle_allowedAfter (S : Backend) {saved : Option Invoice} {req : Request} (s : Shared)
    (h : req.AllowedAfter saved) :
    ((handle S req s).2.store.invoices = s.store.invoices ∧
      (handle S req s).2.published = s.published ∧ req.saved (handle S req s).1 = none) ∨
    (∃ invoice, req = .updateInvoice invoice ∧ s.faults.save invoice.id = none ∧
      (handle S req s).2.store.invoices = (s.store.updateInvoice invoice).invoices ∧
      (handle S req s).2.published = s.published ∧
      req.saved (handle S req s).1 = some invoice) ∨
    (∃ invoice, saved = some invoice ∧ (handle S req s).2.store.invoices = s.store.invoices ∧
      (handle S req s).2.published = s.published ++ [invoice] ∧
      req.saved (handle S req s).1 = none) := by
  cases req with
  -- Requests that a scan never sends.
  | insertInvoice invoice => cases h
  | removeInvoice id => cases h
  | updateInvoice invoice =>
      cases hfault : s.faults.save invoice.id with
      | some e =>
          simp only [handle, serve, hfault]
          exact .inl ⟨trivial, trivial, rfl⟩
      | none =>
          refine .inr (.inl ⟨invoice, rfl, hfault, ?_⟩)
          simp only [handle, serve, hfault]
          exact ⟨trivial, trivial, rfl⟩
  -- What is published is what the program has saved just before.
  | sendUpdates invoice => exact .inr (.inr ⟨invoice, h, rfl, rfl, rfl⟩)
  | containsSubIndex index =>
      have hgrows := handle_containsSubIndex_grows S index s
      exact .inl ⟨hgrows.invoices, hgrows.published, rfl⟩
  | getOutputKeyId key =>
      have hgrows := handle_getOutputKeyId_grows S key s
      exact .inl ⟨hgrows.invoices, hgrows.published, rfl⟩
  | insertOutputKey key outputId =>
      have hgrows := handle_insertOutputKey_grows S key outputId s
      exact .inl ⟨hgrows.invoices, hgrows.published, rfl⟩
  | getInvoice id | getInvoiceIds | lowestInvoiceHeight | getHeight =>
      exact .inl ⟨rfl, rfl, rfl⟩
  | forEachInvoice =>
      refine .inl ?_
      simp only [handle, serve]
      cases s.faults.forEach <;> exact ⟨rfl, rfl, rfl⟩
  | upsertHeight height =>
      refine .inl ?_
      simp only [handle, serve]
      cases s.faults.upsertHeight <;> exact ⟨rfl, rfl, rfl⟩
  | flush =>
      refine .inl ?_
      simp only [handle, serve]
      cases s.faults.flush <;> exact ⟨rfl, rfl, rfl⟩

/-- An allowed request keeps the ids of the stored invoices. -/
theorem handle_getIds (S : Backend) {saved : Option Invoice} {req : Request} (s : Shared)
    (h : req.AllowedAfter saved) : (handle S req s).2.store.getIds = s.store.getIds := by
  obtain ⟨hinvoices, -⟩ | ⟨invoice, -, -, hinvoices, -⟩ | ⟨invoice, -, hinvoices, -⟩ :=
    handle_allowedAfter S s h
  · rw [Store.getIds, hinvoices, Store.getIds]
  · rw [Store.getIds, hinvoices]
    exact Store.getIds_updateInvoice _ _
  · rw [Store.getIds, hinvoices, Store.getIds]

/-- **A program that publishes what it has saved** keeps the ids of the stored invoices. -/
theorem Program.PublishesSaved.getIds_run {α : Type} {S : Backend} {saved : Option Invoice}
    {p : Program α} (h : Program.PublishesSaved saved p) (s : Shared) :
    (p.run (handle S) s).2.store.getIds = s.store.getIds := by
  induction p generalizing saved s with
  | done result => rfl
  | call req next ih =>
      rw [run_call, ih _ (h.2 _)]
      exact handle_getIds S s h.1

/-! ## Scanning transactions -/

/-- The uniqueness check asks for the recorded key, and records one. -/
theorem outputKeyIsUnique_asks (output : OwnedTxOut) (txHash : Hash) :
    (outputKeyIsUnique output txHash).Asks Request.IsKey := by
  unfold outputKeyIsUnique
  split
  · trivial
  · refine Asks.bind ⟨trivial, fun _ => trivial⟩ fun found => ?_
    cases found with
    | some stored => trivial
    | none => exact Asks.bind ⟨trivial, fun _ => trivial⟩ fun _ => trivial

/-- One owned output: the check of its key, and whether its index is tracked. -/
theorem scanOutput_asks (txHash : Hash) (output : OwnedTxOut) :
    (scanOutput txHash output).Asks Request.IsKey := by
  refine Asks.bind (outputKeyIsUnique_asks output txHash) fun found => ?_
  cases found with
  | false => trivial
  | true =>
      refine Asks.bind ⟨trivial, fun _ => trivial⟩ fun tracked => ?_
      cases tracked with
      | false => trivial
      | true => cases h : output.amount <;> trivial

/-- All owned outputs, by induction on their list. -/
theorem scanOutputs_asks (outputs : List (Hash × OwnedTxOut))
    (amountsReceived : List (Hash × List OwnedAmount)) :
    (scanOutputs outputs amountsReceived).Asks Request.IsKey := by
  induction outputs generalizing amountsReceived with
  | nil => trivial
  | cons p rest ih =>
      refine Asks.bind (scanOutput_asks p.1 p.2) fun got => ?_
      cases got with
      | none => exact ih _
      | some amount => exact ih _

/-- `scan_transactions` sends no other requests, however the output check goes. -/
theorem scanTransactions_asks (checkFails : Transaction → Bool) (transactions : List Transaction)
    (checker : SubKeyChecker) :
    (scanTransactions checkFails transactions checker).Asks Request.IsKey := by
  unfold scanTransactions
  split
  · trivial
  · exact scanOutputs_asks _ _

namespace Scanner

/-- Nor does the loop over the cached blocks, by induction on the blocks that are left. -/
theorem scanBlocksFrom_asks (env : ScanEnv) (cache : BlockCache) (count : ℕ)
    (transfers : List (SubIndex × Transfer)) :
    (scanBlocksFrom env cache count transfers).Asks Request.IsKey := by
  induction count generalizing transfers with
  | zero => trivial
  | succ i ih => exact Asks.bind (scanTransactions_asks _ _ _) fun _ => ih _

/-- **Scanning the caches** asks about output keys and subaddresses only. -/
theorem scanCaches_asks (env : ScanEnv) (self : Scanner) (blocksUpdated : ℕ)
    (newTransactions : List Transaction) :
    (scanCaches env self blocksUpdated newTransactions).Asks Request.IsKey :=
  Asks.merge _ (scanBlocksFrom_asks _ _ _ _)
    (Asks.bind (scanTransactions_asks _ _ _) fun _ => trivial)

/-! ## The whole scan -/

/-- The loop that saves the updates publishes each of them right after it has been saved, by induction
on the updates that are left. -/
theorem saveUpdates_follows (updates : List Invoice) (saved : Option Invoice) :
    Program.PublishesSaved saved (saveUpdates updates) := by
  induction updates generalizing saved with
  | nil => trivial
  | cons invoice rest ih =>
      refine ⟨trivial, fun result => ?_⟩
      cases result with
      | error e => exact ih _
      | ok old => exact ⟨rfl, fun _ => ih _⟩

/-- The end of a scan: recording the height and flushing publish nothing, and the updates are saved and
published one by one. -/
theorem finishScan_follows (cacheHeight blocksUpdated : ℕ) (transfers : List (SubIndex × Transfer))
    (saved : Option Invoice) :
    Program.PublishesSaved saved (finishScan cacheHeight blocksUpdated transfers) := by
  refine Follows.bind ?_ fun _ updates => ?_
  · exact Follows.bind ⟨trivial, fun _ => trivial⟩ fun _ _ => trivial
  · refine Follows.bind (saveUpdates_follows updates _) fun _ _ => ?_
    exact Follows.bind ⟨trivial, fun _ => trivial⟩ fun _ _ => ⟨trivial, fun _ => trivial⟩

/-- **A scan publishes what it has saved**, and neither creates nor removes invoices. -/
theorem scan_follows (env : ScanEnv) (self : Scanner) :
    Program.PublishesSaved none (scan env self) := by
  unfold scan
  split
  · trivial
  · refine Follows.bind ((scanCaches_asks _ _ _ _).follows (fun _ _ h => h.allowedAfter _) _)
      fun saved results => ?_
    obtain ⟨blocks, txpool⟩ := results
    cases blocks with
    | error e => cases txpool <;> trivial
    | ok blocksAmounts =>
        cases txpool with
        | error e => trivial
        | ok found =>
            exact Follows.bind (finishScan_follows _ _ _ _).attempt fun _ _ => trivial

end Scanner

/-! ## Saving what has been read -/

/-- Whether a request reads all invoices. -/
def Request.IsRead : Request → Prop
  | .forEachInvoice => True
  | _ => False

/-- Whether a request saves an invoice under the given id. -/
def Request.IsSaveOf (id : InvoiceId) : Request → Prop
  | .updateInvoice invoice => invoice.id = id
  | _ => False

/-- Whether a request may be sent after the invoices `known` have been read: it saves only updates
of these. -/
def Request.SavesFrom (known : List Invoice) : Request → Prop
  | .updateInvoice invoice => ∃ old ∈ known, old.Keeps invoice
  | _ => True

/-- The invoices that have been read, after one more request. -/
def Request.known (known : List Invoice) : (req : Request) → req.Response → List Invoice
  | .forEachInvoice, .ok items => items.filterMap Except.toOption
  | .forEachInvoice, .error _ => []
  | _, _ => known

/-- **A program that saves only updates of what it has read.** -/
def Program.SavesRead {α : Type} (known : List Invoice) (p : Program α) : Prop :=
  p.FollowsWith Request.SavesFrom Request.known known

/-- Whether a program may save an invoice under the id before it reads again. -/
def Program.MaySave {α : Type} (id : InvoiceId) (p : Program α) : Prop :=
  p.MaySend (Request.IsSaveOf id) Request.IsRead

/-- What the scan of transactions asks for saves no invoice. -/
theorem Request.IsKey.savesFrom {req : Request} (h : req.IsKey) (known : List Invoice) :
    req.SavesFrom known := by
  cases req <;> trivial

/-- Only the answer to a request that reads the invoices changes what is known. -/
theorem Request.known_of_not_isRead {req : Request} (h : ¬ req.IsRead) (known : List Invoice)
    (x : req.Response) : Request.known known req x = known := by
  cases req with
  | forEachInvoice => exact absurd trivial h
  | _ => rfl

namespace Scanner

/-- Updates that keep the terms of invoices that have been read may be saved. -/
theorem saveUpdates_savesRead {updates known : List Invoice}
    (h : ∀ new ∈ updates, ∃ old ∈ known, old.Keeps new) :
    Program.SavesRead known (saveUpdates updates) := by
  induction updates with
  | nil => trivial
  | cons invoice rest ih =>
      have hrest := ih fun new hnew => h new (List.mem_cons_of_mem _ hnew)
      refine ⟨h invoice List.mem_cons_self, fun result => ?_⟩
      cases result with
      | error e => exact hrest
      | ok old => exact ⟨trivial, fun _ => hrest⟩

/-- The end of a scan saves only what it has made of the invoices that it has read itself. -/
theorem finishScan_savesRead (cacheHeight blocksUpdated : ℕ)
    (transfers : List (SubIndex × Transfer)) (known : List Invoice) :
    Program.SavesRead known (finishScan cacheHeight blocksUpdated transfers) := by
  refine ⟨trivial, fun items => ?_⟩
  cases items with
  | error e => trivial
  | ok items =>
      have hsaves : Program.SavesRead (items.filterMap Except.toOption) (saveUpdates
          (updatedInvoices transfers cacheHeight (U64.sub (cacheHeight + 1) blocksUpdated) items)) := by
        refine saveUpdates_savesRead fun new hnew => ?_
        obtain ⟨item, hitem, hupdate⟩ := List.mem_filterMap.mp hnew
        cases item with
        | error e => cases hupdate
        | ok old =>
            exact ⟨old, List.mem_filterMap.mpr ⟨_, hitem, rfl⟩, updateInvoice_keeps _ _ _ _ hupdate⟩
      exact hsaves.bind (f := fun _ => do
        let _ ← StorageClient.upsertHeight cacheHeight
        StorageClient.flush) fun _ _ =>
          FollowsWith.bind ⟨trivial, fun _ => trivial⟩ fun _ _ => ⟨trivial, fun _ => trivial⟩

/-- **A scan saves only updates of the invoices it has read**, with what they were created with. -/
theorem scan_savesRead (env : ScanEnv) (self : Scanner) (known : List Invoice) :
    Program.SavesRead known (scan env self) := by
  unfold scan
  split
  · trivial
  · refine FollowsWith.bind
      ((scanCaches_asks _ _ _ _).followsWith (fun _ _ h => h.savesFrom _) _) fun known results => ?_
    obtain ⟨blocks, txpool⟩ := results
    cases blocks with
    | error e => cases txpool <;> trivial
    | ok blocksAmounts =>
        cases txpool with
        | error e => trivial
        | ok found =>
            exact FollowsWith.bind (finishScan_savesRead _ _ _ _).attempt fun _ _ => trivial

end Scanner

end AcceptXmr
