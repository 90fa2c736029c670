import AcceptXmr.Gateway
import AcceptXmr.Pubsub.Publisher
import AcceptXmr.Scanner.Publishing

/-! # The server's watch loop

`spawn_gateway` of `server/src/lib.rs`: a task that receives all invoice updates and removes the
invoices that are expired and not pending confirmation. It runs beside the scanner and decides on
the update it has received, while the stored invoice may have been updated since.

* **`Server.turn`** — one step of the scanner or of the watch loop.
* **`expired_removed_only`** — as long as no save makes an invoice pending while an update that lets
  it be removed is still to be handled, no pending payment is dropped. -/

namespace AcceptXmr

/-- Whether the watch loop stops tracking an invoice: it is expired and not pending confirmation. -/
def Invoice.isOver (self : Invoice) : Bool :=
  self.isExpired && (self.isConfirmed || !self.isPaid)

/-- Where the watch loop stands, with the number of updates it has received. -/
inductive Watching where
  /-- The task has not subscribed yet. -/
  | starting
  | waiting (received : ℕ)
  /-- An update has been received, and its callback is being queued. -/
  | holding (received : ℕ) (invoice : Invoice)

/-- The scanner and the watch loop over one store. -/
structure Server where
  shared : Shared
  scanning : Scanning
  watching : Watching

namespace Server

/-- The updates in the channel of the watch loop. -/
def queue (self : Server) : List Invoice :=
  match self.watching with
  | .starting => []
  | .waiting received | .holding received _ => self.shared.published.drop received

/-- The updates that the watch loop has still to handle. -/
def unhandled (self : Server) : List Invoice :=
  match self.watching with
  | .starting | .waiting _ => self.queue
  | .holding _ invoice => invoice :: self.queue

/-- The next scan of the loop in `PaymentGateway::run`. -/
def startScan (env : ScanEnv) (self : Server) : Option Server :=
  match self.scanning with
  | .between scanner => some { self with
      shared := { self.shared with faults := env.faults }
      scanning := .during (scanner.scan env) }
  | .during _ => none

/-- **One step of a scan**: a request is served. Publishing waits for room in the channel of the
watch loop. -/
def scanStep (S : Backend) (self : Server) : Option Server :=
  match self.scanning with
  | .between _ => none
  | .during (.done (.ok (_, scanner))) => some { self with scanning := .between scanner }
  | .during (.done (.error _)) => none
  | .during (.call req next) =>
      -- Publishing waits while the channel of the watch loop is full.
      if req.publishes && decide (subscriptionBufferLen ≤ self.queue.length) then none
      else some { self with
        shared := (handle S req self.shared).2
        scanning := .during (next (handle S req self.shared).1) }

/-- **One step of the watch loop.** -/
def watchStep (S : Backend) (deleteExpired : Bool) (self : Server) : Option Server :=
  match self.watching with
  -- Subscribed to all invoices: what has been published before is not received.
  | .starting => some { self with watching := .waiting self.shared.published.length }
  | .waiting received =>
      match self.shared.published[received]? with
      | none => none
      | some invoice => some { self with watching := .holding (received + 1) invoice }
  | .holding received invoice =>
      some { self with
        -- The update decides, and not what is stored by now.
        shared := if invoice.isOver && deleteExpired
          then (handle S (.removeInvoice invoice.id) self.shared).2 else self.shared
        watching := .waiting received }

/-- Whose turn it is. -/
inductive Turn where
  | startScan (env : ScanEnv)
  | scanner
  | watch

/-- **One step of the server.** -/
def turn (S : Backend) (deleteExpired : Bool) (self : Server) : Turn → Option Server
  | .startScan env => self.startScan env
  | .scanner => self.scanStep S
  | .watch => self.watchStep S deleteExpired

/-- Whether the scanner's next step leaves the waiting updates true: it does not save an invoice as
not over while an update that says it is over has still to be handled. -/
def timely (deleteExpired : Bool) (self : Server) : Bool :=
  match self.scanning with
  | .during (.call (.updateInvoice invoice) _) =>
      !deleteExpired || (self.shared.faults.save invoice.id).isSome ||
        !(self.shared.store.getIds.contains invoice.id) || invoice.isOver ||
        self.unhandled.all fun update => decide (update.id ≠ invoice.id) || !update.isOver
  | _ => true

/-- Whether a turn is among those in which the scanner only makes steps that are `allowed`. -/
def Turn.within (allowed : Server → Bool) (c : Server) : Turn → Bool
  | .scanner => allowed c
  | .startScan _ | .watch => true

/-- **A step of a run** in which the scanner only makes steps that are `allowed`. -/
def Step (S : Backend) (deleteExpired : Bool) (allowed : Server → Bool) (c c' : Server) : Prop :=
  ∃ t : Turn, t.within allowed c = true ∧ c.turn S deleteExpired t = some c'

/-! ## Taking the steps apart -/

variable {S : Backend} {deleteExpired : Bool} {allowed : Server → Bool} {c c' : Server}

/-- **What one step of the scanner does.** -/
theorem scanStep_cases (h : c.scanStep S = some c') :
    (∃ result scanner, c.scanning = .during (.done (.ok (result, scanner))) ∧
      c' = { c with scanning := .between scanner }) ∨
    ∃ req next, c.scanning = .during (.call req next) ∧
      c' = { c with
        shared := (handle S req c.shared).2
        scanning := .during (next (handle S req c.shared).1) } := by
  unfold scanStep at h
  split at h
  · cases h
  · rename_i result scanner hscanning
    cases h
    exact .inl ⟨result, scanner, hscanning, rfl⟩
  · cases h
  · rename_i req next hscanning
    split at h
    · cases h
    · cases h
      exact .inr ⟨req, next, hscanning, rfl⟩

/-- Updates to be handled stay, and a published one joins them. -/
theorem mem_unhandled_of_published {invoice update : Invoice} {scanning : Scanning} {shared : Shared}
    (hpublished : shared.published = c.shared.published ++ [invoice])
    (h : update ∈ unhandled ⟨shared, scanning, c.watching⟩) :
    update ∈ c.unhandled ∨ update = invoice := by
  have hdrop : ∀ n, update ∈ shared.published.drop n →
      update ∈ c.shared.published.drop n ∨ update = invoice := by
    intro n hn
    rw [hpublished, List.drop_append, List.mem_append] at hn
    exact hn.imp_right fun hn => List.mem_singleton.mp (List.mem_of_mem_drop hn)
  unfold unhandled queue at h ⊢
  cases hwatching : c.watching with
  | starting =>
      rw [hwatching] at h
      cases h
  | waiting received =>
      rw [hwatching] at h
      exact hdrop received h
  | holding received held =>
      rw [hwatching] at h
      rcases List.mem_cons.mp h with rfl | h
      · exact .inl List.mem_cons_self
      · exact (hdrop received h).imp_left (List.mem_cons_of_mem _)

/-- What is to be handled depends on what has been published only. -/
theorem unhandled_congr {scanning : Scanning} {shared : Shared}
    (hpublished : shared.published = c.shared.published) :
    unhandled ⟨shared, scanning, c.watching⟩ = c.unhandled := by
  simp only [unhandled, queue, hpublished]

/-! ## The invariant -/

/-- The stored invoice with the id of `invoice`, if there is one, is `invoice`. -/
def SavedAs (shared : Shared) (invoice : Invoice) : Prop :=
  ∀ stored ∈ shared.store.invoices, stored.id = invoice.id → stored = invoice

/-- **What holds along a run**: the scan in progress publishes only what is stored, and an invoice
that an update lets be removed is over in the store, too. -/
structure Tracked (deleteExpired : Bool) (c : Server) : Prop where
  scan : ∀ program, c.scanning = .during program → ∃ saved,
    Program.PublishesSaved saved program ∧ ∀ invoice, saved = some invoice → SavedAs c.shared invoice
  isOver : deleteExpired = true → ∀ update ∈ c.unhandled, update.isOver = true →
    ∀ stored ∈ c.shared.store.invoices, stored.id = update.id → stored.isOver = true

/-- Where a server starts: the scanner between two scans, and the watch loop not subscribed. -/
def start (scanner : Scanner) (shared : Shared) : Server := ⟨shared, .between scanner, .starting⟩

theorem Tracked.start (scanner : Scanner) (shared : Shared) :
    Tracked deleteExpired (start scanner shared) where
  scan _ h := nomatch h
  isOver _ _ h := nomatch h

/-- Fewer updates to be handled and fewer stored invoices. -/
theorem Tracked.of_subset (ht : Tracked deleteExpired c) {watching : Watching} {shared : Shared}
    (hunhandled : ∀ update ∈ unhandled ⟨shared, c.scanning, watching⟩, update ∈ c.unhandled)
    (hinvoices : ∀ stored ∈ shared.store.invoices, stored ∈ c.shared.store.invoices) :
    Tracked deleteExpired ⟨shared, c.scanning, watching⟩ where
  scan program hscanning := by
    obtain ⟨saved, hpublishes, hsaved⟩ := ht.scan program hscanning
    exact ⟨saved, hpublishes, fun invoice h stored hmem =>
      hsaved invoice h stored (hinvoices stored hmem)⟩
  isOver hd update hupdate hover stored hmem :=
    ht.isOver hd update (hunhandled update hupdate) hover stored (hinvoices stored hmem)

/-- **The watch loop** keeps the invariant. -/
theorem Tracked.watch (ht : Tracked deleteExpired c)
    (h : c.watchStep S deleteExpired = some c') : Tracked deleteExpired c' := by
  unfold watchStep at h
  split at h
  · cases h
    refine ht.of_subset (fun update hupdate => ?_) fun _ h => h
    simp only [unhandled, queue, List.drop_length] at hupdate
    cases hupdate
  · rename_i received hwatching
    split at h
    · cases h
    · rename_i invoice hget
      cases h
      refine ht.of_subset (fun update hupdate => ?_) fun _ h => h
      obtain ⟨hlt, hget⟩ := List.getElem?_eq_some_iff.mp hget
      simp only [unhandled, queue, hwatching] at hupdate ⊢
      rwa [List.drop_eq_getElem_cons hlt, hget]
  · rename_i received invoice hwatching
    cases h
    refine ht.of_subset (fun update hupdate => ?_) fun stored hmem => ?_
    · have hpublished : (if (invoice.isOver && deleteExpired) = true
          then (handle S (.removeInvoice invoice.id) c.shared).2 else c.shared).published
            = c.shared.published := by
        split <;> rfl
      simp only [unhandled, queue, hwatching, hpublished] at hupdate ⊢
      exact List.mem_cons_of_mem _ hupdate
    · split at hmem
      · exact List.mem_of_mem_filter hmem
      · exact hmem

/-- A save at the right time: the saved invoice is over, or no update says so. -/
theorem over_of_timely {invoice : Invoice}
    {next : Except StorageError (Option Invoice) → Program (Except ScannerError Unit × Scanner)}
    (hscanning : c.scanning = .during (.call (.updateInvoice invoice) next))
    (htimely : c.timely deleteExpired = true) (hd : deleteExpired = true)
    (hfault : c.shared.faults.save invoice.id = none)
    (hid : invoice.id ∈ c.shared.store.getIds) {update : Invoice} (hupdate : update ∈ c.unhandled)
    (hupdateId : update.id = invoice.id) (hover : update.isOver = true) :
    invoice.isOver = true := by
  simp only [timely, hscanning, hd, hfault, Bool.not_true, Option.isSome_none, Bool.false_or,
    List.contains_eq_mem, decide_eq_true hid, Bool.or_eq_true, List.all_eq_true] at htimely
  refine htimely.resolve_right fun hall => ?_
  have hone := hall update hupdate
  simp [hupdateId, hover] at hone

/-- **The scanner** keeps the invariant, if its saves are timely. -/
theorem Tracked.scanner (ht : Tracked deleteExpired c) (htimely : c.timely deleteExpired = true)
    (h : c.scanStep S = some c') : Tracked deleteExpired c' := by
  obtain ⟨result, scanner, hscanning, rfl⟩ | ⟨req, next, hscanning, rfl⟩ := scanStep_cases h
  · exact ⟨nofun, ht.isOver⟩
  -- By what the request may do: nothing to invoices, a save, or a publication.
  obtain ⟨saved, ⟨hallowed, hnext⟩, hsaved⟩ := ht.scan _ hscanning
  have hfollows := hnext (handle S req c.shared).1
  obtain ⟨hinvoices, hpublished, hnone⟩ | ⟨invoice, rfl, hfault, hinvoices, hpublished, hsome⟩ |
    ⟨invoice, hsome, hinvoices, hpublished, hnone⟩ := handle_allowedAfter S c.shared hallowed
  · refine ⟨fun program hprogram => ?_, fun hd update hupdate => ?_⟩
    · cases hprogram
      exact ⟨_, hfollows, fun invoice h => by rw [hnone] at h; cases h⟩
    · rw [unhandled_congr hpublished] at hupdate
      simp only [hinvoices]
      exact ht.isOver hd update hupdate
  · refine ⟨fun program hprogram => ?_, fun hd update hupdate hover stored hmem hid => ?_⟩
    · cases hprogram
      -- A save: what is stored under the id is now what the scan will publish.
      refine ⟨_, hfollows, fun invoice' h stored hmem hid => ?_⟩
      rw [hsome] at h
      cases h
      rw [hinvoices] at hmem
      rcases Store.mem_updateInvoice hmem with ⟨rfl, -⟩ | ⟨-, hne⟩
      · rfl
      · exact absurd hid hne
    · rw [unhandled_congr hpublished] at hupdate
      simp only [hinvoices] at hmem
      rcases Store.mem_updateInvoice hmem with ⟨rfl, hids⟩ | ⟨hold, -⟩
      · exact over_of_timely hscanning htimely hd hfault hids hupdate hid.symm hover
      · exact ht.isOver hd update hupdate hover stored hold hid
  · refine ⟨fun program hprogram => ?_, fun hd update hupdate hover stored hmem hid => ?_⟩
    · cases hprogram
      exact ⟨_, hfollows, fun invoice h => by rw [hnone] at h; cases h⟩
    · simp only [hinvoices] at hmem
      -- A publication: one more update for the watch loop, equal to the stored invoice.
      rcases mem_unhandled_of_published hpublished hupdate with hold | rfl
      · exact ht.isOver hd update hold hover stored hmem hid
      · rw [hsaved update hsome stored hmem hid]
        exact hover

/-- **Every timely step** keeps the invariant. -/
theorem Tracked.step (ht : Tracked deleteExpired c)
    (h : Step S deleteExpired (timely deleteExpired) c c') : Tracked deleteExpired c' := by
  obtain ⟨t, htimely, hturn⟩ := h
  cases t with
  | startScan env =>
      simp only [turn, startScan] at hturn
      split at hturn
      · rename_i scanner hscanning
        cases hturn
        refine ⟨fun program hprogram => ?_, ht.isOver⟩
        cases hprogram
        exact ⟨none, Scanner.scan_follows env scanner, nofun⟩
      · cases hturn
  | scanner => exact ht.scanner htimely hturn
  | watch => exact ht.watch hturn

/-- **A whole run** keeps the invariant. -/
theorem Tracked.run {c₀ : Server} (ht : Tracked deleteExpired c₀)
    (h : Relation.ReflTransGen (Step S deleteExpired (timely deleteExpired)) c₀ c) :
    Tracked deleteExpired c := by
  induction h with
  | refl => exact ht
  | tail _ hstep ih => exact ih.step hstep

/-- The scanner does not lose invoices. -/
theorem Tracked.getIds_scanStep (ht : Tracked deleteExpired c) (h : c.scanStep S = some c') :
    c'.shared.store.getIds = c.shared.store.getIds := by
  obtain ⟨result, scanner, hscanning, rfl⟩ | ⟨req, next, hscanning, rfl⟩ := scanStep_cases h
  · rfl
  · obtain ⟨saved, ⟨hallowed, -⟩, -⟩ := ht.scan _ hscanning
    exact handle_getIds S c.shared hallowed

/-- What a step removes in a run of timely steps. -/
theorem Tracked.over_of_gone (ht : Tracked deleteExpired c)
    (hstep : Step S deleteExpired (timely deleteExpired) c c') {invoice : Invoice}
    (hmem : invoice ∈ c.shared.store.invoices) (hgone : invoice.id ∉ c'.shared.store.getIds) :
    invoice.isOver = true := by
  have hids : invoice.id ∈ c.shared.store.getIds := List.mem_map_of_mem hmem
  obtain ⟨t, -, hturn⟩ := hstep
  -- Only the watch loop removes invoices.
  cases t with
  | startScan env =>
      simp only [turn, startScan] at hturn
      split at hturn
      · cases hturn
        exact absurd hids hgone
      · cases hturn
  | scanner =>
      rw [ht.getIds_scanStep hturn] at hgone
      exact absurd hids hgone
  | watch =>
      simp only [turn, watchStep] at hturn
      split at hturn
      · cases hturn
        exact absurd hids hgone
      · split at hturn
        · cases hturn
        · cases hturn
          exact absurd hids hgone
      · rename_i received update hwatching
        cases hturn
        by_cases hremoves : (update.isOver && deleteExpired) = true
        · rw [Bool.and_eq_true] at hremoves
          -- It removes the invoice of the update that it has received.
          have hid : invoice.id = update.id := by
            by_contra hne
            refine hgone (List.mem_map_of_mem ?_)
            simp only [hremoves.1, hremoves.2, Bool.and_self, if_true]
            exact List.mem_filter.mpr ⟨hmem, decide_eq_true hne⟩
          refine ht.isOver hremoves.2 update ?_ hremoves.1 invoice hmem hid
          rw [unhandled, hwatching]
          exact List.mem_cons_self
        · rw [if_neg hremoves] at hgone
          exact absurd hids hgone

/-! ## A save that comes too early -/

/-- Some steps of the watch loop, after which it removes the stored `invoice`. -/
def Drops (S : Backend) (c : Server) (invoice : Invoice) : Prop :=
  ∃ c₁ c₂, Relation.ReflTransGen (fun d d' => d.watchStep S true = some d') c c₁ ∧
    c₁.watchStep S true = some c₂ ∧ invoice ∈ c₁.shared.store.invoices ∧
    invoice.id ∉ c₂.shared.store.getIds

/-- **The watch loop catches up**: if an update that says the invoice is over has still to be
handled, the watch loop removes the invoice, whatever it is in the store. -/
theorem drops_of_unhandled {invoice update : Invoice}
    (hmem : invoice ∈ c.shared.store.invoices) (hupdate : update ∈ c.unhandled)
    (hid : update.id = invoice.id) (hover : update.isOver = true) : c.Drops S invoice := by
  -- Induction on what is still to be handled; receiving an update is half of handling it.
  generalize hn : c.queue.length + c.unhandled.length = n
  induction n using Nat.strongRecOn generalizing c with
  | ind n ih =>
      have hcatchUp : ∀ c', c.watchStep S true = some c' →
          c'.queue.length + c'.unhandled.length < n → invoice ∈ c'.shared.store.invoices →
          update ∈ c'.unhandled → c.Drops S invoice := by
        intro c' hstep hlt hmem' hupdate'
        obtain ⟨c₁, c₂, hsteps, hrest⟩ := ih _ hlt hmem' hupdate' rfl
        exact ⟨c₁, c₂, .head hstep hsteps, hrest⟩
      cases hwatching : c.watching with
      | starting =>
          simp only [unhandled, queue, hwatching] at hupdate
          cases hupdate
      | waiting received =>
          simp only [unhandled, queue, hwatching] at hupdate hn
          have hlt : received < c.shared.published.length := by
            have hne := List.ne_nil_of_mem hupdate
            rw [ne_eq, List.drop_eq_nil_iff] at hne
            omega
          refine hcatchUp { c with
            watching := .holding (received + 1) c.shared.published[received] } ?_ ?_ hmem ?_
          · simp only [watchStep, hwatching, List.getElem?_eq_getElem hlt]
          · simp only [unhandled, queue, List.length_cons, List.length_drop] at hn ⊢
            omega
          · simp only [unhandled, queue]
            rwa [← List.drop_eq_getElem_cons hlt]
      | holding received held =>
          simp only [unhandled, queue, hwatching, List.length_cons] at hupdate hn
          by_cases hdrops : held.isOver = true ∧ held.id = invoice.id
          · refine ⟨c, _, .refl, by rw [watchStep, hwatching], hmem, ?_⟩
            simp only [hdrops.1, Bool.and_self, if_true]
            intro hmem'
            obtain ⟨stored, hstored, hstoredId⟩ := List.mem_map.mp hmem'
            have hne := of_decide_eq_true (List.mem_filter.mp hstored).2
            exact hne (hstoredId.trans hdrops.2.symm)
          · refine hcatchUp _ (by rw [watchStep, hwatching]) ?_ ?_ ?_
            · have hpublished : (if (held.isOver && true) = true
                  then (handle S (.removeInvoice held.id) c.shared).2 else c.shared).published
                    = c.shared.published := by
                split <;> rfl
              simp only [unhandled, queue, hpublished]
              omega
            · split
              · rename_i hheld
                refine List.mem_filter.mpr ⟨hmem, decide_eq_true fun heq => hdrops ⟨?_, heq.symm⟩⟩
                simpa using hheld
              · exact hmem
            · have hne : update ≠ held := fun heq => hdrops ⟨heq ▸ hover, heq ▸ hid⟩
              have hqueue := (List.mem_cons.mp hupdate).resolve_left hne
              simp only [unhandled, queue]
              split
              · exact hqueue
              · exact hqueue

/-- A save that is not timely is one of a stored invoice. -/
theorem exists_of_not_timely (h : c.timely deleteExpired = false) (hstep : c.scanStep S = some c') :
    deleteExpired = true ∧ ∃ invoice ∈ c'.shared.store.invoices, invoice.isOver = false ∧
      ∃ update ∈ c'.unhandled, update.id = invoice.id ∧ update.isOver = true := by
  unfold timely at h
  split at h
  · rename_i invoice next hscanning
    simp only [Bool.or_eq_false_iff, Bool.not_eq_false', Option.isSome_eq_false_iff,
      Option.isNone_iff_eq_none, List.contains_eq_mem, decide_eq_true_eq, List.all_eq_false] at h
    obtain ⟨⟨⟨⟨hd, hfault⟩, hids⟩, hover⟩, update, hupdate, hstale⟩ := h
    simp only [ne_eq, decide_not, Bool.or_eq_true, Bool.not_eq_true', decide_eq_false_iff_not,
      not_or, Decidable.not_not, Bool.not_eq_false] at hstale
    obtain ⟨_, _, hdone, -⟩ | ⟨req, next', hreq, rfl⟩ := scanStep_cases hstep
    · rw [hscanning] at hdone
      cases hdone
    · rw [hscanning] at hreq
      cases hreq
      have hstore : (handle S (.updateInvoice invoice) c.shared).2.store
            = c.shared.store.updateInvoice invoice ∧
          (handle S (.updateInvoice invoice) c.shared).2.published = c.shared.published := by
        simp only [handle, serve, hfault, and_self]
      refine ⟨hd, invoice, ?_, hover, update, ?_, hstale⟩
      · simp only [hstore.1]
        exact Store.mem_updateInvoice_self hids
      · rw [unhandled_congr hstore.2]
        exact hupdate
  · cases h

/-- **No pending payment is dropped**, unless a save comes too early. In a run of scans and of the
watch loop in which no save makes an invoice pending while an update that lets it be removed is
still to be handled, every invoice that a step removes from the store is there expired and confirmed
or not paid. After any other save the watch loop can go on to remove an invoice that is not so. -/
theorem expired_removed_only :
    (∀ scanner shared c c', Relation.ReflTransGen (Step S deleteExpired (timely deleteExpired))
        (start scanner shared) c → Step S deleteExpired (timely deleteExpired) c c' →
      ∀ invoice ∈ c.shared.store.invoices, invoice.id ∉ c'.shared.store.getIds →
        invoice.isExpired = true ∧ (invoice.isConfirmed = true ∨ invoice.isPaid = false)) ∧
    (∀ c c' : Server, c.scanStep S = some c' → c.timely deleteExpired = false →
      deleteExpired = true ∧ ∃ invoice : Invoice, c'.Drops S invoice ∧
        ¬(invoice.isExpired = true ∧ (invoice.isConfirmed = true ∨ invoice.isPaid = false))) := by
  refine ⟨fun scanner shared c c' hrun hstep invoice hmem hgone => ?_, fun c c' hstep htimely => ?_⟩
  · have hover := ((Tracked.start scanner shared).run hrun).over_of_gone hstep hmem hgone
    simpa [Invoice.isOver] using hover
  · obtain ⟨hd, invoice, hmem, hpending, update, hupdate, hid, hover⟩ :=
      exists_of_not_timely htimely hstep
    refine ⟨hd, invoice, drops_of_unhandled hmem hupdate hid hover, fun h => ?_⟩
    have : invoice.isOver = true := by simpa [Invoice.isOver] using h
    exact absurd (hpending.symm.trans this) (by simp)

/-- A run by turns, which stops where a step is not possible or not allowed. -/
def after (S : Backend) (deleteExpired : Bool) (allowed : Server → Bool) :
    List Turn → Server → Option Server
  | [], c => some c
  | t :: turns, c =>
      if t.within allowed c then
        (c.turn S deleteExpired t).bind (after S deleteExpired allowed turns)
      else none

theorem after_run {turns : List Turn} (h : after S deleteExpired allowed turns c = some c') :
    Relation.ReflTransGen (Step S deleteExpired allowed) c c' := by
  induction turns generalizing c with
  | nil =>
      cases h
      exact .refl
  | cons t turns ih =>
      rw [after] at h
      split at h
      · rename_i hallowed
        obtain ⟨d, hd, h⟩ := Option.bind_eq_some_iff.mp h
        exact .head ⟨t, hallowed, hd⟩ (ih h)
      · cases h

/-- A store with an unpaid invoice that expires at height 2. -/
def expiringStore : Store :=
  ⟨[Invoice.new "" ⟨0, 1⟩ 1 10 1 1 ""], fun _ => none, none, List.nodup_singleton _⟩

/-- A chain of two blocks, without payments. -/
def quietDaemon : Daemon := ⟨[(1, []), (2, [])], []⟩

/-- The server on that store. -/
def expiring : Server :=
  start (Gateway.smallStart quietDaemon expiringStore).scanner { store := expiringStore }

/-- The watch loop subscribes, and the invoice is scanned and found expired. -/
def foundExpired : List Turn :=
  [.watch, .startScan (plainEnv quietDaemon)] ++ List.replicate 6 .scanner

/-- The expired invoice, unpaid in the store, is removed. -/
theorem expired_removed_unpaid :
    ∃ c c', Relation.ReflTransGen (Step .exact true (timely true)) expiring c ∧
      Step .exact true (timely true) c c' ∧
      ∃ invoice ∈ c.shared.store.invoices, invoice.id ∉ c'.shared.store.getIds ∧
        invoice.isExpired = true ∧ (invoice.isConfirmed = true ∨ invoice.isPaid = false) := by
  have hend : ((after .exact true (timely true) (foundExpired ++ [.watch]) expiring).bind fun c =>
      (c.watchStep .exact true).map fun c' =>
        (c.shared.store.getIds, c'.shared.store.getIds)) = some ([⟨⟨0, 1⟩, 1⟩], []) := rfl
  obtain ⟨c, hc, hend⟩ := Option.bind_eq_some_iff.mp hend
  obtain ⟨c', hc', heq⟩ := Option.map_eq_some_iff.mp hend
  obtain ⟨hids, hids'⟩ := Prod.mk.inj heq
  have hmem : (⟨⟨0, 1⟩, 1⟩ : InvoiceId) ∈ c.shared.store.getIds := by
    rw [hids]
    exact List.mem_singleton.mpr rfl
  obtain ⟨invoice, hinvoice, -⟩ := List.mem_map.mp hmem
  have hstep : Step .exact true (timely true) c c' := ⟨.watch, rfl, hc'⟩
  have hgone : invoice.id ∉ c'.shared.store.getIds := by
    rw [hids']
    exact List.not_mem_nil
  exact ⟨c, c', after_run hc, hstep, invoice, hinvoice, hgone,
    expired_removed_only.1 _ _ c c' (after_run hc) hstep invoice hinvoice hgone⟩

/-- The pool after a late payment. -/
def paidDaemon : Daemon := { quietDaemon with pool := [payment 9 10] }

/-- **A pending payment is dropped**: before the watch loop handles the update that says the invoice
is expired and unpaid, a scan finds the payment in the txpool and saves the invoice as paid; the
watch loop then removes it, unconfirmed. -/
theorem pending_payment_dropped :
    ∃ c c', Relation.ReflTransGen (Step .exact true fun _ => true) expiring c ∧
      Step .exact true (fun _ => true) c c' ∧
      ∃ invoice ∈ c.shared.store.invoices, invoice.id ∉ c'.shared.store.getIds ∧
        invoice.isPaid = true ∧ invoice.isConfirmed = false := by
  have hend : ((after .exact true (fun _ => true) (foundExpired ++
      .startScan (plainEnv paidDaemon) :: List.replicate 9 .scanner ++ [.watch]) expiring).bind fun c =>
        (c.watchStep .exact true).map fun c' =>
          (c.shared.store.invoices.map fun invoice => (invoice.isPaid, invoice.isConfirmed),
            c'.shared.store.getIds)) = some ([(true, false)], []) := rfl
  obtain ⟨c, hc, hend⟩ := Option.bind_eq_some_iff.mp hend
  obtain ⟨c', hc', heq⟩ := Option.map_eq_some_iff.mp hend
  obtain ⟨hinvoices, hids'⟩ := Prod.mk.inj heq
  have hmem : (true, false) ∈ c.shared.store.invoices.map fun invoice =>
      (invoice.isPaid, invoice.isConfirmed) := by
    rw [hinvoices]
    exact List.mem_singleton.mpr rfl
  obtain ⟨invoice, hinvoice, hstatus⟩ := List.mem_map.mp hmem
  obtain ⟨hpaid, hconfirmed⟩ := Prod.mk.inj hstatus
  refine ⟨c, c', after_run hc, ⟨.watch, rfl, hc'⟩, invoice, hinvoice, ?_, hpaid, hconfirmed⟩
  rw [hids']
  exact List.not_mem_nil

end Server

end AcceptXmr
