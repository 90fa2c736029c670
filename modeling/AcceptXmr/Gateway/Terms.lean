import AcceptXmr.Gateway
import AcceptXmr.Gateway.Calls

/-! # Scans beside creation and removal

A scan reads all invoices at once and saves the changed ones later, under their ids. In between an
invoice can be removed, and an invoice with the same id can be created: its subaddress is available
again and the cached daemon height has not moved.

* **`terms_kept`** — a removed invoice does not reappear, and as long as no invoice is stored under
  an id that the running scan has still to save, every stored invoice keeps what it was created
  with. -/

namespace AcceptXmr

namespace System

variable {S : Backend} {s s' : System}

/-- The invoice that a turn adds to the store. -/
def stores (s : System) : Turn → Option Invoice
  | .call i env =>
      match s.calls[i]? with
      | some (.created invoice) =>
          if env.fault.isNone && !s.inner.shared.store.getIds.contains invoice.id then some invoice
          else none
      | _ => none
  | _ => none

/-- **Whether a turn keeps out of the running scan**: it stores no invoice under an id that the
scan, having read the invoices, has still to save. -/
def KeepsOut (s : System) (t : Turn) : Prop :=
  ∀ invoice, s.stores t = some invoice →
    ∀ program, s.scanning = .during program → ¬ Program.MaySave invoice.id program

/-- A gateway and the invoices as they were created. -/
structure Recorded where
  system : System
  born : InvoiceId → Option Invoice

namespace Recorded

/-- A gateway before any call; what is stored counts as created. -/
def start (inner : PaymentGatewayInner) (scanner : Scanner) : Recorded :=
  ⟨System.start inner scanner, inner.shared.store.getInvoice⟩

/-- The record after a turn. -/
def record (r : Recorded) (t : Turn) : InvoiceId → Option Invoice :=
  match r.system.stores t with
  | none => r.born
  | some invoice => Function.update r.born invoice.id (some invoice)

/-- A step with its record. -/
def Step (S : Backend) (allowed : System → Turn → Prop) (r r' : Recorded) : Prop :=
  ∃ t, allowed r.system t ∧ r.system.turn S t = some r'.system ∧ r'.born = r.record t

/-- The runs with their record. -/
def Reaches (S : Backend) (allowed : System → Turn → Prop) : Recorded → Recorded → Prop :=
  Relation.ReflTransGen (Step S allowed)

end Recorded

/-! ## What is stored after a step -/

/-- **The stored invoices after a step**: those before it, a new one, or the update that the scan
saves. -/
theorem mem_invoices_of_turns (hs : SoundScan s) {t : Turn} (h : Turns S s t s') {invoice : Invoice}
    (hmem : invoice ∈ s'.invoices) :
    (invoice ∈ s.invoices ∧ ∀ new, s.stores t = some new → invoice.id ≠ new.id) ∨
    s.stores t = some invoice ∨
    (s.stores t = none ∧ invoice.id ∈ s.inner.shared.store.getIds ∧
      ∃ next, s.scanning = .during (.call (.updateInvoice invoice) next)) := by
  have hsame : s.stores t = none → invoice ∈ s.invoices → invoice ∈ s.invoices ∧
      ∀ new, s.stores t = some new → invoice.id ≠ new.id := by
    intro hnone hmem
    refine ⟨hmem, fun new hnew => ?_⟩
    rw [hnone] at hnew
    cases hnew
  cases h with
  | newInvoice args => exact .inl (hsame rfl hmem)
  | removeInvoice id => exact .inl (hsame rfl hmem)
  | @call env front back call call' inner hcalls hadvances =>
      have hget : s.calls[front.length]? = some call := by simp [hcalls]
      -- Only a call that has created its invoice stores one.
      have hother : (∀ new, call ≠ .created new) → s.stores (.call front.length env) = none := by
        intro hne
        simp only [stores, hget]
        split
        · rename_i new heq
          exact absurd (Option.some.inj heq) (hne new)
        · rfl
      cases hadvances with
      | @inserted new store hfault hinsert =>
          obtain ⟨hfresh, hstore⟩ := Store.insertInvoice_ok hinsert
          have hstores : s.stores (.call front.length env) = some new := by
            simp [stores, hget, hfault, hfresh]
          simp only [invoices, hstore, List.mem_append, List.mem_singleton] at hmem
          rcases hmem with hmem | rfl
          · refine .inl ⟨hmem, fun new' hnew' => ?_⟩
            rw [hstores] at hnew'
            cases hnew'
            exact fun hid => hfresh (hid ▸ List.mem_map_of_mem hmem)
          · exact .inr (.inl hstores)
      | @notInserted new e hrefused =>
          refine .inl (hsame ?_ hmem)
          simp only [stores, hget]
          -- It was refused by a fault or for its id, and `stores` looks at both.
          refine if_neg fun hfree => ?_
          simp only [Bool.and_eq_true, Option.isNone_iff_eq_none, List.contains_eq_mem,
            Bool.not_eq_true', decide_eq_false_iff_not] at hfree
          rcases hrefused with hfault | hids
          · exact hfault hfree.1
          · exact hfree.2 hids
      | removed hfault hstored =>
          exact .inl (hsame (hother (by simp)) (List.mem_of_mem_filter hmem))
      | addressed hremove | panicked | created creationHeight hheight | unanswered e | registered
      | notRemoved result | putBack | unregistered => exact .inl (hsame (hother (by simp)) hmem)
  | startScan hscanning => exact .inl (hsame rfl hmem)
  | finished hscanning => exact .inl (hsame rfl hmem)
  | @served req next hscanning =>
      -- Of all requests of a scan, only an update changes an invoice.
      obtain ⟨saved, hallowed, -⟩ := hs _ hscanning
      obtain ⟨hinvoices, -⟩ | ⟨new, rfl, -, hinvoices, -⟩ | ⟨new, -, hinvoices, -⟩ :=
        handle_allowedAfter S s.inner.shared hallowed
      · simp only [invoices, hinvoices] at hmem
        exact .inl (hsame rfl hmem)
      · simp only [invoices, hinvoices] at hmem
        rcases Store.mem_updateInvoice hmem with ⟨rfl, hids⟩ | ⟨hold, -⟩
        · exact .inr (.inr ⟨rfl, hids, next, hscanning⟩)
        · exact .inl (hsame rfl hold)
      · simp only [invoices, hinvoices] at hmem
        exact .inl (hsame rfl hmem)

/-! ## What a scan has read -/

/-- **What the running scan has read** and may still save has the property. -/
def Pending (P : Invoice → Prop) (s : System) : Prop :=
  ∀ program, s.scanning = .during program → ∃ known, Program.SavesRead known program ∧
    ∀ old ∈ known, Program.MaySave old.id program → P old

theorem Pending.start (P : Invoice → Prop) (inner : PaymentGatewayInner) (scanner : Scanner) :
    Pending P (start inner scanner) := nofun

/-- **A step keeps a property of what the scan may still save** if it keeps it for what is pending
and all stored invoices have it when the scan reads them. -/
theorem Pending.turns {P P' : Invoice → Prop} (hs : Pending P s) {t : Turn} (h : Turns S s t s')
    (hkept : ∀ program, s.scanning = .during program →
      ∀ old : Invoice, Program.MaySave old.id program → P old → P' old)
    (hread : t = .scanner → ∀ invoice ∈ s.invoices, P' invoice) : Pending P' s' := by
  intro program hprogram
  -- The step is not one of the scan.
  have hsame : s.scanning = .during program → ∃ known, Program.SavesRead known program ∧
      ∀ old ∈ known, Program.MaySave old.id program → P' old := by
    intro hscanning
    obtain ⟨known, hsaves, hP⟩ := hs program hscanning
    exact ⟨known, hsaves, fun old hold hmay =>
      hkept program hscanning old hmay (hP old hold hmay)⟩
  cases h with
  | newInvoice args => exact hsame hprogram
  | removeInvoice id => exact hsame hprogram
  | call hcalls hadvances => exact hsame hprogram
  | startScan hscanning =>
      cases hprogram
      exact ⟨[], Scanner.scan_savesRead _ _ [], fun old hold => absurd hold List.not_mem_nil⟩
  | finished hscanning => cases hprogram
  | @served req next hscanning =>
      cases hprogram
      obtain ⟨known, ⟨-, hnext⟩, hP⟩ := hs _ hscanning
      refine ⟨_, hnext _, fun old hold hmay => ?_⟩
      by_cases hisRead : req.IsRead
      · -- What has just been read is what is stored.
        cases req with
        | forEachInvoice =>
            cases hfault : s.inner.shared.faults.forEach with
            | some e =>
                simp only [handle, serve, hfault] at hold
                cases hold
            | none =>
                simp only [handle, serve, hfault] at hold
                refine hread rfl old ?_
                obtain ⟨item, hitem, hok⟩ := List.mem_filterMap.mp hold
                obtain ⟨stored, hstored, rfl⟩ := List.mem_map.mp hitem
                simp only [Faults.read] at hok
                split at hok
                · cases hok
                · cases hok
                  exact hstored
        | _ => cases hisRead
      · rw [Request.known_of_not_isRead hisRead] at hold
        have hbefore : Program.MaySave old.id (.call req next) := .inr ⟨hisRead, _, hmay⟩
        exact hkept _ hscanning old hbefore (hP old hold hbefore)

/-! ## The record along a run -/

namespace Recorded

variable {allowed : System → Turn → Prop} {r r' : Recorded}

/-- Whether an invoice has kept what the invoice of its id was created with. -/
def Agrees (born : InvoiceId → Option Invoice) (invoice : Invoice) : Prop :=
  ∃ created, born invoice.id = some created ∧ created.Keeps invoice

/-- The record of an id changes only when an invoice is stored under it. -/
theorem record_of_ne {t : Turn} {id : InvoiceId}
    (h : ∀ new, r.system.stores t = some new → id ≠ new.id) : r.record t id = r.born id := by
  cases hstores : r.system.stores t with
  | none => simp only [record, hstores]
  | some new =>
      simp only [record, hstores]
      exact Function.update_of_ne (h new hstores) _ _

/-- **The invariant**: stored invoices agree with the record, and so do those that the scan has read
and may still save. -/
structure KeepsTerms (r : Recorded) : Prop where
  scan : SoundScan r.system
  stored : ∀ invoice ∈ r.system.invoices, Agrees r.born invoice
  pending : ∀ program, r.system.scanning = .during program → ∃ known,
    Program.SavesRead known program ∧
      ∀ old ∈ known, Program.MaySave old.id program → Agrees r.born old

theorem KeepsTerms.start (inner : PaymentGatewayInner) (scanner : Scanner) :
    KeepsTerms (start inner scanner) :=
  ⟨.start inner scanner, fun invoice hmem => ⟨invoice, Store.getInvoice_of_mem hmem, .refl _⟩, nofun⟩

/-- The stored invoices agree with the record after a step. -/
theorem KeepsTerms.stored_turns (hr : KeepsTerms r) {t : Turn} (h : Turns S r.system t s')
    {invoice : Invoice} (hmem : invoice ∈ s'.invoices) : Agrees (r.record t) invoice := by
  obtain ⟨hold, hne⟩ | hnew | ⟨hnone, -, next, hscanning⟩ := mem_invoices_of_turns hr.scan h hmem
  · rw [Agrees, record_of_ne hne]
    exact hr.stored invoice hold
  · refine ⟨invoice, ?_, .refl _⟩
    simp only [record, hnew, Function.update_self]
  · -- The scan saves an update of something it has read.
    obtain ⟨known, ⟨⟨old, hold, hkeeps⟩, -⟩, hagree⟩ := hr.pending _ hscanning
    obtain ⟨created, hcreated, hkept⟩ := hagree old hold (.inl hkeeps.id)
    refine ⟨created, ?_, hkept.trans hkeeps⟩
    simp only [record, hnone]
    rwa [hkeeps.id]

/-- What the scan may still save agrees with the record after a step that keeps out of it. -/
theorem KeepsTerms.pending_turns (hr : KeepsTerms r) {t : Turn} (hout : r.system.KeepsOut t)
    (h : Turns S r.system t s') : Pending (Agrees (r.record t)) s' := by
  have hpending : Pending (Agrees r.born) r.system := hr.pending
  refine hpending.turns h (fun program hscanning old hmay hagrees => ?_) fun ht invoice hmem => ?_
  · rw [Agrees, record_of_ne fun new hnew heq => hout new hnew program hscanning (heq ▸ hmay)]
    exact hagrees
  · subst ht
    exact hr.stored invoice hmem

/-- **Every step** that keeps out of the running scan keeps the invariant. -/
theorem KeepsTerms.step (hr : KeepsTerms r) (h : Step S KeepsOut r r') : KeepsTerms r' := by
  obtain ⟨t, hout, hturn, hborn⟩ := h
  have hturns := turn_cases hturn
  refine ⟨hr.scan.turns hturns, fun invoice hmem => ?_, fun program hprogram => ?_⟩
  · rw [hborn]
    exact hr.stored_turns hturns hmem
  · rw [hborn]
    exact hr.pending_turns hout hturns program hprogram

/-- **A whole run** keeps the invariant. -/
theorem KeepsTerms.run (hr : KeepsTerms r) (h : Reaches S KeepsOut r r') : KeepsTerms r' := by
  induction h with
  | refl => exact hr
  | tail _ hstep ih => exact ih.step hstep

/-- One turn with its record. -/
def turn (S : Backend) (r : Recorded) (t : Turn) : Option Recorded :=
  (r.system.turn S t).map fun s => ⟨s, r.record t⟩

/-- The end of a run by turns, with its record. -/
def after (S : Backend) (check : System → Turn → Bool) : List Turn → Recorded → Option Recorded :=
  replay (turn S) fun r t => check r.system t

theorem after_reaches {check : System → Turn → Bool}
    (hcheck : ∀ s t, check s t = true → allowed s t) {turns : List Turn}
    (h : after S check turns r = some r') : Reaches S allowed r r' := by
  have hrun : Relation.ReflTransGen (TakesTurn (turn S) fun r t => allowed r.system t) r r' :=
    replay_run (fun r t => hcheck r.system t) h
  refine Relation.ReflTransGen.mono (fun r r' hstep => ?_) _ _ hrun
  obtain ⟨t, ht, hturn⟩ := hstep
  obtain ⟨s, hs, rfl⟩ := Option.map_eq_some_iff.mp hturn
  exact ⟨t, ht, hs, rfl⟩

end Recorded

/-- **A removed invoice does not reappear**: an id is stored after a step only if it was before, or
if the step stores an invoice under it. -/
theorem mem_getIds_of_turns (hs : SoundScan s) {t : Turn} (h : Turns S s t s') {id : InvoiceId}
    (hmem : id ∈ s'.inner.shared.store.getIds) :
    id ∈ s.inner.shared.store.getIds ∨ ∃ invoice, s.stores t = some invoice ∧ invoice.id = id := by
  obtain ⟨invoice, hinvoice, rfl⟩ := List.mem_map.mp hmem
  obtain ⟨hold, -⟩ | hnew | ⟨-, hids, -⟩ := mem_invoices_of_turns hs h hinvoice
  · exact .inl (List.mem_map_of_mem hold)
  · exact .inr ⟨invoice, hnew, rfl⟩
  · exact .inl hids

/-- **Scans neither corrupt nor resurrect invoices**, as long as the calls keep out of the running
scan. In every run of calls and scans in which no invoice is stored under an id that the running
scan has still to save, every stored invoice has the address, the terms and the description it was
created with. In every run at all, an id that is not stored is not stored later unless an invoice is
created under it. -/
theorem terms_kept (inner : PaymentGatewayInner) (scanner : Scanner) :
    (∀ r, Recorded.Reaches S KeepsOut (.start inner scanner) r →
      ∀ invoice ∈ r.system.invoices, ∃ created, r.born invoice.id = some created ∧
        invoice.address = created.address ∧
        invoice.amountRequested = created.amountRequested ∧
        invoice.confirmationsRequired = created.confirmationsRequired ∧
        invoice.expirationHeight = created.expirationHeight ∧
        invoice.description = created.description) ∧
    (∀ s, Reaches S anyTurn (start inner scanner) s → ∀ id ∉ s.inner.shared.store.getIds,
      ∀ s', Reaches S (fun s t => ∀ invoice, s.stores t = some invoice → invoice.id ≠ id) s s' →
        id ∉ s'.inner.shared.store.getIds) := by
  refine ⟨fun r hr invoice hmem => ?_, fun s hs id hid s' hrun => ?_⟩
  · obtain ⟨created, hcreated, h⟩ := ((Recorded.KeepsTerms.start _ _).run hr).stored invoice hmem
    exact ⟨created, hcreated, h.address, h.amountRequested, h.confirmationsRequired,
      h.expirationHeight, h.description⟩
  · obtain ⟨hsound, -⟩ := hs.invariant (P := fun _ => True) (fun _ _ _ _ _ _ _ => trivial)
      (.start inner scanner) trivial
    refine (hrun.invariant (P := fun s => id ∉ s.inner.shared.store.getIds) ?_ hsound hid).2
    intro s s' t hs hid hnot hturns hmem
    obtain hold | ⟨invoice, hnew, heq⟩ := mem_getIds_of_turns hs hturns hmem
    · exact hid hold
    · exact hnot invoice hnew heq

/-- A chain of five blocks, without payments. -/
def quietChain : Daemon := ⟨[(1, []), (2, []), (3, []), (4, []), (5, [])], []⟩

/-- A store with an invoice for index 1, created at height 5. -/
def describedStore : Store :=
  ⟨[Invoice.new "" ⟨0, 1⟩ 5 10 1 100 "first"], fun _ => none, none, List.nodup_singleton _⟩

/-- A gateway on that store and chain. -/
def described : Recorded :=
  .start (.build describedStore (fun _ => "") 0 [99] .new 5)
    (Gateway.smallStart quietChain describedStore).scanner

/-- The invoice is removed, and one with the same id is created. -/
def replaced : List Turn :=
  .removeInvoice ⟨⟨0, 1⟩, 5⟩ :: List.replicate 3 (.call 0 {}) ++
    .newInvoice ⟨20, 1, 100, "second"⟩ :: List.replicate 4 (.call 1 {})

/-- The turns that store an invoice only between scans. -/
def storesBetween (s : System) (t : Turn) : Bool :=
  match s.scanning with
  | .between _ => true
  | .during _ => (s.stores t).isNone

theorem keepsOut_of_storesBetween {t : Turn} (h : s.storesBetween t = true) : s.KeepsOut t := by
  intro invoice hstores program hscanning
  rw [storesBetween, hscanning, hstores] at h
  cases h

/-- Replaced between scans, the invoice keeps its terms in the next scan. -/
theorem terms_kept_between :
    ∃ r, Recorded.Reaches .exact KeepsOut described r ∧
      ∃ invoice ∈ r.system.invoices, invoice.currentHeight = 3 ∧
        ∃ created, r.born invoice.id = some created ∧ created.description = "second" ∧
          invoice.description = created.description := by
  have hend : (Recorded.after .exact storesBetween
      (replaced ++ .startScan (plainEnv quietChain) :: List.replicate 2 .scanner) described).map
        (fun r => (r.system.invoices.map fun invoice => (invoice.currentHeight, invoice.id),
          (r.born ⟨⟨0, 1⟩, 5⟩).map Invoice.description))
      = some ([(3, ⟨⟨0, 1⟩, 5⟩)], some "second") := by decide +kernel
  obtain ⟨r, hr, heq⟩ := Option.map_eq_some_iff.mp hend
  obtain ⟨hinvoices, hborn⟩ := Prod.mk.inj heq
  obtain ⟨invoice, hlist, hpair⟩ := List.map_eq_singleton_iff.mp hinvoices
  obtain ⟨hheight, hid⟩ := Prod.mk.inj hpair
  have hmem : invoice ∈ r.system.invoices := by
    rw [hlist]
    exact List.mem_singleton_self _
  have hreaches := Recorded.after_reaches (fun _ _ => keepsOut_of_storesBetween) hr
  obtain ⟨created, hcreated, -, -, -, -, hdescription⟩ :=
    (terms_kept _ _).1 r hreaches invoice hmem
  refine ⟨r, hreaches, invoice, hmem, hheight, created, hcreated, ?_, hdescription⟩
  rw [hid] at hcreated
  rw [hcreated] at hborn
  exact Option.some.inj hborn

/-- **A scan overwrites an invoice**: it reads the invoice, the invoice is removed and another is
created under its id, and the scan saves its update of the removed one over it. -/
theorem terms_overwritten :
    ∃ r, Recorded.Reaches .exact anyTurn described r ∧
      ∃ invoice ∈ r.system.invoices, ∃ created, r.born invoice.id = some created ∧
        invoice.amountRequested ≠ created.amountRequested ∧
        invoice.description ≠ created.description := by
  have hend : (Recorded.after .exact (fun _ _ => true)
      (.startScan (plainEnv quietChain) :: .scanner :: replaced ++ [.scanner]) described).map
        (fun r => (r.system.invoices.map fun invoice =>
            (invoice.id, invoice.amountRequested, invoice.description),
          (r.born ⟨⟨0, 1⟩, 5⟩).map fun created => (created.amountRequested, created.description)))
      = some ([(⟨⟨0, 1⟩, 5⟩, 10, "first")], some (20, "second")) := by decide +kernel
  obtain ⟨r, hr, heq⟩ := Option.map_eq_some_iff.mp hend
  obtain ⟨hinvoices, hborn⟩ := Prod.mk.inj heq
  obtain ⟨invoice, hlist, htriple⟩ := List.map_eq_singleton_iff.mp hinvoices
  obtain ⟨created, hcreated, hpair⟩ := Option.map_eq_some_iff.mp hborn
  obtain ⟨hid, hamount, hdescription⟩ : _ ∧ _ ∧ _ := by simpa only [Prod.mk.injEq] using htriple
  obtain ⟨hamount', hdescription'⟩ := Prod.mk.inj hpair
  refine ⟨r, Recorded.after_reaches (fun _ _ _ => trivial) hr, invoice, ?_, created, ?_, ?_, ?_⟩
  · rw [hlist]
    exact List.mem_singleton_self _
  · rw [hid]
    exact hcreated
  · rw [hamount, hamount']
    decide
  · rw [hdescription, hdescription']
    decide

end System

end AcceptXmr
