import AcceptXmr.Gateway.Terms

/-! # What is published has been saved

The scanner publishes an update once `update_invoice` has returned `Ok`. That it does also when
nothing is stored under the id any more: the store has then not been changed, and the update is
published all the same.

* **`updates_saved`** — as long as no invoice is removed that the running scan has still to save,
  every update that is published has been written to the store by the same scan.
* **`removed_invoice_published`** — an invoice is removed between read and save, and its update is
  published. -/

namespace AcceptXmr

namespace System

variable {S : Backend} {s s' : System}

/-- The id that a turn removes from the store. -/
def removes (s : System) : Turn → Option InvoiceId
  | .call i env =>
      match s.calls[i]? with
      | some (.removeInvoice id) =>
          if env.fault.isNone && s.inner.shared.store.getIds.contains id then some id else none
      | _ => none
  | _ => none

/-- The invoice that a turn writes to the store as an update: the scan asks for it, the request does
not fail and an invoice is stored under its id. -/
def writes (s : System) : Turn → Option Invoice
  | .scanner =>
      match s.scanning with
      | .during (.call (.updateInvoice invoice) _) =>
          -- An update is written if the request does not fail and the id is stored.
          if (s.inner.shared.faults.save invoice.id).isNone
              && s.inner.shared.store.getIds.contains invoice.id then some invoice
          else none
      | _ => none
  | _ => none

/-- The invoice that a turn passes to the publisher. -/
def publishes (s : System) : Turn → Option Invoice
  | .scanner =>
      match s.scanning with
      | .during (.call (.sendUpdates invoice) _) => some invoice
      | _ => none
  | _ => none

/-- **Whether a turn leaves what the running scan needs**: it removes no invoice that the scan,
having read it, has still to save. -/
def LeavesRead (s : System) (t : Turn) : Prop :=
  ∀ id, s.removes t = some id →
    ∀ program, s.scanning = .during program → ¬ Program.MaySave id program

/-- A gateway and what its running scan has written to the store. -/
structure Logged where
  system : System
  written : List Invoice

namespace Logged

/-- A gateway before any call. -/
def start (inner : PaymentGatewayInner) (scanner : Scanner) : Logged :=
  ⟨System.start inner scanner, []⟩

/-- What the running scan has written after a turn; a new scan has written nothing. -/
def log (r : Logged) : Turn → List Invoice
  | .startScan _ => []
  | t => r.written ++ (r.system.writes t).toList

/-- One turn with its log. -/
def turn (S : Backend) (r : Logged) (t : Turn) : Option Logged :=
  (r.system.turn S t).map fun s => ⟨s, r.log t⟩

/-- The runs with their log. -/
def Reaches (S : Backend) (allowed : System → Turn → Prop) : Logged → Logged → Prop :=
  Relation.ReflTransGen (TakesTurn (turn S) fun r t => allowed r.system t)

/-- The end of a run by turns, with its log. -/
def after (S : Backend) (check : System → Turn → Bool) : List Turn → Logged → Option Logged :=
  replay (turn S) fun r t => check r.system t

end Logged

/-! ## Ids and updates in one step -/

/-- **An id stays stored** in every step that does not remove it. -/
theorem mem_getIds_turns (hs : SoundScan s) {t : Turn} (h : Turns S s t s') {id : InvoiceId}
    (hmem : id ∈ s.inner.shared.store.getIds) (hkept : s.removes t ≠ some id) :
    id ∈ s'.inner.shared.store.getIds := by
  cases h with
  | newInvoice args => exact hmem
  | removeInvoice id => exact hmem
  | @call env front back call call' inner hcalls hadvances =>
      cases hadvances with
      | inserted hfault hinsert =>
          obtain ⟨-, hstore⟩ := Store.insertInvoice_ok hinsert
          simp only [Store.getIds, hstore, List.map_append]
          exact List.mem_append_left _ hmem
      | @removed removedId old hfault hstored =>
          have hget : s.calls[front.length]? = some (.removeInvoice removedId) := by simp [hcalls]
          have hids : removedId ∈ s.inner.shared.store.getIds := by
            obtain ⟨hold, rfl⟩ := Store.mem_of_getInvoice hstored
            exact List.mem_map_of_mem hold
          have hremoves : s.removes (.call front.length env) = some removedId := by
            simp [removes, hget, hfault, hids]
          -- Another id is removed, and the invoice stays.
          have hne : id ≠ removedId := fun heq => hkept (heq ▸ hremoves)
          obtain ⟨invoice, hinvoice, rfl⟩ := List.mem_map.mp hmem
          exact List.mem_map_of_mem (List.mem_filter.mpr ⟨hinvoice, by simpa using hne⟩)
      | addressed hremove | panicked | created creationHeight hheight | unanswered e
      | notInserted e hrefused | registered | notRemoved result | putBack | unregistered =>
          exact hmem
  | startScan hscanning => exact hmem
  | finished hscanning => exact hmem
  | served hscanning =>
      show id ∈ (handle S _ s.inner.shared).2.store.getIds
      rw [hs.getIds_served hscanning]
      exact hmem

/-- **What a turn writes**: an invoice was stored under the id, and now it is the update. -/
theorem stored_of_writes {t : Turn} {invoice : Invoice} (h : s.turn S t = some s')
    (hwrites : s.writes t = some invoice) :
    (s.inner.shared.store.getInvoice invoice.id).isSome ∧
      s'.inner.shared.store.getInvoice invoice.id = some invoice := by
  cases t with
  | newInvoice args | removeInvoice id | call i env | startScan env => cases hwrites
  | scanner =>
      simp only [writes] at hwrites
      split at hwrites
      · rename_i update next hscanning
        split at hwrites
        · rename_i hstored
          cases hwrites
          simp only [Bool.and_eq_true, Option.isNone_iff_eq_none, List.contains_eq_mem,
            decide_eq_true_eq] at hstored
          obtain ⟨hfault, hids⟩ := hstored
          obtain ⟨old, hold, hid⟩ := List.mem_map.mp hids
          refine ⟨?_, ?_⟩
          · rw [← hid, Store.getInvoice_of_mem hold]
            rfl
          · simp only [turn, scanStep, hscanning, handle, serve, hfault] at h
            cases h
            exact Store.getInvoice_of_mem (Store.mem_updateInvoice_self hids)
        · cases hwrites
      · cases hwrites

/-- **What a turn publishes** is the update that the running scan sends next. -/
theorem sends_of_publishes {t : Turn} {invoice : Invoice} (h : s.publishes t = some invoice) :
    ∃ next, s.scanning = .during (.call (.sendUpdates invoice) next) := by
  cases t with
  | newInvoice args | removeInvoice id | call i env | startScan env => cases h
  | scanner =>
      simp only [publishes] at h
      split at h
      · rename_i update next hscanning
        cases h
        exact ⟨next, hscanning⟩
      · cases h

/-! ## The log along a run -/

namespace Logged

variable {allowed : System → Turn → Prop} {r r' : Logged}

theorem after_reaches {check : System → Turn → Bool}
    (hcheck : ∀ s t, check s t = true → allowed s t) {turns : List Turn}
    (h : after S check turns r = some r') : Reaches S allowed r r' :=
  replay_run (fun r t => hcheck r.system t) h

/-- **The invariant**: what the scan has read and may still save is stored, and what it may publish
now is in the log. -/
structure PublishesWritten (r : Logged) : Prop where
  pending : Pending (fun old => old.id ∈ r.system.inner.shared.store.getIds) r.system
  saved : ∀ program, r.system.scanning = .during program → ∃ saved,
    Program.PublishesSaved saved program ∧ ∀ invoice, saved = some invoice → invoice ∈ r.written

theorem PublishesWritten.start (inner : PaymentGatewayInner) (scanner : Scanner) :
    PublishesWritten (start inner scanner) := ⟨.start _ _ _, nofun⟩

theorem PublishesWritten.soundScan (hr : PublishesWritten r) : SoundScan r.system := by
  intro program hprogram
  obtain ⟨saved, hfollows, -⟩ := hr.saved program hprogram
  exact ⟨saved, hfollows⟩

/-- What the scan may publish stays in the log of a scan that goes on. -/
theorem mem_log {invoice : Invoice} {t : Turn} (ht : ∀ env, t ≠ .startScan env)
    (h : invoice ∈ r.written) : invoice ∈ r.log t := by
  cases t with
  | startScan env => exact absurd rfl (ht env)
  | newInvoice args | removeInvoice id | call i env | scanner => exact List.mem_append_left _ h

/-- **A save is logged**: what is saved had been read, so something is stored under its id. -/
theorem PublishesWritten.mem_log_of_saved (hr : PublishesWritten r) {invoice : Invoice}
    {next : (Request.updateInvoice invoice).Response →
      Program (Except ScannerError Unit × Scanner)}
    (hscanning : r.system.scanning = .during (.call (.updateInvoice invoice) next))
    (hfault : r.system.inner.shared.faults.save invoice.id = none) :
    invoice ∈ r.log .scanner := by
  obtain ⟨known, ⟨⟨old, hold, hkeeps⟩, -⟩, hstored⟩ := hr.pending _ hscanning
  have hids : invoice.id ∈ r.system.inner.shared.store.getIds :=
    hkeeps.id ▸ hstored old hold (.inl hkeeps.id)
  have hwrites : r.system.writes .scanner = some invoice := by
    simp [writes, hscanning, hfault, hids]
  simp [log, hwrites]

/-- **Every step** that leaves what the running scan needs keeps the invariant. -/
theorem PublishesWritten.turns (hr : PublishesWritten r) {t : Turn}
    (hleaves : r.system.LeavesRead t) (h : Turns S r.system t s') :
    PublishesWritten ⟨s', r.log t⟩ := by
  have hsound := hr.soundScan
  refine ⟨?_, fun program hprogram => ?_⟩
  · refine hr.pending.turns h (fun program hscanning old hmay hids => ?_) fun ht invoice hmem => ?_
    · exact mem_getIds_turns hsound h hids fun hremoves =>
        hleaves old.id hremoves program hscanning hmay
    · subst ht
      exact mem_getIds_turns hsound h (List.mem_map_of_mem hmem) nofun
  · -- A step of a call leaves the scan where it is.
    have hsame : r.system.scanning = .during program → (∀ env, t ≠ .startScan env) →
        ∃ saved, Program.PublishesSaved saved program ∧
          ∀ invoice, saved = some invoice → invoice ∈ r.log t := by
      intro hscanning ht
      obtain ⟨saved, hfollows, hwritten⟩ := hr.saved program hscanning
      exact ⟨saved, hfollows, fun invoice hsaved => mem_log ht (hwritten invoice hsaved)⟩
    cases h with
    | newInvoice args => exact hsame hprogram (by simp)
    | removeInvoice id => exact hsame hprogram (by simp)
    | call hcalls hadvances => exact hsame hprogram (by simp)
    | startScan hscanning =>
        cases hprogram
        exact ⟨none, Scanner.scan_follows _ _, nofun⟩
    | finished hscanning => cases hprogram
    | @served req next hscanning =>
        cases hprogram
        obtain ⟨saved, ⟨hallowed, hnext⟩, -⟩ := hr.saved _ hscanning
        refine ⟨_, hnext _, fun invoice hsaved => ?_⟩
        -- Of all requests, only a save without a fault is followed by a publication.
        obtain ⟨-, -, hnone⟩ | ⟨update, rfl, hfault, -, -, hsome⟩ | ⟨update, -, -, -, hnone⟩ :=
          handle_allowedAfter S r.system.inner.shared hallowed
        · rw [hnone] at hsaved
          cases hsaved
        · rw [hsome] at hsaved
          cases hsaved
          exact hr.mem_log_of_saved hscanning hfault
        · rw [hnone] at hsaved
          cases hsaved

/-- **A whole run** keeps the invariant. -/
theorem PublishesWritten.run (hr : PublishesWritten r) (h : Reaches S LeavesRead r r') :
    PublishesWritten r' := by
  refine TakesTurn.invariant PublishesWritten (fun r r' t hr hleaves hturn => ?_) h hr
  obtain ⟨s, hs, rfl⟩ := Option.map_eq_some_iff.mp hturn
  exact hr.turns hleaves (turn_cases hs)

end Logged

/-- **Only saved updates are published**, as long as no invoice is removed that the running scan has
still to save. In every run of scans and calls, an invoice enters the log only where an invoice is
stored under its id before the scan's request and it is that invoice after it. In every run in which
no turn removes an invoice that the running scan has read and has still to save, whatever the
scanner passes to the publisher is in the log of the same scan. -/
theorem updates_saved (inner : PaymentGatewayInner) (scanner : Scanner) :
    (∀ (s s' : System) t invoice, s.turn S t = some s' → s.writes t = some invoice →
      (s.inner.shared.store.getInvoice invoice.id).isSome ∧
        s'.inner.shared.store.getInvoice invoice.id = some invoice) ∧
    (∀ r, Logged.Reaches S LeavesRead (.start inner scanner) r →
      ∀ t invoice, r.system.publishes t = some invoice → invoice ∈ r.written) := by
  refine ⟨fun s s' t invoice hturn hwrites => stored_of_writes hturn hwrites, ?_⟩
  intro r hr t invoice hpublishes
  obtain ⟨next, hscanning⟩ := sends_of_publishes hpublishes
  obtain ⟨saved, ⟨hallowed, -⟩, hwritten⟩ :=
    ((Logged.PublishesWritten.start _ _).run hr).saved _ hscanning
  exact hwritten invoice hallowed

/-- The gateway on a chain without payments, with its log. -/
def describedLog : Logged := ⟨described.system, []⟩

/-- The turns that remove an invoice only between scans. -/
def removesBetween (s : System) (t : Turn) : Bool :=
  match s.scanning with
  | .between _ => true
  | .during _ => (s.removes t).isNone

theorem leavesRead_of_removesBetween {t : Turn} (h : s.removesBetween t = true) :
    s.LeavesRead t := by
  intro id hremoves program hscanning
  rw [removesBetween, hscanning, hremoves] at h
  cases h

/-- A scan publishes the update that it has written, while the removal of another invoice is
refused. -/
theorem updates_saved_described :
    ∃ r, Logged.Reaches .exact LeavesRead describedLog r ∧
      ∃ invoice, r.system.publishes .scanner = some invoice ∧ invoice.currentHeight = 3 ∧
        invoice ∈ r.written := by
  have hend : (Logged.after .exact removesBetween
      [.startScan (plainEnv quietChain), .removeInvoice ⟨⟨0, 2⟩, 5⟩, .scanner, .call 0 {}, .scanner]
        describedLog).map
        (fun r => (r.system.publishes .scanner).map Invoice.currentHeight) = some (some 3) := by
    decide +kernel
  obtain ⟨r, hr, heq⟩ := Option.map_eq_some_iff.mp hend
  obtain ⟨invoice, hpublishes, hheight⟩ := Option.map_eq_some_iff.mp heq
  have hreaches := Logged.after_reaches (fun _ _ => leavesRead_of_removesBetween) hr
  exact ⟨r, hreaches, invoice, hpublishes, hheight,
    (updates_saved _ _).2 r hreaches .scanner invoice hpublishes⟩

/-- **An update of a removed invoice is published**: the scan reads the invoice, `remove_invoice`
removes it and returns, the save finds nothing under the id, and the scan passes its update to the
publisher. -/
theorem removed_invoice_published :
    ∃ r, Logged.Reaches .exact anyTurn describedLog r ∧
      ∃ invoice, r.system.publishes .scanner = some invoice ∧ invoice ∉ r.written ∧
        invoice.id ∉ r.system.inner.shared.store.getIds ∧
        ∀ call ∈ r.system.calls, call.inProgress = false := by
  have hend : (Logged.after .exact (fun _ _ => true)
      (.startScan (plainEnv quietChain) :: .scanner :: .removeInvoice ⟨⟨0, 1⟩, 5⟩ ::
        List.replicate 3 (.call 0 {}) ++ [.scanner]) describedLog).map
        (fun r => ((r.system.publishes .scanner).isSome, r.written.isEmpty,
          r.system.inner.shared.store.getIds, r.system.calls.map Call.inProgress))
      = some (true, true, [], [false]) := by decide +kernel
  obtain ⟨r, hr, heq⟩ := Option.map_eq_some_iff.mp hend
  obtain ⟨hpublishes, hwritten, hids, hcalls⟩ : _ ∧ _ ∧ _ ∧ _ := by
    simpa only [Prod.mk.injEq] using heq
  obtain ⟨invoice, hinvoice⟩ := Option.isSome_iff_exists.mp hpublishes
  refine ⟨r, Logged.after_reaches (fun _ _ _ => trivial) hr, invoice, hinvoice, ?_, ?_, ?_⟩
  · rw [List.isEmpty_iff.mp hwritten]
    exact List.not_mem_nil
  · rw [hids]
    exact List.not_mem_nil
  · intro call hcall
    have hprogress : call.inProgress ∈ r.system.calls.map Call.inProgress :=
      List.mem_map_of_mem hcall
    rw [hcalls] at hprogress
    exact List.mem_singleton.mp hprogress

end System

end AcceptXmr
