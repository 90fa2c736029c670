import AcceptXmr.Scanner.Sightings
import AcceptXmr.Scanner.TxpoolExactness
import AcceptXmr.Gateway.Subaddresses
import AcceptXmr.Gateway.Terms

/-! # One payment, one invoice

The subaddress of a removed invoice goes to a later one. What keeps the payments of the two apart is
that an invoice takes no transfers from below its creation height; a transfer in the txpool has no
height and is taken by whichever invoice has the subaddress. Here every output that is counted for
an invoice is written down, with the number of the invoice in the order of creation, while calls
come and go between scans.

* **`one_payment_one_invoice`** — no output is counted for two invoices, as long as no scan meets
  the transaction of a removed invoice's output in the txpool, or at or above the creation height of
  the invoice that has its subaddress by then. -/

namespace AcceptXmr

open AssocMap

/-- An output that has been counted for an invoice. -/
structure Count where
  /-- The number of the invoice. -/
  number : ℕ
  sighting : Sighting
  deriving DecidableEq

/-- A gateway between scans, with the calls made on it and what has been counted so far. -/
structure Tally where
  inner : PaymentGatewayInner
  calls : List Call
  scanner : Scanner
  /-- The amounts behind the transfers that are remembered from the txpool. -/
  discovered : List (Hash × List OwnedAmount)
  /-- The numbers of the stored invoices. -/
  numbers : InvoiceId → ℕ
  /-- The number of the next invoice. -/
  next : ℕ
  counted : List Count

namespace Tally

/-- The gateway with its calls, between scans. -/
abbrev system (self : Tally) : System := ⟨self.inner, self.calls, .between self.scanner⟩

/-- The stored invoices. -/
abbrev invoices (self : Tally) : List Invoice := self.inner.shared.store.invoices

/-- The ids of the stored invoices. -/
abbrev getIds (self : Tally) : List InvoiceId := self.inner.shared.store.getIds

/-- A gateway before any call, with what has been counted for the stored invoices before. -/
def start (inner : PaymentGatewayInner) (scanner : Scanner) (past : List Count) : Tally where
  inner := inner
  calls := []
  scanner := scanner
  discovered := []
  numbers := fun id => inner.shared.store.getIds.idxOf id
  next := inner.shared.store.getIds.length
  counted := past

/-- What a scan counts: the sightings for every invoice that it can read and save. -/
def newCounts (self : Tally) (faults : Faults) (sightings : List Sighting) : List Count :=
  if faults.forEach = none then
    self.invoices.flatMap fun invoice =>
      if faults.unreadable invoice.id = false ∧ faults.save invoice.id = none then
        (sightings.filter fun x => x.countsFor invoice).map fun x => ⟨self.numbers invoice.id, x⟩
      else []
  else []

/-- A whole scan. -/
def scan (S : Backend) (env : ScanEnv) (self : Tally) : Option Tally :=
  let shared := { self.inner.shared with faults := env.faults }
  let looked := self.scanner.look S env self.discovered shared
  match (self.scanner.scan env).run (handle S) shared with
  | (.ok (_, scanner), shared) => some { self with
      inner := { self.inner with
        shared := shared
        cachedDaemonHeight := scanner.blockCache.daemonHeight }
      scanner := scanner
      discovered := looked.2
      counted := self.counted ++ self.newCounts env.faults looked.1 }
  | (.error _, _) => none

/-- A new invoice gets the next number. -/
def enter (self : Tally) (t : System.Turn) : Tally :=
  match self.system.stores t with
  | none => self
  | some invoice => { self with
      numbers := Function.update self.numbers invoice.id self.next
      next := self.next + 1 }

/-- A step of a call. -/
def call (S : Backend) (t : System.Turn) (self : Tally) : Option Tally :=
  match self.system.turn S t with
  | none => none
  | some s => some { self.enter t with inner := s.inner, calls := s.calls }

/-- **One step**: of a call, or a whole scan. -/
def turn (S : Backend) (self : Tally) : System.Turn → Option Tally
  | .newInvoice args => self.call S (.newInvoice args)
  | .removeInvoice id => self.call S (.removeInvoice id)
  | .call i env => self.call S (.call i env)
  | .startScan env => self.scan S env
  | .scanner => none

/-- The runs in which every turn is allowed. -/
def Reaches (S : Backend) (allowed : Tally → System.Turn → Prop) : Tally → Tally → Prop :=
  Relation.ReflTransGen (TakesTurn (turn S) allowed)

/-- The transactions that a scan looks into agree on which subaddress an output pays to: a hash is
the hash of one transaction. -/
def Truthful (pays : OutputId → SubIndex) (s : Tally) : System.Turn → Prop
  | .startScan env => PaysAs pays ((s.scanner.transactionsIn env).map Prod.fst)
  | _ => True

/-- Whether `remove_invoice` takes away an invoice without a warning: it is expired, or confirmed
and a block or more old. -/
def removesDue (s : Tally) : System.Turn → Bool
  | .call i env =>
      match s.calls[i]? with
      | some (.removeInvoice id) =>
          match s.inner.shared.store.getInvoice id with
          | some old => env.fault.isSome || old.isExpired ||
              old.isConfirmed && decide (old.creationHeight < old.currentHeight)
          | none => true
      | _ => true
  | _ => true

/-- The invoice that an output was counted for is not stored any more. -/
def Outlived (s : Tally) (c : Count) : Prop := ∀ id ∈ s.getIds, s.numbers id ≠ c.number

/-- **Whether a scan finds the payments of removed invoices settled**: it meets the transaction of
an output that was counted for a removed invoice only in blocks below the creation height of the
invoice that is stored for its subaddress. -/
def FindsSettled (s : Tally) : System.Turn → Prop
  | .startScan env => ∀ c ∈ s.counted, s.Outlived c →
      ∀ invoice ∈ s.invoices, invoice.index = c.sighting.amount.subIndex →
        ∀ height ∈ s.scanner.meets env c.sighting.outputId.txHash,
          ∃ b ∈ height, b < invoice.creationHeight
  | _ => True

/-! ## The invariant -/

/-- **The invariant**: subaddresses have one holder, what is remembered of the txpool is known by
its outputs, invoices have their own numbers, and every transfer is an output that was counted for
this invoice and for no other. -/
structure Sound (pays : OutputId → SubIndex) (s : Tally) : Prop where
  exclusive : s.system.Exclusive
  created : ∀ call ∈ s.calls, ∀ invoice, call = .created invoice → invoice.transfers = []
  remembered : s.scanner.txpoolCache.discoveredTransfers = Scanner.txpoolTransfers s.discovered
  filed : Filed pays s.discovered
  numbers_lt : ∀ id ∈ s.getIds, s.numbers id < s.next
  numbers_inj : ∀ id ∈ s.getIds, ∀ id' ∈ s.getIds, s.numbers id = s.numbers id' → id = id'
  counted_lt : ∀ c ∈ s.counted, c.number < s.next
  paid : ∀ c ∈ s.counted, pays c.sighting.outputId = c.sighting.amount.subIndex
  holder : ∀ c ∈ s.counted, ∀ id ∈ s.getIds, s.numbers id = c.number →
    id.subIndex = c.sighting.amount.subIndex
  single : ∀ c ∈ s.counted, ∀ c' ∈ s.counted, c.sighting.outputId = c'.sighting.outputId →
    c.number = c'.number
  explained : ∀ invoice ∈ s.invoices, ∀ t ∈ invoice.transfers, ∃ c ∈ s.counted,
    c.number = s.numbers invoice.id ∧ c.sighting.transfer = t

variable {S : Backend} {pays : OutputId → SubIndex} {s s' : Tally}

/-- Stored invoices with one subaddress are one invoice. -/
theorem Sound.id_eq (h : s.Sound pays) {id id' : InvoiceId} (hid : id ∈ s.getIds)
    (hid' : id' ∈ s.getIds) (heq : id.subIndex = id'.subIndex) : id = id' := by
  have hnodup := h.exclusive.nodup
  rw [System.owners, List.nodup_append, List.nodup_append, System.map_index_eq] at hnodup
  exact List.inj_on_of_nodup_map hnodup.1.1 hid hid' heq

/-! ## Calls -/

/-- An invoice is stored by the call that has created it. -/
theorem created_of_stores {t : System.Turn} {invoice : Invoice}
    (h : s.system.stores t = some invoice) : Call.created invoice ∈ s.calls := by
  unfold System.stores at h
  split at h
  · split at h
    · rename_i i env new hget
      split at h
      · cases h
        exact List.mem_of_getElem? hget
      · cases h
    · cases h
  · cases h

/-- **The numbers after a step of a call**: a stored invoice keeps its number, or is new and has the
next one. -/
theorem numbers_enter {t : System.Turn} {sys : System} (hturns : System.Turns S s.system t sys)
    {id : InvoiceId} (hid : id ∈ sys.inner.shared.store.getIds) :
    (id ∈ s.getIds ∧ (s.enter t).numbers id = s.numbers id) ∨
    ((s.enter t).numbers id = s.next ∧ (s.enter t).next = s.next + 1 ∧
      ∃ new, s.system.stores t = some new ∧ new.id = id) := by
  obtain ⟨invoice, hmem, rfl⟩ := List.mem_map.mp hid
  have hsound : s.system.SoundScan := nofun
  unfold enter
  obtain ⟨hold, hne⟩ | hnew | ⟨-, -, next, hscanning⟩ :=
    System.mem_invoices_of_turns hsound hturns hmem
  · refine .inl ⟨List.mem_map_of_mem hold, ?_⟩
    cases hstores : s.system.stores t with
    | none => rfl
    | some new => exact Function.update_of_ne (hne new hstores) _ _
  · refine .inr ?_
    rw [hnew]
    exact ⟨Function.update_self .., rfl, invoice, rfl, rfl⟩
  · cases hscanning

theorem next_le_enter (s : Tally) (t : System.Turn) : s.next ≤ (s.enter t).next := by
  unfold enter
  split
  · exact Nat.le_refl _
  · exact Nat.le_succ _

/-- Numbering leaves everything else alone. -/
theorem enter_frame (s : Tally) (t : System.Turn) : (s.enter t).scanner = s.scanner ∧
    (s.enter t).discovered = s.discovered ∧ (s.enter t).counted = s.counted := by
  unfold enter
  split
  · exact ⟨rfl, rfl, rfl⟩
  · exact ⟨rfl, rfl, rfl⟩

/-- Invoices are created without transfers. -/
theorem created_turns {t : System.Turn} {sys : System} (hturns : System.Turns S s.system t sys)
    (h : ∀ call ∈ s.calls, ∀ invoice, call = .created invoice → invoice.transfers = []) :
    ∀ call ∈ sys.calls, ∀ invoice, call = .created invoice → invoice.transfers = [] := by
  cases hturns with
  | newInvoice args | removeInvoice id =>
      intro call hcall invoice heq
      rcases List.mem_append.mp hcall with hcall | hcall
      · exact h call hcall invoice heq
      · rw [List.mem_singleton.mp hcall] at heq
        cases heq
  | call hcalls hadvances =>
      refine System.forall_calls_set hcalls h fun invoice heq => ?_
      cases hadvances with
      | created creationHeight hheight =>
          cases heq
          rfl
      | _ => cases heq
  | startScan hscanning => exact h
  | finished hscanning => exact h
  | served hscanning => exact h

/-- A new number has not been given before. -/
theorem Sound.numbers_inj_enter (h : s.Sound pays) {t : System.Turn} {sys : System}
    (hturns : System.Turns S s.system t sys) {id id' : InvoiceId}
    (hid : id ∈ sys.inner.shared.store.getIds) (hid' : id' ∈ sys.inner.shared.store.getIds)
    (heq : (s.enter t).numbers id = (s.enter t).numbers id') : id = id' := by
  rcases numbers_enter hturns hid with ⟨hold, hsame⟩ | ⟨hnew, -, new, hstores, rfl⟩
  · have hlt := h.numbers_lt id hold
    rcases numbers_enter hturns hid' with ⟨hold', hsame'⟩ | ⟨hnew', -⟩
    · exact h.numbers_inj id hold id' hold' (hsame ▸ hsame' ▸ heq)
    · omega
  · rcases numbers_enter hturns hid' with ⟨hold', hsame'⟩ | ⟨-, -, new', hstores', rfl⟩
    · have hlt := h.numbers_lt id' hold'
      omega
    · -- A step stores one invoice at most.
      rw [hstores] at hstores'
      cases hstores'
      rfl

/-- The transfers of the stored invoices are still explained after a step of a call. -/
theorem Sound.explained_enter (h : s.Sound pays) {t : System.Turn} {sys : System}
    (hturns : System.Turns S s.system t sys) {invoice : Invoice} (hmem : invoice ∈ sys.invoices)
    {u : Transfer} (hu : u ∈ invoice.transfers) :
    ∃ c ∈ s.counted, c.number = (s.enter t).numbers invoice.id ∧ c.sighting.transfer = u := by
  have hsound : s.system.SoundScan := nofun
  obtain ⟨hold, hne⟩ | hnew | ⟨-, -, next, hscanning⟩ :=
    System.mem_invoices_of_turns hsound hturns hmem
  · obtain ⟨c, hc, hnumber, htransfer⟩ := h.explained invoice hold u hu
    refine ⟨c, hc, hnumber.trans ?_, htransfer⟩
    rcases numbers_enter hturns (List.mem_map_of_mem hmem) with
      ⟨-, hsame⟩ | ⟨-, -, new, hstores, hid⟩
    · exact hsame.symm
    · exact absurd hid.symm (hne new hstores)
  · -- A new invoice has nothing to explain.
    rw [h.created _ (created_of_stores hnew) invoice rfl] at hu
    cases hu
  · -- No scan is running between calls.
    cases hscanning

/-- **A step of a call** keeps the invariant. -/
theorem Sound.call (h : s.Sound pays) {t : System.Turn} (hcall : s.call S t = some s') :
    s'.Sound pays := by
  unfold Tally.call at hcall
  split at hcall
  · cases hcall
  · rename_i sys hturn
    cases hcall
    have hturns := System.turn_cases hturn
    have hsound : s.system.SoundScan := nofun
    have hexclusive := h.exclusive.turns hsound hturns
    have hle := s.next_le_enter t
    obtain ⟨hscanner, hdiscovered, hcounted⟩ := s.enter_frame t
    -- A call may give a new number to an invoice, and changes nothing that has been counted or
    -- remembered.
    refine ⟨⟨hexclusive.nodup, hexclusive.major, hexclusive.minor⟩, created_turns hturns h.created,
      ?_, ?_, fun id hid => ?_, fun id hid id' hid' heq => ?_, ?_, ?_, ?_, ?_, ?_⟩
    · simp only [hscanner, hdiscovered]
      exact h.remembered
    · simp only [hdiscovered]
      exact h.filed
    · rcases numbers_enter hturns hid with ⟨hold, hsame⟩ | ⟨hnew, hnext, -⟩
      · exact hsame ▸ Nat.lt_of_lt_of_le (h.numbers_lt id hold) hle
      · show (s.enter t).numbers id < (s.enter t).next
        omega
    · exact h.numbers_inj_enter hturns hid hid' heq
    · simp only [hcounted]
      exact fun c hc => Nat.lt_of_lt_of_le (h.counted_lt c hc) hle
    · simp only [hcounted]
      exact h.paid
    · simp only [hcounted]
      intro c hc id hid heq
      rcases numbers_enter hturns hid with ⟨hold, hsame⟩ | ⟨hnew, -⟩
      · exact h.holder c hc id hold (hsame ▸ heq)
      · -- Nothing has been counted for a number that is given now.
        have hlt := h.counted_lt c hc
        omega
    · simp only [hcounted]
      exact h.single
    · simp only [hcounted]
      exact fun invoice hmem u hu => h.explained_enter hturns hmem hu

/-! ## Scans -/

/-- What a scan counts is a sighting that counts for a stored invoice. -/
theorem mem_newCounts {faults : Faults} {sightings : List Sighting} {c : Count}
    (h : c ∈ s.newCounts faults sightings) : ∃ invoice ∈ s.invoices,
      c.number = s.numbers invoice.id ∧ c.sighting ∈ sightings ∧
        c.sighting.countsFor invoice = true := by
  unfold newCounts at h
  split at h
  · obtain ⟨invoice, hinvoice, hc⟩ := List.mem_flatMap.mp h
    split at hc
    · obtain ⟨x, hx, rfl⟩ := List.mem_map.mp hc
      obtain ⟨hmem, hcounts⟩ := List.mem_filter.mp hx
      exact ⟨invoice, hinvoice, rfl, hmem, hcounts⟩
    · cases hc
  · cases h

/-- **A scan that finds the payments of removed invoices settled** counts no output for two
invoices. -/
theorem Sound.single_scan (h : s.Sound pays) {env : ScanEnv} {sightings : List Sighting}
    (hsettled : s.FindsSettled (.startScan env))
    (hmeets : ∀ x ∈ sightings, x.height ∈ s.scanner.meets env x.outputId.txHash ∧
      pays x.outputId = x.amount.subIndex) {faults : Faults} {c c' : Count}
    (hc : c ∈ s.counted ++ s.newCounts faults sightings)
    (hc' : c' ∈ s.counted ++ s.newCounts faults sightings)
    (heq : c.sighting.outputId = c'.sighting.outputId) : c.number = c'.number := by
  -- An output that was counted before counts again only for the invoice that it was counted for.
  have hagain : ∀ old ∈ s.counted, ∀ new ∈ s.newCounts faults sightings,
      old.sighting.outputId = new.sighting.outputId → old.number = new.number := by
    intro old hold new hnew heq
    obtain ⟨invoice, hinvoice, hnumber, hsighting, hcounts⟩ := mem_newCounts hnew
    obtain ⟨hindex, hheight⟩ := Sighting.of_countsFor hcounts
    obtain ⟨hmet, hpays⟩ := hmeets _ hsighting
    have hsame : invoice.index = old.sighting.amount.subIndex := by
      rw [← hindex, ← hpays, ← heq, h.paid old hold]
    by_cases houtlived : s.Outlived old
    · obtain ⟨b, hb, hlt⟩ := hsettled old hold houtlived invoice hinvoice hsame _ (heq ▸ hmet)
      exact absurd (hheight b hb) (Nat.not_le.mpr hlt)
    · simp only [Outlived, not_forall, not_not] at houtlived
      obtain ⟨id, hid, hstored⟩ := houtlived
      have hidx := (h.holder old hold id hid hstored).trans hsame.symm
      rw [← hstored, hnumber, h.id_eq hid (List.mem_map_of_mem hinvoice) hidx]
  rcases List.mem_append.mp hc with hc | hc
  · rcases List.mem_append.mp hc' with hc' | hc'
    · exact h.single c hc c' hc' heq
    · exact hagain c hc c' hc' heq
  · rcases List.mem_append.mp hc' with hc' | hc'
    · exact (hagain c' hc' c hc heq.symm).symm
    · -- Counted in the same scan, it pays to the subaddress of both invoices.
      obtain ⟨invoice, hinvoice, hnumber, hsighting, hcounts⟩ := mem_newCounts hc
      obtain ⟨invoice', hinvoice', hnumber', hsighting', hcounts'⟩ := mem_newCounts hc'
      have hidx : invoice.id.subIndex = invoice'.id.subIndex := by
        show invoice.index = invoice'.index
        rw [← (Sighting.of_countsFor hcounts).1, ← (Sighting.of_countsFor hcounts').1,
          ← (hmeets _ hsighting).2, ← (hmeets _ hsighting').2, heq]
      rw [hnumber, hnumber',
        h.id_eq (List.mem_map_of_mem hinvoice) (List.mem_map_of_mem hinvoice') hidx]

/-- The transfers after a scan are explained by what was counted before and what the scan counts. -/
theorem Sound.explained_saved (h : s.Sound pays) {faults : Faults} {sightings : List Sighting}
    {transfers : List (SubIndex × Transfer)} {height deepestUpdate : ℕ}
    (hfor : faults.forEach = none) (hperm : transfers.Perm (sightings.map Scanner.owned))
    {old : Invoice} (hold : old ∈ s.invoices) :
    ∀ t ∈ (Scanner.savedInvoice faults transfers height deepestUpdate old).transfers,
      ∃ c ∈ s.counted ++ s.newCounts faults sightings,
        c.number = s.numbers old.id ∧ c.sighting.transfer = t := by
  have hbefore : ∀ t ∈ old.transfers, ∃ c ∈ s.counted ++ s.newCounts faults sightings,
      c.number = s.numbers old.id ∧ c.sighting.transfer = t := by
    intro t ht
    obtain ⟨c, hc, hrest⟩ := h.explained old hold t ht
    exact ⟨c, List.mem_append_left _ hc, hrest⟩
  intro t ht
  unfold Scanner.savedInvoice at ht
  split at ht
  · rename_i hsaved
    rw [(Scanner.settle_transfers_perm transfers height deepestUpdate old).mem_iff,
      List.mem_append] at ht
    rcases ht with ht | ht
    · exact hbefore t (List.mem_of_mem_filter ht)
    · -- What the update adds is what the scan counts for the invoice.
      rw [(Scanner.addedTransfers_perm hperm old).mem_iff] at ht
      obtain ⟨x, hx, rfl⟩ := List.mem_map.mp ht
      refine ⟨⟨s.numbers old.id, x⟩, List.mem_append_right _ ?_, rfl, rfl⟩
      rw [newCounts, if_pos hfor]
      refine List.mem_flatMap.mpr ⟨old, hold, ?_⟩
      rw [if_pos hsaved]
      exact List.mem_map_of_mem hx
  · exact hbefore t ht

/-- **A scan** that finds the payments of removed invoices settled keeps the invariant. -/
theorem Sound.scan (h : s.Sound pays) {env : ScanEnv} (htruthful : s.Truthful pays (.startScan env))
    (hsettled : s.FindsSettled (.startScan env)) (hscan : s.scan S env = some s') :
    s'.Sound pays := by
  unfold Tally.scan at hscan
  dsimp only at hscan
  set shared := { s.inner.shared with faults := env.faults } with hshared
  split at hscan
  · rename_i result scanner shared' hrun
    cases hscan
    obtain ⟨hmeets, hfiled⟩ := Scanner.look_meets (S := S) (s := shared) h.filed htruthful
    obtain ⟨hremembered, hinvoices⟩ := Scanner.scan_look h.remembered hrun
    set looked := Scanner.look S env s.scanner s.discovered shared
    -- A scan updates invoices; it stores none and removes none.
    have hids : shared'.store.getIds = s.getIds := by
      rcases hinvoices with hsame | ⟨-, transfers, height, deepestUpdate, -, hmap⟩
      · exact congrArg (List.map Invoice.id) hsame
      · rw [Store.getIds, hmap, List.map_map]
        exact List.map_congr_left fun old _ => Scanner.savedInvoice_id _ _ _ _ old
    have hlt : ∀ c ∈ s.newCounts env.faults looked.1, c.number < s.next := by
      intro c hc
      obtain ⟨invoice, hinvoice, hnumber, -⟩ := mem_newCounts hc
      exact hnumber ▸ h.numbers_lt _ (List.mem_map_of_mem hinvoice)
    -- Numbers are distinct, so that the invoice of the number is the one that was counted for.
    have hholder : ∀ c ∈ s.newCounts env.faults looked.1, ∀ id ∈ s.getIds,
        s.numbers id = c.number → id.subIndex = c.sighting.amount.subIndex := by
      intro c hc id hid heq
      obtain ⟨invoice, hinvoice, hnumber, -, hcounts⟩ := mem_newCounts hc
      rw [(Sighting.of_countsFor hcounts).1,
        h.numbers_inj id hid _ (List.mem_map_of_mem hinvoice) (heq.trans hnumber)]
      rfl
    refine ⟨?_, h.created, hremembered, hfiled, ?_, ?_, fun c hc => ?_, fun c hc => ?_,
      fun c hc id hid heq => ?_, fun c hc c' hc' heq => h.single_scan hsettled hmeets hc hc' heq,
      fun invoice hmem => ?_⟩
    · refine h.exclusive.of_perm (List.Perm.of_eq (?_ : _ ++ [] = _)) rfl rfl
      simp only [Store.getIds] at hids
      simp only [System.owners, System.invoices, System.map_index_eq, hids, List.append_nil]
    · simp only [getIds, hids]
      exact h.numbers_lt
    · simp only [getIds, hids]
      exact h.numbers_inj
    · exact (List.mem_append.mp hc).elim (h.counted_lt c) (hlt c)
    · refine (List.mem_append.mp hc).elim (h.paid c) fun hc => ?_
      obtain ⟨invoice, -, -, hsighting, -⟩ := mem_newCounts hc
      exact (hmeets _ hsighting).2
    · simp only [getIds, hids] at hid
      exact (List.mem_append.mp hc).elim (fun hc => h.holder c hc id hid heq)
        fun hc => hholder c hc id hid heq
    · rcases hinvoices with hsame | ⟨hfor, transfers, height, deepestUpdate, hperm, hmap⟩
      · simp only [invoices, hsame] at hmem
        intro t ht
        obtain ⟨c, hc, hrest⟩ := h.explained invoice hmem t ht
        exact ⟨c, List.mem_append_left _ hc, hrest⟩
      · simp only [invoices, hmap] at hmem
        obtain ⟨old, hold, rfl⟩ := List.mem_map.mp hmem
        rw [Scanner.savedInvoice_id]
        exact h.explained_saved hfor hperm hold
  · cases hscan

/-! ## Whole runs -/

/-- **What has been counted before the start**: outputs to the stored invoices, which explain their
transfers. -/
structure Opening (pays : OutputId → SubIndex) (s : Tally) : Prop where
  counted : ∀ c ∈ s.counted, ∃ invoice ∈ s.invoices, c.number = s.numbers invoice.id ∧
    c.sighting.amount.subIndex = invoice.index ∧ pays c.sighting.outputId = invoice.index
  explained : ∀ invoice ∈ s.invoices, ∀ t ∈ invoice.transfers, ∃ c ∈ s.counted,
    c.number = s.numbers invoice.id ∧ c.sighting.transfer = t

/-- The invariant holds at the start. -/
theorem Sound.start {store : Store} {viewpair : SubIndex → String} {majorIndex : UInt32}
    {rng : List ℕ} {publisher : Publisher} {cachedDaemonHeight : ℕ} {scanner : Scanner}
    {past : List Count} (hdistinct : (store.invoices.map Invoice.index).Nodup)
    (hmajor : ∀ invoice ∈ store.invoices, invoice.index.major = majorIndex)
    (hscanner : scanner.txpoolCache.discoveredTransfers = [])
    (hpast : (start (.build store viewpair majorIndex rng publisher cachedDaemonHeight) scanner
      past).Opening pays) :
    (start (.build store viewpair majorIndex rng publisher cachedDaemonHeight) scanner past).Sound
      pays := by
  have hinj : ∀ id ∈ store.getIds, ∀ id' ∈ store.getIds,
      store.getIds.idxOf id = store.getIds.idxOf id' → id = id' :=
    fun id hid id' hid' heq => (List.idxOf_inj hid).mp heq
  have hsame : ∀ invoice ∈ store.invoices, ∀ invoice' ∈ store.invoices,
      invoice.index = invoice'.index → invoice = invoice' :=
    fun invoice hmem invoice' hmem' heq => List.inj_on_of_nodup_map hdistinct hmem hmem' heq
  -- The numbers of the stored invoices are their positions.
  refine ⟨System.Exclusive.start hdistinct hmajor, nofun, hscanner, nofun, fun id hid => ?_, hinj,
    fun c hc => ?_, fun c hc => ?_, fun c hc id hid heq => ?_, fun c hc c' hc' heq => ?_,
    hpast.explained⟩
  · exact List.idxOf_lt_length_iff.mpr hid
  · obtain ⟨invoice, hinvoice, hnumber, -⟩ := hpast.counted c hc
    exact hnumber ▸ List.idxOf_lt_length_iff.mpr (List.mem_map_of_mem hinvoice)
  · obtain ⟨invoice, -, -, hindex, hpays⟩ := hpast.counted c hc
    exact hpays.trans hindex.symm
  · obtain ⟨invoice, hinvoice, hnumber, hindex, -⟩ := hpast.counted c hc
    rw [hindex, hinj id hid _ (List.mem_map_of_mem hinvoice) (heq.trans hnumber)]
    rfl
  · obtain ⟨invoice, hinvoice, hnumber, -, hpays⟩ := hpast.counted c hc
    obtain ⟨invoice', hinvoice', hnumber', -, hpays'⟩ := hpast.counted c' hc'
    have hindex : invoice.index = invoice'.index := by rw [← hpays, ← hpays', heq]
    rw [hnumber, hnumber', hsame invoice hinvoice invoice' hinvoice' hindex]

/-- **A whole run** in which every scan finds the payments of removed invoices settled keeps the
invariant. -/
theorem Sound.run (h : s.Sound pays)
    (hrun : Reaches S (fun s t => s.Truthful pays t ∧ s.FindsSettled t) s s') : s'.Sound pays := by
  refine TakesTurn.invariant (Sound pays) ?_ hrun h
  rintro s s' t hs ⟨htruthful, hsettled⟩ hturn
  cases t with
  | newInvoice args => exact hs.call (S := S) (t := .newInvoice args) hturn
  | removeInvoice id => exact hs.call (S := S) (t := .removeInvoice id) hturn
  | call i env => exact hs.call (S := S) (t := .call i env) hturn
  | startScan env => exact hs.scan htruthful hsettled hturn
  | scanner => cases hturn

/-- **One payment, one invoice**, as long as every scan finds the payments of removed invoices
settled. In every such run of scans and of calls of `new_invoice` and `remove_invoice`, interleaved
step by step between the scans, no output has ever been counted for two different invoices. Every
transfer of a stored invoice is an output that was counted for it, and stored invoices have
different numbers. -/
theorem one_payment_one_invoice {store : Store} {viewpair : SubIndex → String} {majorIndex : UInt32}
    {rng : List ℕ} {publisher : Publisher} {cachedDaemonHeight : ℕ} {scanner : Scanner}
    {past : List Count} (hdistinct : (store.invoices.map Invoice.index).Nodup)
    (hmajor : ∀ invoice ∈ store.invoices, invoice.index.major = majorIndex)
    (hscanner : scanner.txpoolCache.discoveredTransfers = [])
    (hpast : (start (.build store viewpair majorIndex rng publisher cachedDaemonHeight) scanner
      past).Opening pays)
    (hrun : Reaches S (fun s t => s.Truthful pays t ∧ s.FindsSettled t)
      (start (.build store viewpair majorIndex rng publisher cachedDaemonHeight) scanner past) s) :
    (∀ c ∈ s.counted, ∀ c' ∈ s.counted, c.sighting.outputId = c'.sighting.outputId →
      c.number = c'.number) ∧
    (∀ invoice ∈ s.invoices, ∀ t ∈ invoice.transfers, ∃ c ∈ s.counted,
      c.number = s.numbers invoice.id ∧ c.sighting.transfer = t) ∧
    ∀ id ∈ s.getIds, ∀ id' ∈ s.getIds, s.numbers id = s.numbers id' → id = id' := by
  have hsound := (Sound.start hdistinct hmajor hscanner hpast).run hrun
  exact ⟨hsound.single, hsound.explained, hsound.numbers_inj⟩

/-! ## A subaddress that is used twice -/

instance (s : Tally) (t : System.Turn) : Decidable (s.Truthful pays t) :=
  match t with
  | .startScan _ => inferInstanceAs (Decidable (PaysAs pays _))
  | .newInvoice _ | .removeInvoice _ | .call _ _ | .scanner => inferInstanceAs (Decidable True)

instance (s : Tally) (c : Count) : Decidable (s.Outlived c) :=
  inferInstanceAs (Decidable (∀ id ∈ s.getIds, _))

instance (s : Tally) (t : System.Turn) : Decidable (s.FindsSettled t) :=
  match t with
  | .startScan env => inferInstanceAs (Decidable (∀ c ∈ s.counted, s.Outlived c →
      ∀ invoice ∈ s.invoices, invoice.index = c.sighting.amount.subIndex →
        ∀ height ∈ s.scanner.meets env c.sighting.outputId.txHash,
          ∃ b ∈ height, b < invoice.creationHeight))
  | .newInvoice _ | .removeInvoice _ | .call _ _ | .scanner => inferInstanceAs (Decidable True)

/-- The end of a run by turns, which stops where a turn is not possible or not allowed. -/
def after (S : Backend) (allowed : Tally → System.Turn → Prop) [∀ s t, Decidable (allowed s t)] :
    List System.Turn → Tally → Option Tally :=
  replay (turn S) fun s t => decide (allowed s t)

theorem after_reaches {allowed : Tally → System.Turn → Prop} [∀ s t, Decidable (allowed s t)]
    {turns : List System.Turn} (h : after S allowed turns s = some s') : Reaches S allowed s s' :=
  replay_run (fun _ _ hallowed => of_decide_eq_true hallowed) h

/-- A store with an invoice for index 1 that expires at height 2. -/
def briefStore : Store :=
  ⟨[Invoice.new "" ⟨0, 1⟩ 1 20 1 1 ""], fun _ => none, none, List.nodup_singleton _⟩

/-- A gateway on that store that has seen an empty pool, and gives out again what is put back. -/
def expiring : Tally :=
  .start (.build briefStore (fun _ => "") 0 [99] .new 3)
    (Gateway.smallStart (Gateway.pooled []) briefStore).scanner []

/-- A scan, the removal of the invoice, a new one with its subaddress, and another scan. -/
def reused (first second : Daemon) : List System.Turn :=
  .startScan (plainEnv first) :: .removeInvoice ⟨⟨0, 1⟩, 1⟩ :: List.replicate 3 (.call 0 {}) ++
    .newInvoice System.smallArgs :: List.replicate 4 (.call 1 {}) ++ [.startScan (plainEnv second)]

/-- A chain in which a payment has been mined, in a block with the given hash, and blocks on top. -/
def minedIn (hash : Hash) (top : List (Hash × List Transaction)) : Daemon :=
  ⟨[(10, []), (11, []), (hash, [Gateway.fives 7])] ++ top, []⟩

/-- The payment of the first invoice has been mined below the creation height of the second. A reorg
makes the scan meet it again, and it is not counted again; a later payment is counted for the
second. -/
theorem one_payment_one_invoice_reorg :
    ∃ s, Reaches .exact (fun s t => s.Truthful (fun _ => ⟨0, 1⟩) t ∧ s.FindsSettled t) expiring s ∧
      s.counted.map (fun c => (c.number, c.sighting.outputId, c.sighting.height))
        = [(0, ⟨7, 0⟩, some 2), (1, ⟨8, 0⟩, some 3)] ∧
      (∀ c ∈ s.counted, ∀ c' ∈ s.counted, c.sighting.outputId = c'.sighting.outputId →
        c.number = c'.number) ∧
      (∀ invoice ∈ s.invoices, ∀ t ∈ invoice.transfers, ∃ c ∈ s.counted,
        c.number = s.numbers invoice.id ∧ c.sighting.transfer = t) ∧
      ∀ id ∈ s.getIds, ∀ id' ∈ s.getIds, s.numbers id = s.numbers id' → id = id' := by
  have hend : (after .exact (fun s t => s.Truthful (fun _ => ⟨0, 1⟩) t ∧ s.FindsSettled t)
      (reused (minedIn 12 []) (minedIn 13 [(14, [Gateway.fives 8])])) expiring).map
        (fun s => s.counted.map fun c => (c.number, c.sighting.outputId, c.sighting.height))
      = some [(0, ⟨7, 0⟩, some 2), (1, ⟨8, 0⟩, some 3)] := by decide +kernel
  obtain ⟨s, hs, hcounted⟩ := Option.map_eq_some_iff.mp hend
  have hreaches := after_reaches hs
  have hpast : expiring.Opening fun _ => ⟨0, 1⟩ := ⟨nofun, by decide⟩
  exact ⟨s, hreaches, hcounted,
    one_payment_one_invoice (by decide) (by decide) rfl hpast hreaches⟩

/-- A payment in the txpool. -/
def inPool : Sighting := ⟨⟨⟨0, 1⟩, 5, ⟨7⟩, ⟨7, 0⟩⟩, none⟩

/-- **A payment that is counted twice**: an expired invoice is removed while its payment is in the
txpool, and the next scan counts the payment for the invoice that has got the subaddress. -/
theorem payment_counted_twice :
    ∃ s, Reaches .exact (fun s t => s.Truthful (fun _ => ⟨0, 1⟩) t ∧ s.removesDue t = true)
        expiring s ∧
      ∃ c ∈ s.counted, ∃ c' ∈ s.counted, c.sighting.outputId = c'.sighting.outputId ∧
        c.number ≠ c'.number ∧ s.invoices.map Invoice.transfers = [[c'.sighting.transfer]] := by
  have hend : (after .exact (fun s t => s.Truthful (fun _ => ⟨0, 1⟩) t ∧ s.removesDue t = true)
      (reused (Gateway.pooled [7]) (Gateway.pooled [7])) expiring).map
        (fun s => (s.counted, s.invoices.map Invoice.transfers))
      = some ([⟨0, inPool⟩, ⟨1, inPool⟩], [[inPool.transfer]]) := by decide +kernel
  obtain ⟨s, hs, heq⟩ := Option.map_eq_some_iff.mp hend
  obtain ⟨hcounted, htransfers⟩ := Prod.mk.inj heq
  refine ⟨s, after_reaches hs, ⟨0, inPool⟩, ?_, ⟨1, inPool⟩, ?_, rfl, by decide, htransfers⟩
  · rw [hcounted]
    exact List.mem_cons_self
  · rw [hcounted]
    exact List.mem_cons_of_mem _ List.mem_cons_self

end Tally

end AcceptXmr
