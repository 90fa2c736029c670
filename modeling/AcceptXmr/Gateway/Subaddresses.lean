import AcceptXmr.Gateway
import AcceptXmr.Gateway.Calls

/-! # Who holds a subaddress

A subaddress is available, held by a call or given to a stored invoice, and moves between the three
while calls and scans are interleaved.

* **`subaddresses_exclusive`** — no two hold the same.
* **`issued_scannable`** — an address that is given out can be scanned for, as long as the addresses
  that are put back are of the gateway's own account and range. -/

namespace AcceptXmr

/-- The sub indexes that a call holds. -/
def Call.holds : Call → List SubIndex
  | .addressed _ subIndex _ => [subIndex]
  | .created invoice => [invoice.index]
  | .removed id _ => [id.subIndex]
  | _ => []

/-- The sub indexes that a call puts on an invoice. -/
def Call.issues : Call → List SubIndex
  | .addressed _ subIndex _ => [subIndex]
  | .created invoice => [invoice.index]
  | _ => []

namespace System

variable {S : Backend} {s s' : System}

/-- All sub indexes with their holders: stored invoices, calls and the available ones. -/
def owners (self : System) : List SubIndex :=
  self.invoices.map Invoice.index ++ self.calls.flatMap Call.holds ++ self.inner.subaddresses.keys

/-- **The invariant**: every sub index has one holder, and is in the range of the cache. -/
structure Exclusive (s : System) : Prop where
  nodup : s.owners.Nodup
  major : ∀ k ∈ s.owners, k.major = s.inner.subaddresses.majorIndex
  minor : ∀ k ∈ s.owners, k.minor ≤ s.inner.subaddresses.highestMinorIndex

/-- Sub indexes may change hands and get lost. -/
theorem Exclusive.of_perm (h : Exclusive s) {lost : List SubIndex}
    (hperm : (s'.owners ++ lost).Perm s.owners)
    (hmajor : s'.inner.subaddresses.majorIndex = s.inner.subaddresses.majorIndex)
    (hhighest : s'.inner.subaddresses.highestMinorIndex = s.inner.subaddresses.highestMinorIndex) :
    Exclusive s' := by
  have hmem : ∀ k ∈ s'.owners, k ∈ s.owners :=
    fun k hk => hperm.mem_iff.mp (List.mem_append_left _ hk)
  refine ⟨?_, fun k hk => ?_, fun k hk => ?_⟩
  · exact ((hperm.nodup_iff.mpr h.nodup).sublist (List.sublist_append_left _ _))
  · rw [hmajor]
    exact h.major k (hmem k hk)
  · rw [hhighest]
    exact h.minor k (hmem k hk)

/-- The indexes of invoices are part of their ids. -/
theorem map_index_eq (invoices : List Invoice) :
    invoices.map Invoice.index = (invoices.map Invoice.id).map InvoiceId.subIndex := by
  rw [List.map_map]
  rfl

/-- The holders when one call is singled out. -/
theorem count_owners {front back : List Call} {call : Call} (hcalls : s.calls = front ++ call :: back)
    (k : SubIndex) : s.owners.count k
      = (s.invoices.map Invoice.index).count k + (front.flatMap Call.holds).count k
        + call.holds.count k + (back.flatMap Call.holds).count k
        + s.inner.subaddresses.keys.count k := by
  rw [owners, hcalls]
  simp only [List.flatMap_append, List.flatMap_cons, List.count_append]
  omega

/-- **Giving out a subaddress** keeps the invariant: the new ones of the cache are above its range.
-/
theorem Exclusive.addressed (h : Exclusive s) {front back : List Call} {args : InvoiceArgs}
    {subIndex : SubIndex} {subaddress : String} {subaddresses : SubaddressCache}
    (hcalls : s.calls = front ++ .newInvoice args :: back)
    (htaken : SubaddressCache.Taken s.inner.subaddresses subIndex subaddresses) :
    Exclusive ⟨{ s.inner with subaddresses := subaddresses },
      front ++ .addressed args subIndex subaddress :: back, s.scanning⟩ := by
  have howners : s.owners.Perm (s.invoices.map Invoice.index
      ++ (front ++ back).flatMap Call.holds ++ s.inner.subaddresses.keys) := by
    rw [List.perm_iff_count]
    intro k
    rw [count_owners hcalls k]
    simp only [Call.holds, List.flatMap_append, List.count_append, List.count_nil]
    omega
  have hnodup := howners.nodup_iff.mp h.nodup
  generalize hclaimed : s.invoices.map Invoice.index ++ (front ++ back).flatMap Call.holds = claimed
    at howners hnodup
  have howners' : (owners ⟨{ s.inner with subaddresses := subaddresses },
      front ++ .addressed args subIndex subaddress :: back, s.scanning⟩).Perm
        (subIndex :: claimed ++ subaddresses.keys) := by
    rw [List.perm_iff_count]
    intro k
    rw [count_owners rfl k, ← hclaimed]
    simp only [invoices, Call.holds, List.cons_append, List.count_cons, List.flatMap_append,
      List.count_append, List.count_nil]
    omega
  have hbound : ∀ k ∈ claimed ++ s.inner.subaddresses.keys,
      k.major = s.inner.subaddresses.majorIndex ∧
        k.minor ≤ s.inner.subaddresses.highestMinorIndex := fun k hk =>
    ⟨h.major k (howners.mem_iff.mpr hk), h.minor k (howners.mem_iff.mpr hk)⟩
  have hbound' : ∀ k ∈ subIndex :: claimed ++ subaddresses.keys,
      k.major = s.inner.subaddresses.majorIndex ∧ k.minor ≤ subaddresses.highestMinorIndex := by
    intro k hk
    have hold : k ∈ claimed ++ s.inner.subaddresses.keys → k.major = s.inner.subaddresses.majorIndex ∧
        k.minor ≤ subaddresses.highestMinorIndex := fun hk =>
      ⟨(hbound k hk).1, UInt32.le_trans (hbound k hk).2 htaken.highest⟩
    rw [List.cons_append, List.mem_cons, List.mem_append] at hk
    rcases hk with rfl | hk | hk
    · exact hold (List.mem_append_right _ htaken.mem)
    · exact hold (List.mem_append_left _ hk)
    · rcases (htaken.keys k).mp hk with ⟨hk, -⟩ | ⟨hmajor, -, hminor⟩
      · exact hold (List.mem_append_right _ hk)
      · exact ⟨hmajor, hminor⟩
  rw [List.nodup_append] at hnodup
  obtain ⟨hclaimedNodup, -, hdisjoint⟩ := hnodup
  refine ⟨howners'.nodup_iff.mpr ?_, fun k hk => ?_, fun k hk => ?_⟩
  · rw [List.nodup_append, List.nodup_cons]
    refine ⟨⟨fun hmem => hdisjoint _ hmem _ htaken.mem rfl, hclaimedNodup⟩,
      subaddresses.availableSubaddresses.nodup, ?_⟩
    rintro k hk k' hk' rfl
    -- A key of the new cache is an old one that was not taken, or is above the old range.
    rcases (htaken.keys k).mp hk' with ⟨hkey, hne⟩ | ⟨-, hlt, -⟩
    · rcases List.mem_cons.mp hk with rfl | hk
      · exact hne rfl
      · exact hdisjoint k hk k hkey rfl
    · refine UInt32.not_le.mpr hlt (hbound k ?_).2
      rcases List.mem_cons.mp hk with rfl | hk
      · exact List.mem_append_right _ htaken.mem
      · exact List.mem_append_left _ hk
  · rw [htaken.majorIndex]
    exact (hbound' k (howners'.mem_iff.mp hk)).1
  · exact (hbound' k (howners'.mem_iff.mp hk)).2

/-- **A step of a call** keeps the invariant. -/
theorem Exclusive.call (h : Exclusive s) {front back : List Call} {call call' : Call}
    {env : CallEnv} {inner : PaymentGatewayInner} (hcalls : s.calls = front ++ call :: back)
    (hadvances : Call.Advances s.inner env call call' inner) :
    Exclusive ⟨inner, front ++ call' :: back, s.scanning⟩ := by
  -- Except where an address is given out, the sub indexes only change hands.
  have hmoves : ∀ lost : List SubIndex,
      inner.subaddresses.majorIndex = s.inner.subaddresses.majorIndex →
      inner.subaddresses.highestMinorIndex = s.inner.subaddresses.highestMinorIndex →
      (∀ k, (inner.shared.store.invoices.map Invoice.index).count k + call'.holds.count k
          + inner.subaddresses.keys.count k + lost.count k
        = (s.invoices.map Invoice.index).count k + call.holds.count k
          + s.inner.subaddresses.keys.count k) →
      Exclusive ⟨inner, front ++ call' :: back, s.scanning⟩ := by
    intro lost hmajor hhighest hcount
    refine h.of_perm (?_ : (_ ++ lost).Perm _) hmajor hhighest
    rw [List.perm_iff_count]
    intro k
    have hk := hcount k
    rw [List.count_append, count_owners hcalls k, count_owners rfl k]
    simp only [invoices] at hk ⊢
    omega
  cases hadvances with
  | addressed hremove => exact h.addressed hcalls (SubaddressCache.removeRandom_cases hremove)
  | panicked => exact hmoves [] rfl rfl fun k => rfl
  | created creationHeight hheight => exact hmoves [] rfl rfl fun k => rfl
  | @unanswered args subIndex subaddress e =>
      refine hmoves [subIndex] rfl rfl fun k => ?_
      simp only [invoices, Call.holds, List.count_nil]
      omega
  | @inserted invoice store hfault hinsert =>
      refine hmoves [] rfl rfl fun k => ?_
      simp only [invoices, (Store.insertInvoice_ok hinsert).2, Call.holds, List.map_append,
        List.map_singleton, List.count_append, List.count_nil]
      omega
  | @notInserted invoice e hrefused =>
      refine hmoves [invoice.index] rfl rfl fun k => ?_
      simp only [invoices, Call.holds, List.count_nil]
      omega
  | registered => exact hmoves [] rfl rfl fun k => rfl
  | @removed id old hfault hget =>
      refine hmoves [] rfl rfl fun k => ?_
      have hperm := ((Store.perm_removeInvoice hget).map Invoice.index).count_eq k
      have hid := (Store.mem_of_getInvoice hget).2
      subst hid
      rw [List.map_cons, List.count_cons] at hperm
      simp only [invoices, Call.holds, List.count_singleton, List.count_nil, Invoice.id] at hperm ⊢
      omega
  | notRemoved result => exact hmoves [] rfl rfl fun k => rfl
  | @putBack id old =>
      have hfree : id.subIndex ∉ s.inner.subaddresses.keys := by
        intro hmem
        have hcount := List.nodup_iff_count_le_one.mp h.nodup id.subIndex
        rw [count_owners hcalls] at hcount
        have hheld : (Call.removed id old).holds.count id.subIndex = 1 := by simp [Call.holds]
        have hpos := List.count_pos_iff.mpr hmem
        omega
      refine hmoves [] rfl rfl fun k => ?_
      simp only [invoices, SubaddressCache.insert, SubaddressCache.keys, IndexMap.keys_insert hfree,
        Call.holds, List.count_append, List.count_nil]
      omega
  | unregistered => exact hmoves [] rfl rfl fun k => rfl

/-- **Every step** keeps the invariant. -/
theorem Exclusive.turns (h : Exclusive s) (hs : SoundScan s) {t : Turn} (hturns : Turns S s t s') :
    Exclusive s' := by
  cases hturns with
  | newInvoice args | removeInvoice id =>
      refine h.of_perm (List.Perm.of_eq (?_ : _ ++ [] = _)) rfl rfl
      simp [owners, invoices, Call.holds]
  | call hcalls hadvances => exact h.call hcalls hadvances
  | startScan hscanning => exact ⟨h.nodup, h.major, h.minor⟩
  | finished hscanning => exact ⟨h.nodup, h.major, h.minor⟩
  | served hscanning =>
      refine h.of_perm (List.Perm.of_eq (?_ : _ ++ [] = _)) rfl rfl
      have hids := hs.getIds_served (S := S) hscanning
      simp only [Store.getIds] at hids
      simp only [owners, invoices, map_index_eq, hids, List.append_nil]

/-- The invariant holds at the start. -/
theorem Exclusive.start {store : Store} {viewpair : SubIndex → String} {majorIndex : UInt32}
    {rng : List ℕ} {publisher : Publisher} {cachedDaemonHeight : ℕ} {scanner : Scanner}
    (hdistinct : (store.invoices.map Invoice.index).Nodup)
    (hmajor : ∀ invoice ∈ store.invoices, invoice.index.major = majorIndex) :
    Exclusive (start (.build store viewpair majorIndex rng publisher cachedDaemonHeight) scanner) := by
  have hmem : ∀ k ∈ (System.start (.build store viewpair majorIndex rng publisher
      cachedDaemonHeight) scanner).owners, (∃ invoice ∈ store.invoices, invoice.index = k) ∨
        k ∈ (SubaddressCache.init store viewpair majorIndex rng).keys := by
    intro k hk
    rw [owners, List.mem_append, List.mem_append] at hk
    rcases hk with (hk | hk) | hk
    · exact .inl (List.mem_map.mp hk)
    · cases hk
    · exact .inr hk
  refine ⟨?_, fun k hk => ?_, fun k hk => ?_⟩
  · simp only [owners, System.start, List.flatMap_nil, List.append_nil]
    rw [List.nodup_append]
    refine ⟨hdistinct, IndexMap.nodup _, ?_⟩
    rintro k hk k' hk' rfl
    exact (SubaddressCache.mem_keys_init.mp hk').2.2 hk
  · rcases hmem k hk with ⟨invoice, hinvoice, rfl⟩ | hk
    · exact hmajor invoice hinvoice
    · exact (SubaddressCache.mem_keys_init.mp hk).1
  · rcases hmem k hk with ⟨invoice, hinvoice, rfl⟩ | hk
    · exact SubaddressCache.index_le_highest_init hmajor hinvoice
    · exact (SubaddressCache.mem_keys_init.mp hk).2.1

/-- **No shared subaddresses.** In every run of calls and scans, from a store whose invoices have
distinct sub indexes of the gateway's account, no two stored invoices have the same sub index, none
of these is available, and all are in the range of the cache. -/
theorem subaddresses_exclusive {store : Store} {viewpair : SubIndex → String} {majorIndex : UInt32}
    {rng : List ℕ} {publisher : Publisher} {cachedDaemonHeight : ℕ} {scanner : Scanner}
    (hdistinct : (store.invoices.map Invoice.index).Nodup)
    (hmajor : ∀ invoice ∈ store.invoices, invoice.index.major = majorIndex)
    (h : Reaches S anyTurn
      (start (.build store viewpair majorIndex rng publisher cachedDaemonHeight) scanner) s) :
    (s.invoices.map Invoice.index).Nodup ∧
      (∀ invoice ∈ s.invoices, invoice.index ∉ s.inner.subaddresses.keys) ∧
      (∀ k ∈ s.inner.subaddresses.keys, k.minor ≤ s.inner.subaddresses.highestMinorIndex) ∧
      ∀ invoice ∈ s.invoices, invoice.index.minor ≤ s.inner.subaddresses.highestMinorIndex := by
  obtain ⟨-, hexclusive⟩ := h.invariant (fun _ _ _ hs hP _ hturns => Exclusive.turns hP hs hturns)
    (.start _ _) (Exclusive.start hdistinct hmajor)
  have hnodup := hexclusive.nodup
  rw [owners, List.nodup_append, List.nodup_append] at hnodup
  obtain ⟨⟨hinvoices, -, -⟩, -, hdisjoint⟩ := hnodup
  refine ⟨hinvoices, fun invoice hmem hkey => ?_, fun k hk => ?_, fun invoice hmem => ?_⟩
  · exact hdisjoint _ (List.mem_append_left _ (List.mem_map_of_mem hmem)) _ hkey rfl
  · exact hexclusive.minor k (List.mem_append_right _ hk)
  · exact hexclusive.minor _ (List.mem_append_left _ (List.mem_append_left _
      (List.mem_map_of_mem hmem)))

/-- Two invoices are tracked, and neither index is available. -/
theorem subaddresses_exclusive_two :
    ∃ s, Reaches .exact anyTurn (small smallStore []) s ∧
      s.invoices.map Invoice.index = [⟨0, 1⟩, ⟨0, 0⟩] ∧ (s.invoices.map Invoice.index).Nodup ∧
      (∀ invoice ∈ s.invoices, invoice.index ∉ s.inner.subaddresses.keys) ∧
      (∀ k ∈ s.inner.subaddresses.keys, k.minor ≤ s.inner.subaddresses.highestMinorIndex) ∧
      ∀ invoice ∈ s.invoices, invoice.index.minor ≤ s.inner.subaddresses.highestMinorIndex := by
  have hend : (after .exact (fun _ _ => true)
      (.newInvoice smallArgs :: List.replicate 4 (.call 0 {})) (small smallStore [])).map
        (fun s => s.invoices.map Invoice.index) = some [⟨0, 1⟩, ⟨0, 0⟩] := by decide +kernel
  obtain ⟨s, hs, hindexes⟩ := Option.map_eq_some_iff.mp hend
  have hreaches : Reaches .exact anyTurn _ s := after_reaches (fun _ _ _ => trivial) hs
  exact ⟨s, hreaches, hindexes,
    subaddresses_exclusive (by decide) (by decide) hreaches⟩

/-! ## Addresses that can be scanned for -/

/-- **Whether a turn keeps foreign addresses out.** An invoice that is taken from the store is of
the gateway's account and in its range, and an address is only given out while the ranges of the
scanner do not end at the greatest index, which they leave out. -/
def keepsOwn (s : System) : Turn → Bool
  | .call i env =>
      match s.calls[i]? with
      | some (.newInvoice _) =>
          decide (s.inner.subaddresses.majorIndex ≠ u32Max) &&
            s.inner.subaddresses.keys.all fun k => decide (k.minor ≠ u32Max)
      | some (.removeInvoice id) =>
          env.fault.isSome || !s.inner.shared.store.getIds.contains id ||
            decide (id.subIndex.major = s.inner.subaddresses.majorIndex) &&
            decide (id.subIndex.minor ≤ s.inner.subaddresses.highestMinorIndex)
      | _ => true
  | _ => true

/-- The invariant: what is available or held is in the range of the cache, and what is given out can
be recognised. -/
structure Scannable (s : System) : Prop where
  keys : ∀ k ∈ s.inner.subaddresses.keys, s.inner.subaddresses.InRange k
  holds : ∀ call ∈ s.calls, ∀ k ∈ call.holds, s.inner.subaddresses.InRange k
  issues : ∀ call ∈ s.calls, ∀ k ∈ call.issues,
    s.inner.subaddresses.majorIndex ≠ u32Max ∧ k.minor ≠ u32Max

/-- **Giving out an address** that the scanner recognises. -/
theorem Scannable.addressed (h : Scannable s) {front back : List Call} {args : InvoiceArgs}
    {subIndex : SubIndex} {subaddress : String} {subaddresses : SubaddressCache}
    (hcalls : s.calls = front ++ .newInvoice args :: back)
    (htaken : SubaddressCache.Taken s.inner.subaddresses subIndex subaddresses)
    (hmajor : s.inner.subaddresses.majorIndex ≠ u32Max)
    (hminor : ∀ k ∈ s.inner.subaddresses.keys, k.minor ≠ u32Max) :
    Scannable ⟨{ s.inner with subaddresses := subaddresses },
      front ++ .addressed args subIndex subaddress :: back, s.scanning⟩ := by
  refine ⟨fun k hk => ?_, ?_, ?_⟩
  · rcases (htaken.keys k).mp hk with ⟨hk, -⟩ | ⟨hk, -, hle⟩
    · exact htaken.inRange (h.keys k hk)
    · exact ⟨hk.trans htaken.majorIndex.symm, hle⟩
  · refine forall_calls_set hcalls (fun c hc k hk => htaken.inRange (h.holds c hc k hk)) ?_
    intro k hk
    rw [List.mem_singleton.mp hk]
    exact htaken.inRange (h.keys _ htaken.mem)
  · refine forall_calls_set hcalls (fun c hc k hk => ?_) fun k hk => ?_
    · simp only [htaken.majorIndex]
      exact h.issues c hc k hk
    · simp only [htaken.majorIndex]
      rw [List.mem_singleton.mp hk]
      exact ⟨hmajor, hminor _ htaken.mem⟩

/-- **A step of a call** that keeps foreign addresses out. -/
theorem Scannable.call (h : Scannable s) {front back : List Call} {call call' : Call} {env : CallEnv}
    {inner : PaymentGatewayInner} (hcalls : s.calls = front ++ call :: back)
    (hadvances : Call.Advances s.inner env call call' inner)
    (hown : s.keepsOwn (.call front.length env) = true) :
    Scannable ⟨inner, front ++ call' :: back, s.scanning⟩ := by
  have hget : s.calls[front.length]? = some call := by simp [hcalls]
  have hmem : call ∈ s.calls := by rw [hcalls]; exact List.mem_append_right _ List.mem_cons_self
  -- A call that moves on without touching the cache holds and issues what it did before.
  have hmoves : inner.subaddresses = s.inner.subaddresses → (∀ k ∈ call'.holds, k ∈ call.holds) →
      (∀ k ∈ call'.issues, k ∈ call.issues) →
      Scannable ⟨inner, front ++ call' :: back, s.scanning⟩ := by
    intro hsame hholds hissues
    refine ⟨?_, ?_, ?_⟩
    · simp only [hsame]
      exact h.keys
    · simp only [hsame]
      exact forall_calls_set hcalls h.holds fun k hk => h.holds call hmem k (hholds k hk)
    · simp only [hsame]
      exact forall_calls_set hcalls h.issues fun k hk => h.issues call hmem k (hissues k hk)
  simp only [keepsOwn, hget] at hown
  cases hadvances with
  | addressed hremove =>
      rw [Bool.and_eq_true, decide_eq_true_eq, List.all_eq_true] at hown
      exact h.addressed hcalls (SubaddressCache.removeRandom_cases hremove) hown.1
        fun k hk => of_decide_eq_true (hown.2 k hk)
  | panicked | unanswered e | inserted hfault hinsert | notInserted e hrefused | registered
  | notRemoved result | unregistered =>
      exact hmoves rfl (fun _ hk => absurd hk List.not_mem_nil) fun _ hk => absurd hk List.not_mem_nil
  | created creationHeight hheight => exact hmoves rfl (fun _ hk => hk) fun _ hk => hk
  | @removed id old hfault hstored =>
      have hids : id ∈ s.inner.shared.store.getIds := by
        obtain ⟨hold, rfl⟩ := Store.mem_of_getInvoice hstored
        exact List.mem_map_of_mem hold
      simp only [hfault, Option.isSome_none, Bool.false_or, List.contains_eq_mem, hids, decide_true,
        Bool.not_true, Bool.and_eq_true, decide_eq_true_eq] at hown
      refine ⟨h.keys, forall_calls_set hcalls h.holds fun k hk => ?_,
        forall_calls_set hcalls h.issues fun k hk => absurd hk List.not_mem_nil⟩
      rw [List.mem_singleton.mp hk]
      exact hown
  | @putBack id old =>
      refine ⟨fun k hk => ?_,
        forall_calls_set hcalls h.holds fun k hk => absurd hk List.not_mem_nil,
        forall_calls_set hcalls h.issues fun k hk => absurd hk List.not_mem_nil⟩
      rcases IndexMap.mem_keys_insert.mp hk with hk | rfl
      · exact h.keys k hk
      · exact h.holds _ hmem _ List.mem_cons_self

/-- **Every step** that keeps foreign addresses out keeps the invariant. -/
theorem Scannable.turns (h : Scannable s) {t : Turn} (hown : s.keepsOwn t = true)
    (hturns : Turns S s t s') : Scannable s' := by
  have hbegins : ∀ call : Call, call.holds = [] → call.issues = [] →
      Scannable { s with calls := s.calls ++ [call] } := by
    intro call hholds hissues
    refine ⟨h.keys, fun c hc k hk => ?_, fun c hc k hk => ?_⟩
    · rcases List.mem_append.mp hc with hc | hc
      · exact h.holds c hc k hk
      · rw [List.mem_singleton.mp hc, hholds] at hk
        cases hk
    · rcases List.mem_append.mp hc with hc | hc
      · exact h.issues c hc k hk
      · rw [List.mem_singleton.mp hc, hissues] at hk
        cases hk
  cases hturns with
  | newInvoice args => exact hbegins _ rfl rfl
  | removeInvoice id => exact hbegins _ rfl rfl
  | call hcalls hadvances => exact h.call hcalls hadvances hown
  | startScan hscanning => exact ⟨h.keys, h.holds, h.issues⟩
  | finished hscanning => exact ⟨h.keys, h.holds, h.issues⟩
  | served hscanning => exact ⟨h.keys, h.holds, h.issues⟩

/-- **Every issued address is scannable**, unless a foreign one is put back: in every run in which
all turns keep foreign addresses out, whatever is stored at the start, every invoice that
`new_invoice` creates is of the gateway's account and in its range, and the scanner's checker covers
it. -/
theorem issued_scannable {store : Store} {viewpair : SubIndex → String} {majorIndex : UInt32}
    {rng : List ℕ} {publisher : Publisher} {cachedDaemonHeight : ℕ} {scanner : Scanner}
    (h : Reaches S (fun s t => s.keepsOwn t = true)
      (start (.build store viewpair majorIndex rng publisher cachedDaemonHeight) scanner) s) :
    ∀ invoice, Call.created invoice ∈ s.calls →
      invoice.index.major = s.inner.subaddresses.majorIndex ∧
      invoice.index.minor ≤ s.inner.subaddresses.highestMinorIndex ∧
      s.inner.subaddresses.subKeyChecker.covers invoice.index = true := by
  have hstart : Scannable
      (start (.build store viewpair majorIndex rng publisher cachedDaemonHeight) scanner) := by
    refine ⟨fun k hk => ?_, nofun, nofun⟩
    obtain ⟨hmajor, hminor, -⟩ := SubaddressCache.mem_keys_init.mp hk
    exact ⟨hmajor, hminor⟩
  obtain ⟨-, hscannable⟩ := h.invariant (fun _ _ _ _ hP hown hturns => Scannable.turns hP hown hturns)
    (.start _ _) hstart
  intro invoice hcall
  obtain ⟨hmajor, hminor⟩ := hscannable.holds _ hcall invoice.index List.mem_cons_self
  obtain ⟨hne, hne'⟩ := hscannable.issues _ hcall invoice.index List.mem_cons_self
  exact ⟨hmajor, hminor, SubaddressCache.covers_subKeyChecker.mpr ⟨hmajor, hne, hminor, hne'⟩⟩

/-- The removal of an invoice, and a new invoice that gets its address. -/
def removeAndCreate (id : InvoiceId) : List Turn :=
  [.removeInvoice id, .call 0 {}, .call 0 {}, .newInvoice smallArgs, .call 1 {}, .call 1 {}]

/-- An invoice is removed, and a new one gets its address. -/
theorem issued_scannable_again :
    ∃ s, Reaches .exact (fun s t => s.keepsOwn t = true) (small smallStore [99]) s ∧
      ∃ invoice, Call.created invoice ∈ s.calls ∧ invoice.index = ⟨0, 1⟩ ∧
        invoice.index.major = s.inner.subaddresses.majorIndex ∧
        invoice.index.minor ≤ s.inner.subaddresses.highestMinorIndex ∧
        s.inner.subaddresses.subKeyChecker.covers invoice.index = true := by
  have hend : (after .exact keepsOwn (removeAndCreate ⟨⟨0, 1⟩, 1⟩) (small smallStore [99])).map
      (fun s => decide (Call.created (Invoice.new "" ⟨0, 1⟩ 5 10 1 100 "") ∈ s.calls))
        = some true := by decide +kernel
  obtain ⟨s, hs, hcall⟩ := Option.map_eq_some_iff.mp hend
  rw [decide_eq_true_eq] at hcall
  have hreaches : Reaches .exact (fun s t => s.keepsOwn t = true) _ s :=
    after_reaches (fun _ _ h => h) hs
  exact ⟨s, hreaches, _, hcall, rfl, issued_scannable hreaches _ hcall⟩

/-- **An address that is not scanned for**: an invoice of another account is removed, and its
address is given to the next customer. -/
theorem issued_unscannable :
    ∃ s, Reaches .exact anyTurn (small SubaddressCache.mixedStore [100]) s ∧
      ∃ invoice, Call.created invoice ∈ s.calls ∧
        invoice.index.major ≠ s.inner.subaddresses.majorIndex ∧
        s.inner.subaddresses.subKeyChecker.covers invoice.index = false := by
  have hend : (after .exact (fun _ _ => true) (removeAndCreate ⟨⟨1, 0⟩, 1⟩)
      (small SubaddressCache.mixedStore [100])).map
        (fun s => (decide (Call.created (Invoice.new "" ⟨1, 0⟩ 5 10 1 100 "") ∈ s.calls),
          s.inner.subaddresses.majorIndex, s.inner.subaddresses.subKeyChecker.covers ⟨1, 0⟩))
        = some (true, 0, false) := by decide +kernel
  obtain ⟨s, hs, heq⟩ := Option.map_eq_some_iff.mp hend
  obtain ⟨hcall, hmajor, hcovers⟩ : _ ∧ _ ∧ _ := by simpa only [Prod.mk.injEq] using heq
  rw [decide_eq_true_eq] at hcall
  refine ⟨s, after_reaches (fun _ _ _ => trivial) hs, _, hcall, ?_, hcovers⟩
  rw [hmajor]
  decide

end System

end AcceptXmr
