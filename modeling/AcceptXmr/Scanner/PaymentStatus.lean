import AcceptXmr.Scanner.Crediting
import Mathlib.Algebra.GroupWithZero.Nat
import Mathlib.Data.Nat.Find
import Mathlib.Order.Bounds.Basic

/-! # The payment status of an invoice

`update_invoices` adds up an invoice's transfers in the order of the list and notes the height of
the transfer with which the requested amount is reached. That is the height at which the invoice was
paid only because the list is sorted, which pruning and adding rescanned blocks preserve.

* **`recalculate_status`** — on a sorted list without overflow the recalculation is right.
* **`settle_sorted`** — settling an invoice keeps its transfers sorted.
* **`scan_payment_status`** — in a failure-free run, every invoice that a scan saves has the right
  status. -/

namespace AcceptXmr

/-! ## Sorted transfers -/

/-- The first transfer does not come after the second one by height. -/
def Transfer.NotAfter (a b : Transfer) : Prop := a.cmpByHeight b ≠ .gt

/-- A transfer does not come after one in a block exactly if it is in a block at most as high. -/
theorem Transfer.notAfter_iff {a b : Transfer} :
    a.NotAfter b ↔ ∀ hb, b.height = some hb → ∃ ha, a.height = some ha ∧ ha ≤ hb := by
  unfold NotAfter cmpByHeight
  cases ha : a.height with
  | none => cases hb : b.height <;> simp
  | some h =>
      cases hb : b.height with
      | none => simp
      | some h' => simp [Nat.compare_ne_gt]

/-- Transfers **sorted by height**: blocks ascending, the txpool last. -/
abbrev SortedByHeight (transfers : List Transfer) : Prop := transfers.Pairwise Transfer.NotAfter

/-- The sum of all transfers. -/
def totalOf (transfers : List Transfer) : ℕ := (transfers.map (·.amount)).sum

/-- Whether a transfer is in a block up to height `b`. -/
def Transfer.upTo (b : ℕ) (t : Transfer) : Bool :=
  match t.height with
  | some h => decide (h ≤ b)
  | none => false

/-- The sum of the transfers in blocks up to height `b`. -/
def paidBy (transfers : List Transfer) (b : ℕ) : ℕ := totalOf (transfers.filter (Transfer.upTo b))

@[simp] theorem totalOf_append (l l' : List Transfer) :
    totalOf (l ++ l') = totalOf l + totalOf l' := by
  simp [totalOf]

theorem totalOf_singleton (t : Transfer) : totalOf [t] = t.amount := by simp [totalOf]

theorem paidBy_append (l l' : List Transfer) (b : ℕ) :
    paidBy (l ++ l') b = paidBy l b + paidBy l' b := by
  simp [paidBy]

theorem paidBy_singleton (t : Transfer) (b : ℕ) :
    paidBy [t] b = if t.upTo b then t.amount else 0 := by
  unfold paidBy
  rw [List.filter_cons]
  split <;> simp [totalOf]

theorem paidBy_le_totalOf (l : List Transfer) (b : ℕ) : paidBy l b ≤ totalOf l := by
  induction l with
  | nil => rfl
  | cons t l ih =>
      rw [← List.singleton_append, paidBy_append, totalOf_append, paidBy_singleton,
        totalOf_singleton]
      split <;> omega

/-- Up to a height that no transfer exceeds, everything counts. -/
theorem paidBy_eq_totalOf {l : List Transfer} {b : ℕ}
    (h : ∀ t ∈ l, ∃ ht, t.height = some ht ∧ ht ≤ b) : paidBy l b = totalOf l := by
  rw [paidBy, List.filter_eq_self.mpr]
  intro t ht
  obtain ⟨hh, heq, hle⟩ := h t ht
  simp [Transfer.upTo, heq, hle]

/-- An invoice is **paid at** a height if one of its transfers stands there and the transfers up to
there suffice. -/
def Invoice.PaidAt (invoice : Invoice) (b : ℕ) : Prop :=
  (∃ t ∈ invoice.transfers, t.height = some b) ∧
    invoice.amountRequested ≤ paidBy invoice.transfers b

/-- The least height up to which the transfers suffice is one at which a transfer stands. -/
theorem Invoice.paidAt_of_isLeast {invoice : Invoice} (hreq : 0 < invoice.amountRequested) {b : ℕ}
    (h : IsLeast {b | invoice.amountRequested ≤ paidBy invoice.transfers b} b) :
    invoice.PaidAt b := by
  have hreach : invoice.amountRequested ≤ paidBy invoice.transfers b := h.1
  refine ⟨?_, hreach⟩
  by_contra hnone
  push Not at hnone
  cases b with
  | zero =>
      have hnil : paidBy invoice.transfers 0 = 0 := by
        rw [paidBy, List.filter_eq_nil_iff.mpr]
        · rfl
        · intro t ht hup
          have hne := hnone t ht
          unfold Transfer.upTo at hup
          split at hup
          · rename_i c hc
            simp_all
          · cases hup
      omega
  | succ c =>
      -- Without a transfer at the height, the height below would do.
      have hsame : paidBy invoice.transfers c = paidBy invoice.transfers (c + 1) := by
        unfold paidBy
        congr 1
        refine List.filter_congr fun t ht => ?_
        have hne := hnone t ht
        unfold Transfer.upTo
        cases hth : t.height with
        | none => rfl
        | some d =>
            have hd : d ≠ c + 1 := fun heq => hne (heq ▸ hth)
            simp only [decide_eq_decide]
            omega
      have hle : c + 1 ≤ c := h.2 (by rw [Set.mem_ofPred_eq, hsame]; exact hreach)
      omega

/-- For an invoice that requests something, the two descriptions of the height agree. -/
theorem Invoice.isLeast_paidAt {invoice : Invoice} (hreq : 0 < invoice.amountRequested) {b : ℕ} :
    IsLeast {b | invoice.PaidAt b} b ↔
      IsLeast {b | invoice.amountRequested ≤ paidBy invoice.transfers b} b := by
  refine ⟨fun h => ⟨h.1.2, fun a ha => ?_⟩, fun h => ⟨paidAt_of_isLeast hreq h, fun a ha => h.2 ha.2⟩⟩
  have hex : ∃ a, invoice.amountRequested ≤ paidBy invoice.transfers a := ⟨a, ha⟩
  classical
  have hleast : IsLeast {b | invoice.amountRequested ≤ paidBy invoice.transfers b}
      (Nat.find hex) := ⟨Nat.find_spec hex, fun a' ha' => Nat.find_min' hex ha'⟩
  exact (h.2 (paidAt_of_isLeast hreq hleast)).trans (hleast.2 ha)

/-! ## The recalculation -/

/-- **The right status** of an invoice: the amount paid is the sum of the transfers, and the paid
height is the least at which the invoice is paid. -/
structure PaymentStatus (invoice : Invoice) : Prop where
  amountPaid : invoice.amountPaid = totalOf invoice.transfers
  paidAt : ∀ b, invoice.paidHeight = some b ↔ IsLeast {b | invoice.PaidAt b} b

/-- The running totals after some transfers are right for those. -/
theorem foldl_addTransfer_status {transfers : List Transfer} (hsorted : SortedByHeight transfers)
    (hsum : totalOf transfers < u64Size) (invoice : Invoice)
    (hzero : invoice.amountPaid = 0 ∧ invoice.paidHeight = none) :
    (transfers.foldl Invoice.addTransfer invoice).amountPaid = totalOf transfers ∧
      ((transfers.foldl Invoice.addTransfer invoice).paidHeight = none →
        ∀ t ∈ transfers, ∀ b, t.height = some b →
          paidBy transfers b < invoice.amountRequested) ∧
      ∀ b, (transfers.foldl Invoice.addTransfer invoice).paidHeight = some b →
        (∃ t ∈ transfers, t.height = some b) ∧ invoice.amountRequested ≤ paidBy transfers b ∧
        ∀ t ∈ transfers, ∀ b', t.height = some b' → b' < b →
          paidBy transfers b' < invoice.amountRequested := by
  induction transfers using List.reverseRecOn with
  | nil => exact ⟨hzero.1, fun _ t ht => by simp at ht, fun b hb => by simp [hzero.2] at hb⟩
  | append_singleton pre t ih =>
      obtain ⟨hpre, -, hlast⟩ := List.pairwise_append.mp hsorted
      rw [totalOf_append, totalOf_singleton] at hsum
      obtain ⟨hamount, hnone, hsome⟩ := ih hpre (by omega)
      have hreq' : (pre.foldl Invoice.addTransfer invoice).amountRequested
          = invoice.amountRequested := by rw [Invoice.foldl_addTransfer_eq]
      rw [List.foldl_append, List.foldl_cons, List.foldl_nil]
      generalize pre.foldl Invoice.addTransfer invoice = mid at hamount hnone hsome hreq'
      have hpaid : (mid.amountPaid + t.amount) % u64Size = totalOf pre + t.amount := by
        rw [hamount, Nat.mod_eq_of_lt hsum]
      simp only [Invoice.addTransfer, hpaid, hreq', totalOf_append, totalOf_singleton,
        paidBy_append, paidBy_singleton, true_and, List.mem_append, List.mem_singleton]
      cases ht : t.height with
      | none =>
          -- A pool transfer changes neither the paid height nor any sum over blocks.
          have hsame : (if totalOf pre + t.amount ≥ invoice.amountRequested ∧
              mid.paidHeight = none then none else mid.paidHeight) = mid.paidHeight := by
            split
            · rename_i hp
              exact hp.2.symm
            · rfl
          simpa [hsame, Transfer.upTo, ht, or_imp, forall_and, or_and_right, exists_or]
            using ⟨hnone, fun b hb => (hsome b hb).1, fun b hb => (hsome b hb).2.1,
              fun b hb => (hsome b hb).2.2⟩
      | some h =>
          have hall : ∀ x ∈ pre, ∃ hx, x.height = some hx ∧ hx ≤ h := fun x hx =>
            Transfer.notAfter_iff.mp (hlast x hx t (List.mem_singleton_self t)) h ht
          have htop : paidBy pre h = totalOf pre := paidBy_eq_totalOf hall
          have hup : ∀ b, t.upTo b = decide (h ≤ b) := fun b => by simp [Transfer.upTo, ht]
          simp only [hup, decide_eq_true_eq]
          cases hp : mid.paidHeight with
          | some b₀ =>
              obtain ⟨⟨x₀, hx₀, hheight₀⟩, hreach, hbelow⟩ := hsome b₀ hp
              have hb₀ : b₀ ≤ h := by
                obtain ⟨c, hc, hle⟩ := hall x₀ hx₀
                rw [hheight₀] at hc
                cases hc
                exact hle
              refine ⟨fun hn => by simp at hn, fun b hb => ?_⟩
              simp only [reduceCtorEq, and_false, if_false, Option.some.injEq] at hb
              subst hb
              refine ⟨⟨x₀, .inl hx₀, hheight₀⟩, by omega, fun x hx b' hb' hlt => ?_⟩
              rw [if_neg (by omega)]
              rcases hx with hx | rfl
              · exact hbelow x hx b' hb' hlt
              · rw [ht] at hb'
                cases hb'
                omega
          | none =>
              have hbelow := hnone hp
              by_cases hreach : invoice.amountRequested ≤ totalOf pre + t.amount
              · refine ⟨fun hn => by simp [hreach] at hn, fun b hb => ?_⟩
                simp only [ge_iff_le, hreach, and_self, if_true, Option.some.injEq] at hb
                subst hb
                rw [if_pos le_rfl, htop]
                refine ⟨⟨t, .inr rfl, ht⟩, hreach, fun x hx b' hb' hlt => ?_⟩
                rw [if_neg (by omega)]
                rcases hx with hx | rfl
                · exact hbelow x hx b' hb'
                · rw [ht] at hb'
                  cases hb'
                  omega
              · refine ⟨fun _ x _ b _ => ?_, fun b hb => by simp [hreach] at hb⟩
                have := paidBy_le_totalOf pre b
                split <;> omega

/-- **The recalculation is right** on sorted transfers whose sum is a `u64`. -/
theorem Invoice.recalculate_status {invoice : Invoice} (hsorted : SortedByHeight invoice.transfers)
    (hsum : totalOf invoice.transfers < u64Size) : PaymentStatus invoice.recalculate := by
  obtain ⟨hamount, hnone, hsome⟩ := foldl_addTransfer_status hsorted hsum
    { invoice with paidHeight := none, amountPaid := 0 } ⟨rfl, rfl⟩
  rw [Invoice.recalculate_eq]
  refine ⟨hamount, fun b => ⟨fun hb => ?_, fun hb => ?_⟩⟩
  · obtain ⟨hstands, hreach, hbelow⟩ := hsome b hb
    refine ⟨⟨hstands, hreach⟩, fun b' hb' => Nat.le_of_not_lt fun hlt => ?_⟩
    obtain ⟨t, ht, hheight⟩ := hb'.1
    exact absurd hb'.2 (Nat.not_le.mpr (hbelow t ht b' hheight hlt))
  · obtain ⟨t, ht, hheight⟩ := hb.1.1
    cases hp : invoice.recalculate.paidHeight with
    | none => exact absurd hb.1.2 (Nat.not_le.mpr (hnone hp t ht b hheight))
    | some b' =>
        obtain ⟨hstands, hreach, hbelow⟩ := hsome b' hp
        refine congrArg some (Nat.le_antisymm (Nat.le_of_not_lt fun hlt => ?_)
          (hb.2 ⟨hstands, hreach⟩))
        exact absurd hb.1.2 (Nat.not_le.mpr (hbelow t ht b hheight hlt))

/-- With the right status, the paid height of an invoice that requests something is the least up to
which the transfers suffice. -/
theorem PaymentStatus.paid {invoice : Invoice} (h : PaymentStatus invoice)
    (hreq : 0 < invoice.amountRequested) (b : ℕ) : invoice.paidHeight = some b ↔
      IsLeast {b | invoice.amountRequested ≤ paidBy invoice.transfers b} b := by
  rw [h.paidAt, Invoice.isLeast_paidAt hreq]

/-- With the right status, an invoice that has no paid height cannot be paid from blocks. -/
theorem PaymentStatus.paidHeight_eq_none_iff {invoice : Invoice} (h : PaymentStatus invoice)
    (hreq : 0 < invoice.amountRequested) : invoice.paidHeight = none ↔
      ∀ b, paidBy invoice.transfers b < invoice.amountRequested := by
  refine ⟨fun hn b => ?_, fun hall => ?_⟩
  · by_contra hb
    have hex : ∃ b, invoice.amountRequested ≤ paidBy invoice.transfers b := ⟨b, by omega⟩
    classical
    have hleast : IsLeast {b | invoice.amountRequested ≤ paidBy invoice.transfers b}
        (Nat.find hex) := ⟨Nat.find_spec hex, fun b' hb' => Nat.find_min' hex hb'⟩
    rw [← h.paid hreq, hn] at hleast
    cases hleast
  · cases hp : invoice.paidHeight with
    | none => rfl
    | some b => exact absurd ((h.paid hreq b).mp hp).1 (Nat.not_le.mpr (hall b))

/-- **Confirmations** of an invoice with the right status whose transfers lie below its height:
none while it is unpaid, zero while it needs the txpool, and otherwise the number of blocks from the
paying one up to the current height. -/
theorem PaymentStatus.confirmations {invoice : Invoice} (h : PaymentStatus invoice)
    (hheights : ∀ t ∈ invoice.transfers, ∀ b, t.height = some b → b < invoice.currentHeight)
    (hreq : 0 < invoice.amountRequested) :
    (invoice.confirmations = none ↔ totalOf invoice.transfers < invoice.amountRequested) ∧
    (invoice.confirmations = some 0 ↔ invoice.amountRequested ≤ totalOf invoice.transfers ∧
      ∀ b, paidBy invoice.transfers b < invoice.amountRequested) ∧
    ∀ b, IsLeast {b | invoice.amountRequested ≤ paidBy invoice.transfers b} b →
      invoice.confirmations = some (invoice.currentHeight - b) ∧ b < invoice.currentHeight := by
  have hbelow : ∀ b, IsLeast {b | invoice.amountRequested ≤ paidBy invoice.transfers b} b →
      b < invoice.currentHeight ∧ invoice.amountRequested ≤ totalOf invoice.transfers := by
    intro b hb
    obtain ⟨⟨t, ht, hheight⟩, hreach⟩ := Invoice.paidAt_of_isLeast hreq hb
    exact ⟨hheights t ht b hheight, hreach.trans (paidBy_le_totalOf _ _)⟩
  unfold Invoice.confirmations
  rw [h.amountPaid]
  by_cases hpaid : invoice.amountRequested ≤ totalOf invoice.transfers
  · rw [if_pos hpaid]
    cases hp : invoice.paidHeight with
    | none =>
        have hall := (h.paidHeight_eq_none_iff hreq).mp hp
        refine ⟨by simp [hpaid], by simp [hpaid, hall], fun b hb => ?_⟩
        exact absurd hb.1 (Nat.not_le.mpr (hall b))
    | some b₀ =>
        have hb₀ := (h.paid hreq b₀).mp hp
        obtain ⟨hlt, -⟩ := hbelow b₀ hb₀
        refine ⟨by simp [hpaid], ⟨fun hz => ?_, fun hz => ?_⟩, fun b hb => ?_⟩
        · simp only [Option.some.injEq] at hz
          omega
        · exact absurd hb₀.1 (Nat.not_le.mpr (hz.2 b₀))
        · obtain rfl := hb.unique hb₀
          exact ⟨rfl, hlt⟩
  · rw [if_neg hpaid]
    refine ⟨by simpa using hpaid, by simp [hpaid], fun b hb => absurd (hbelow b hb).2 hpaid⟩

/-! ## Settling keeps transfers sorted -/

namespace Scanner

/-- Where the transfers found in blocks stand. -/
theorem BlocksScanned.height_of_mem {S : Backend} {env : ScanEnv} {cache : BlockCache} {count : ℕ}
    {transfers : List (SubIndex × Transfer)} {s : Shared}
    (h : BlocksScanned S env cache count transfers s) (hcount : count ≤ cache.height + 1)
    {e : SubIndex × Transfer} (he : e ∈ transfers) :
    ∃ i < count, e.2.height = some (cache.height - i) := by
  rw [h.transfers] at he
  obtain ⟨i, hi, he⟩ := List.mem_flatMap.mp he
  rw [List.mem_reverse, List.mem_range] at hi
  exact ⟨i, hi, by rw [height_of_mem_blockTransfers he, U64.sub_of_le (by omega)]⟩

/-- Blocks are scanned deepest first, so what is found in them is sorted. -/
theorem BlocksScanned.sorted {S : Backend} {env : ScanEnv} {cache : BlockCache} {count : ℕ}
    {transfers : List (SubIndex × Transfer)} {s : Shared}
    (h : BlocksScanned S env cache count transfers s) (hcount : count ≤ cache.height + 1) :
    transfers.Pairwise fun e e' => e.2.NotAfter e'.2 := by
  rw [h.transfers, List.pairwise_flatMap]
  refine ⟨fun i _ => ?_, ?_⟩
  · refine List.pairwise_iff_forall_sublist.mpr fun {e e'} hsub => ?_
    have he := height_of_mem_blockTransfers (hsub.subset (List.mem_cons_self ..))
    have he' := height_of_mem_blockTransfers (hsub.subset (List.mem_cons_of_mem _
      (List.mem_singleton_self e')))
    refine Transfer.notAfter_iff.mpr fun hb hhb => ⟨_, he, ?_⟩
    rw [he'] at hhb
    exact (Option.some.inj hhb).le
  · rw [List.pairwise_reverse]
    refine List.pairwise_lt_range.imp_of_mem fun {i j} _ hj hij e he e' he' => ?_
    rw [List.mem_range] at hj
    refine Transfer.notAfter_iff.mpr fun hb hhb => ⟨_, height_of_mem_blockTransfers he, ?_⟩
    rw [height_of_mem_blockTransfers he'] at hhb
    rw [← Option.some.inj hhb, U64.sub_of_le (by omega), U64.sub_of_le (by omega)]
    omega

end Scanner

namespace Gateway

section Scanned

variable {S : Backend} {env : ScanEnv} {g g' : Gateway} {t : ScanTrace} {n : ℕ}

/-- What a scan has found, blocks first, is sorted. -/
theorem Scanned.found_sorted (h : Scanned S env g g' t)
    (hdepth : scanDepth g g' t ≤ g'.cache.height + 1)
    (hpool : Scanner.InPool t.txpoolAmounts) :
    (t.blocksAmounts ++ t.txpoolAmounts).Pairwise fun e e' => e.2.NotAfter e'.2 := by
  refine List.pairwise_append.mpr ⟨h.blocks.sorted hdepth, ?_, fun e _ e' he' => ?_⟩
  · refine List.pairwise_iff_forall_sublist.mpr fun {e e'} hsub => ?_
    have he' := hpool e' (hsub.subset (List.mem_cons_of_mem _ (List.mem_singleton_self e')))
    exact Transfer.notAfter_iff.mpr fun b hb => by rw [he'] at hb; cases hb
  · exact Transfer.notAfter_iff.mpr fun b hb => by rw [hpool e' he'] at hb; cases hb

/-- What a scan adds to an invoice at a block height comes from one of the scanned blocks. -/
theorem Scanned.added_height (h : Scanned S env g g' t)
    (hdepth : scanDepth g g' t ≤ g'.cache.height + 1) (hpool : Scanner.InPool t.txpoolAmounts)
    {invoice : Invoice} {x : Transfer} {b : ℕ}
    (hx : x ∈ Scanner.addedTransfers (t.blocksAmounts ++ t.txpoolAmounts) invoice)
    (hb : x.height = some b) : b ≤ g'.cache.height ∧ g'.cache.height < b + scanDepth g g' t := by
  obtain ⟨e, he, rfl⟩ := List.mem_map.mp hx
  rcases List.mem_append.mp (List.mem_of_mem_filter he) with he | he
  · obtain ⟨i, hi, hheight⟩ := h.blocks.height_of_mem hdepth he
    rw [hheight] at hb
    cases hb
    unfold scanDepth
    omega
  · rw [hpool e he] at hb
    cases hb

/-- The invoice's old transfers and what the scan adds do not overlap: nothing old stays, or all
that is added stands above it. -/
def Apart (g' : Gateway) (t : ScanTrace) (invoice : Invoice) : Prop :=
  Scanner.keptTransfers (deepestUpdate g' t) invoice = [] ∨
    ∀ x ∈ Scanner.addedTransfers (t.blocksAmounts ++ t.txpoolAmounts) invoice,
      ∀ b, x.height = some b → deepestUpdate g' t ≤ b

/-- In a run of one scanner they never overlap. -/
theorem Scanned.apart (h : Scanned S env g g' t) (hn : 1 ≤ n) (hc : env.client.Consistent)
    (hv : g.cache.Valid n) (hpool : Scanner.InPool t.txpoolAmounts) {invoice : Invoice}
    (hfirst : g.scanner.firstScan = true → invoice.transfers = []) : Apart g' t invoice := by
  obtain ⟨hdepth, -, hcount⟩ := h.scanDepth_le hn hc hv
  cases hfs : g.scanner.firstScan with
  | true => exact .inl (by rw [Scanner.keptTransfers, hfirst hfs]; rfl)
  | false =>
      refine .inr fun x hx b hb => ?_
      have hheight := h.added_height hdepth hpool hx hb
      rw [scanDepth, hfs, if_neg (by simp)] at hheight
      rw [deepestUpdate, U64.sub_of_le (Nat.le_add_right_of_le hcount)]
      omega

/-- **What an updated invoice holds is sorted**, and lies in blocks of the cache or below. -/
theorem Scanned.updated_sorted (h : Scanned S env g g' t) (hn : 1 ≤ n)
    (hc : env.client.Consistent) (hv : g.cache.Valid n) (hpool : Scanner.InPool t.txpoolAmounts)
    {invoice : Invoice} (hsorted : SortedByHeight invoice.transfers)
    (hapart : Apart g' t invoice) :
    SortedByHeight (Scanner.keptTransfers (deepestUpdate g' t) invoice ++
      Scanner.addedTransfers (t.blocksAmounts ++ t.txpoolAmounts) invoice) ∧
    ∀ x ∈ Scanner.keptTransfers (deepestUpdate g' t) invoice ++
      Scanner.addedTransfers (t.blocksAmounts ++ t.txpoolAmounts) invoice,
      ∀ b, x.height = some b → b ≤ g'.cache.height := by
  obtain ⟨hdepth, -, hcount⟩ := h.scanDepth_le hn hc hv
  have hkept : ∀ x ∈ Scanner.keptTransfers (deepestUpdate g' t) invoice,
      ∃ b, x.height = some b ∧ b < deepestUpdate g' t :=
    fun x hx => Transfer.cmpByHeight_isLT.mp (List.mem_filter.mp hx).2
  refine ⟨List.pairwise_append.mpr ⟨hsorted.sublist (List.filter_sublist ..), ?_, ?_⟩, ?_⟩
  · exact List.pairwise_map.mpr ((h.found_sorted hdepth hpool).sublist (List.filter_sublist ..))
  · intro x hx y hy
    refine Transfer.notAfter_iff.mpr fun b hb => ?_
    obtain ⟨c, hc', hlt⟩ := hkept x hx
    rcases hapart with hnil | habove
    · rw [hnil] at hx
      cases hx
    · exact ⟨c, hc', (hlt.trans_le (habove y hy b hb)).le⟩
  · intro x hx b hb
    rcases List.mem_append.mp hx with hx | hx
    · obtain ⟨c, hc', hlt⟩ := hkept x hx
      rw [hb] at hc'
      cases hc'
      rw [deepestUpdate, U64.sub_of_le (Nat.le_add_right_of_le hcount)] at hlt
      omega
    · exact (h.added_height hdepth hpool hx hb).1

/-- Transfers sorted, and in blocks up to `height` or in the pool. -/
structure Tidy (height : ℕ) (invoice : Invoice) : Prop where
  sorted : SortedByHeight invoice.transfers
  below : ∀ x ∈ invoice.transfers, ∀ b, x.height = some b → b ≤ height

/-- The status is right if the transfers do not overflow. -/
def StatusRight (invoice : Invoice) : Prop :=
  totalOf invoice.transfers < u64Size → PaymentStatus invoice

/-- **Settling an invoice** keeps its transfers tidy and its status right, whether the update is
skipped or not. -/
theorem Scanned.settle_tidy (h : Scanned S env g g' t) (hn : 1 ≤ n)
    (hc : env.client.Consistent) (hv : g.cache.Valid n) (hpool : Scanner.InPool t.txpoolAmounts)
    {invoice : Invoice} (hsorted : SortedByHeight invoice.transfers)
    (hapart : Apart g' t invoice) :
    Tidy g'.cache.height (Scanner.settle (t.blocksAmounts ++ t.txpoolAmounts) g'.cache.height
      (deepestUpdate g' t) invoice) ∧
    (StatusRight invoice ∨
        Scanner.settle (t.blocksAmounts ++ t.txpoolAmounts) g'.cache.height
          (deepestUpdate g' t) invoice ≠ invoice →
      StatusRight (Scanner.settle (t.blocksAmounts ++ t.txpoolAmounts) g'.cache.height
        (deepestUpdate g' t) invoice)) := by
  obtain ⟨hsorted', hbelow⟩ := h.updated_sorted hn hc hv hpool hsorted hapart
  have hperm := Scanner.settle_transfers_perm (t.blocksAmounts ++ t.txpoolAmounts) g'.cache.height
    (deepestUpdate g' t) invoice
  have hbelow' := fun x hx => hbelow x (hperm.mem_iff.mp hx)
  revert hbelow'
  unfold Scanner.settle
  obtain ⟨hnone, -⟩ | ⟨new, hsome, hnew⟩ := Scanner.updateInvoice_cases
    (t.blocksAmounts ++ t.txpoolAmounts) g'.cache.height (deepestUpdate g' t) invoice
  · rw [hnone]
    exact fun hbelow' => ⟨⟨hsorted, hbelow'⟩, fun hst => hst.resolve_right fun hne => hne rfl⟩
  · rw [hsome, Option.getD_some, hnew]
    refine fun hbelow' => ⟨⟨?_, hbelow'⟩, fun _ hsum => ?_⟩
    · rw [Invoice.recalculate_eq]
      exact hsorted'
    · rw [Invoice.recalculate_eq] at hsum
      exact Invoice.recalculate_status hsorted' hsum

end Scanned

section Step

variable {S : Backend} {g g' : Gateway} {n : ℕ} {W : Set InvoiceId}

/-- A scan keeps the transfers of every stored invoice tidy, and a status that is right so. -/
theorem Ledger.scan_tidy {env : ScanEnv} (hn : 1 ≤ n) (hl : Ledger n W g) (henv : env.Undisturbed)
    (h : g.scan S env = (.ok (), g')) {invoice : Invoice} (hmem : invoice ∈ g'.invoices) :
    ∃ old ∈ g.invoices, old.SameTerms invoice ∧ invoice.currentHeight = g'.cache.height + 1 ∧
      (SortedByHeight old.transfers → Tidy g'.cache.height invoice ∧
        (StatusRight old ∨ invoice ≠ old → StatusRight invoice)) := by
  obtain ⟨t, hs⟩ := scan_ok h
  obtain ⟨hpool, -⟩ := hl.inPool hs
  rw [hs.invoices_eq henv.faults] at hmem
  obtain ⟨old, hold, rfl⟩ := List.mem_map.mp hmem
  refine ⟨old, hold, Scanner.settle_sameTerms _ _ _ old, Scanner.settle_currentHeight _ _ _ old,
    fun hsorted => ?_⟩
  exact hs.settle_tidy hn henv.consistent hl.cache hpool hsorted
    (hs.apart hn henv.consistent hl.cache hpool fun hfs => hl.first hfs old hold)

/-- Every step of a failure-free run keeps the stored invoices of a set tidy. -/
theorem tidy_step (hn : 1 ≤ n) (hl : Ledger n W g) {V : Set InvoiceId}
    (ht : ∀ invoice ∈ g.invoices, invoice.id ∈ V → Tidy g.cache.height invoice)
    (h : Step S W g g') : ∀ invoice ∈ g'.invoices, invoice.id ∈ V →
      Tidy g'.cache.height invoice := by
  intro invoice hmem hid
  cases h with
  | scan henv hwatches h =>
      obtain ⟨old, hold, hterms, -, htidy⟩ := hl.scan_tidy hn henv h hmem
      exact (htidy (ht old hold (hterms.id ▸ hid)).sorted).1
  | invoices h =>
      cases h with
      | newInvoice hheight h =>
          obtain ⟨hscanner, -, hinvoices, -⟩ := newInvoice_ok h
          rw [hinvoices, List.mem_append, List.mem_singleton] at hmem
          rw [Gateway.cache, hscanner]
          rcases hmem with hmem | rfl
          · exact ht invoice hmem hid
          · exact ⟨.nil, fun x hx => absurd hx (by simp [Invoice.new])⟩
      | removeInvoice id => exact ht invoice (mem_of_mem_removeInvoice hmem) hid

theorem tidy_run (hn : 1 ≤ n) (hl : Ledger n W g) {V : Set InvoiceId}
    (ht : ∀ invoice ∈ g.invoices, invoice.id ∈ V → Tidy g.cache.height invoice)
    (h : Relation.ReflTransGen (Step S W) g g') :
    Ledger n W g' ∧ ∀ invoice ∈ g'.invoices, invoice.id ∈ V → Tidy g'.cache.height invoice := by
  induction h with
  | refl => exact ⟨hl, ht⟩
  | tail _ hstep ih => exact ⟨ih.1.step hn hstep, tidy_step hn ih.1 ih.2 hstep⟩

end Step

/-! ## The status after a scan -/

/-- **Payment status is right.** In a failure-free run of one scanner over a store without
transfers, every invoice that a scan has saved, that is, every stored invoice that was not stored
like this before, has sorted transfers and the right amount paid, paid height and confirmations,
if it requests something and the sum of its transfers is a `u64`. The scans need not watch any
invoice. -/
theorem scan_payment_status {S : Backend} {client : MonerodClient} {store : Store} {n : ℕ}
    {initialHeight : Option ℕ} {g₀ g g' : Gateway} {env : ScanEnv} (hn : 1 ≤ n)
    (hstore : ∀ invoice ∈ store.invoices, invoice.transfers = [])
    (hc : client.Consistent) (hstart : Gateway.start client store n initialHeight = .ok g₀)
    (hrun : Relation.ReflTransGen (Step S ∅) g₀ g) (henv : env.Undisturbed)
    (hscan : g.scan S env = (.ok (), g')) :
    ∀ invoice ∈ g'.invoices, invoice ∉ g.invoices → 0 < invoice.amountRequested →
      totalOf invoice.transfers < u64Size →
      SortedByHeight invoice.transfers ∧ invoice.amountPaid = totalOf invoice.transfers ∧
      (∀ b, invoice.paidHeight = some b ↔
        IsLeast {b | invoice.amountRequested ≤ paidBy invoice.transfers b} b) ∧
      (invoice.paidHeight = none ↔ ∀ b, paidBy invoice.transfers b < invoice.amountRequested) ∧
      (invoice.confirmations = none ↔ totalOf invoice.transfers < invoice.amountRequested) ∧
      (invoice.confirmations = some 0 ↔ invoice.amountRequested ≤ totalOf invoice.transfers ∧
        ∀ b, paidBy invoice.transfers b < invoice.amountRequested) ∧
      ∀ b, IsLeast {b | invoice.amountRequested ≤ paidBy invoice.transfers b} b →
        invoice.confirmations = some (g'.cache.height + 1 - b) ∧ b ≤ g'.cache.height := by
  -- Two invariants of the run: the ledger, and that transfers are sorted and not above the cache.
  have hl₀ : Ledger n ∅ g₀ := Ledger.start hn hc hstore hstart
  have ht₀ : ∀ invoice ∈ g₀.invoices, invoice.id ∈ Set.univ →
      Tidy g₀.cache.height invoice := by
    intro invoice hmem _
    have hnil := hl₀.first (start_ok hstart).choose_spec.firstScan invoice hmem
    exact ⟨by rw [hnil]; exact .nil, fun x hx => absurd hx (by simp [hnil])⟩
  obtain ⟨hl, ht⟩ := tidy_run hn hl₀ ht₀ hrun
  intro invoice hmem hsaved hreq hsum
  obtain ⟨old, hold, -, hheight, hsettled⟩ := hl.scan_tidy hn henv hscan hmem
  obtain ⟨htidy, hstatus⟩ := hsettled (ht old hold (Set.mem_univ _)).sorted
  -- It was not stored like this before, so the scan has recalculated it.
  have hstatus := hstatus (.inr fun heq => hsaved (heq ▸ hold)) hsum
  obtain ⟨hnone, hzero, hsome⟩ := hstatus.confirmations
    (fun x hx b hb => by rw [hheight]; exact Nat.lt_succ_of_le (htidy.below x hx b hb)) hreq
  refine ⟨htidy.sorted, hstatus.amountPaid, hstatus.paid hreq, hstatus.paidHeight_eq_none_iff hreq,
    hnone, hzero, fun b hb => ?_⟩
  obtain ⟨hconf, hlt⟩ := hsome b hb
  rw [hheight] at hconf hlt
  exact ⟨hconf, by omega⟩

/-- A daemon that serves an invoice over 10 piconeros two payments, the second one sufficing. -/
def payingDaemon : Daemon := ⟨[(10, []), (11, [payment 1 4]), (12, [payment 2 8])], []⟩

/-- The invoice is paid in the second payment's block and has that block's confirmation. -/
theorem scan_payment_status_paid :
    ∃ invoice ∈ ((smallStart payingDaemon smallStore).afterScan payingDaemon).invoices,
      invoice.transfers = [⟨4, some 1⟩, ⟨8, some 2⟩] ∧ invoice.confirmations = some 1 ∧
      (invoice.paidHeight = some 2 ↔
        IsLeast {b | invoice.amountRequested ≤ paidBy invoice.transfers b} 2) := by
  have hstart : Gateway.start payingDaemon.client smallStore 2 none
      = .ok (smallStart payingDaemon smallStore) := rfl
  have hscan : (smallStart payingDaemon smallStore).scan .exact (plainEnv payingDaemon)
      = (.ok (), (smallStart payingDaemon smallStore).afterScan payingDaemon) :=
    scan_eq_afterScan (by decide +kernel)
  have hfacts : ∀ invoice ∈ ((smallStart payingDaemon smallStore).afterScan payingDaemon).invoices,
      invoice ∉ (smallStart payingDaemon smallStore).invoices ∧ 0 < invoice.amountRequested ∧
      totalOf invoice.transfers < u64Size ∧
      invoice.transfers = [⟨4, some 1⟩, ⟨8, some 2⟩] ∧ invoice.confirmations = some 1 := by
    decide +kernel
  obtain ⟨invoice, hmem⟩ := List.exists_mem_of_ne_nil
    ((smallStart payingDaemon smallStore).afterScan payingDaemon).invoices (by decide +kernel)
  obtain ⟨hsaved, hreq, hsum, htransfers, hconf⟩ := hfacts invoice hmem
  obtain ⟨-, -, hpaid, -⟩ := scan_payment_status (by decide) (by decide +kernel)
    payingDaemon.client_consistent hstart .refl (plainEnv_undisturbed _) hscan invoice hmem hsaved hreq hsum
  exact ⟨invoice, hmem, htransfers, hconf, hpaid 2⟩

end Gateway

end AcceptXmr
