import AcceptXmr.Invoice
import AcceptXmr.Library.Counting

/-! # Equality of invoices

`PartialEq for Invoice` as the source computes it: the transfers of each side are counted in a hash
map whose counters are `i32`, the type of an integer literal, and the maps are compared. Two invoices
whose counters cannot overflow are equal exactly if their transfers are the same as multisets.

* **`partialEq_multiset`** — what equality of invoices says.
* **`partialEq_eq`** — the scanner's test for changes is this equality. -/

namespace AcceptXmr

namespace Invoice

/-- `PartialEq for Invoice`. -/
def partialEq (self other : Invoice) : Bool :=
  let lhsTransfers := AssocMap.counts self.transfers
  let rhsTransfers := AssocMap.counts other.transfers
  AssocMap.mapEq lhsTransfers rhsTransfers
    && self.address == other.address
    && self.index == other.index
    && self.creationHeight == other.creationHeight
    && self.amountRequested == other.amountRequested
    && self.amountPaid == other.amountPaid
    && self.paidHeight == other.paidHeight
    && self.confirmationsRequired == other.confirmationsRequired
    && self.currentHeight == other.currentHeight
    && self.expirationHeight == other.expirationHeight
    && self.description == other.description

/-- An invoice whose transfers can be counted: there are fewer than `i32` has positive values. -/
structure Counted where
  invoice : Invoice
  few : invoice.transfers.length < Int32.size / 2

/-- Invoices that differ in the order of their transfers only. -/
def Rearranged (self other : Invoice) : Prop :=
  other.transfers.Perm self.transfers ∧ self = { other with transfers := self.transfers }

/-- The comparison of two invoices is that of their transfers and of each other field. -/
theorem partialEq_iff (self other : Counted) :
    self.invoice.partialEq other.invoice = true ↔ Rearranged self.invoice other.invoice := by
  have hcounts : AssocMap.mapEq (AssocMap.counts self.invoice.transfers)
      (AssocMap.counts other.invoice.transfers) = true
        ↔ other.invoice.transfers.Perm self.invoice.transfers := by
    rw [AssocMap.mapEq_counts_iff self.few other.few]
    exact List.perm_comm
  generalize self.invoice = invoice at hcounts ⊢
  obtain ⟨a, b, c, d, e, f, g, h, i, j, k⟩ := invoice
  simp only [partialEq, Rearranged, Bool.and_eq_true, hcounts, beq_iff_eq, Invoice.mk.injEq]
  tauto

/-- **The test for changes** of the scanner is this comparison, as long as transfers can be
counted. -/
theorem partialEq_eq (self other : Counted) :
    self.invoice.partialEq other.invoice = self.invoice.eq other.invoice := by
  rw [Bool.eq_iff_iff, partialEq_iff, eq_iff, Rearranged, List.perm_comm]

/-- An invoice differs from itself in nothing. -/
theorem Rearranged.refl (a : Invoice) : Rearranged a a := ⟨.refl _, rfl⟩

/-- Rearranging can be undone. -/
theorem Rearranged.symm {a b : Invoice} (h : Rearranged a b) : Rearranged b a := by
  refine ⟨h.1.symm, ?_⟩
  rw [h.2]

/-- Rearranging twice is rearranging. -/
theorem Rearranged.trans {a b c : Invoice} (hab : Rearranged a b) (hbc : Rearranged b c) :
    Rearranged a c := by
  refine ⟨hbc.1.trans hab.1, ?_⟩
  rw [hab.2, hbc.2]

/-- **Equality is equality of multisets.** Invoices with fewer than `2 ^ 31` transfers are equal
exactly if the transfers of one are a permutation of the other's and all other fields are the same.
This is an equivalence, and one copy of a transfer more or less makes invoices unequal. -/
theorem partialEq_multiset :
    (∀ a b : Counted, a.invoice.partialEq b.invoice = true ↔
      b.invoice.transfers.Perm a.invoice.transfers ∧
        a.invoice = { b.invoice with transfers := a.invoice.transfers }) ∧
    Equivalence (fun a b : Counted => a.invoice.partialEq b.invoice = true) ∧
    ∀ (a b : Counted) (t : Transfer), a.invoice.transfers.Perm (t :: b.invoice.transfers) →
      a.invoice.partialEq b.invoice = false ∧ b.invoice.partialEq a.invoice = false := by
  refine ⟨partialEq_iff, ⟨fun a => ?_, fun {a b} h => ?_, fun {a b c} hab hbc => ?_⟩,
    fun a b t hmore => ?_⟩
  · exact (partialEq_iff a a).mpr (.refl _)
  · exact (partialEq_iff b a).mpr ((partialEq_iff a b).mp h).symm
  · exact (partialEq_iff a c).mpr (((partialEq_iff a b).mp hab).trans ((partialEq_iff b c).mp hbc))
  · -- Equal invoices have the same number of transfers.
    have hlength := hmore.length_eq
    rw [List.length_cons] at hlength
    constructor
    · refine Bool.eq_false_iff.mpr fun h => ?_
      have := ((partialEq_iff a b).mp h).1.length_eq
      omega
    · refine Bool.eq_false_iff.mpr fun h => ?_
      have := ((partialEq_iff b a).mp h).1.length_eq
      omega

/-- An invoice with some transfers. -/
def withTransfers (transfers : List Transfer) : Invoice :=
  { Invoice.new "" ⟨0, 1⟩ 1 20 2 10 "" with transfers := transfers }

/-- Two transfers of the same amount in one block: their place among the others does not matter, and
that there are two of them does. -/
theorem partialEq_multiset_repeated :
    ∃ twice behind once : Counted,
      twice.invoice = withTransfers [⟨5, some 1⟩, ⟨5, some 1⟩, ⟨7, none⟩] ∧
      behind.invoice = withTransfers [⟨7, none⟩, ⟨5, some 1⟩, ⟨5, some 1⟩] ∧
      once.invoice = withTransfers [⟨5, some 1⟩, ⟨7, none⟩] ∧
      twice.invoice.partialEq behind.invoice = true ∧
      twice.invoice.partialEq once.invoice = false ∧
      once.invoice.partialEq twice.invoice = false := by
  let twice : Counted := ⟨withTransfers [⟨5, some 1⟩, ⟨5, some 1⟩, ⟨7, none⟩], by decide⟩
  let behind : Counted := ⟨withTransfers [⟨7, none⟩, ⟨5, some 1⟩, ⟨5, some 1⟩], by decide⟩
  let once : Counted := ⟨withTransfers [⟨5, some 1⟩, ⟨7, none⟩], by decide⟩
  obtain ⟨hiff, -, hmore⟩ := partialEq_multiset
  have hperm : behind.invoice.transfers.Perm twice.invoice.transfers := by decide
  have hcopy : twice.invoice.transfers.Perm (⟨5, some 1⟩ :: once.invoice.transfers) := .refl _
  exact ⟨twice, behind, once, rfl, rfl, rfl, (hiff twice behind).mpr ⟨hperm, rfl⟩,
    hmore twice once ⟨5, some 1⟩ hcopy⟩

end Invoice

end AcceptXmr
