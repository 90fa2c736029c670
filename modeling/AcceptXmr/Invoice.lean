import Mathlib.Data.List.Perm.Basic
import Mathlib.Data.List.Count
import Mathlib.Data.Nat.Notation
import Mathlib.Logic.Function.Basic

/-! # Invoices, their ids and their transfers

The data model of `library/src/invoice.rs`. Heights and amounts (`u64` in the source) are naturals;
where the source's arithmetic can leave the range of `u64` the wrap-around of a release build is
written out (`u64Size`, `U64.sub`). Subaddress indexes keep their machine type. -/

namespace AcceptXmr

/-- The number of values of a `u64`. -/
def u64Size : ℕ := UInt64.size

/-- `a - b` on `u64`, wrapping around on underflow. -/
def U64.sub (a b : ℕ) : ℕ := if b ≤ a then a - b else u64Size + a - b

@[simp] theorem U64.sub_of_le {a b : ℕ} (h : b ≤ a) : U64.sub a b = a - b := if_pos h

/-- A subaddress index. -/
structure SubIndex where
  /-- Subaddress major index. -/
  major : UInt32
  /-- Subaddress minor index. -/
  minor : UInt32
  deriving DecidableEq, Repr

/-- `Ord for SubIndex`: by major index, then by minor index. -/
def SubIndex.cmp (self other : SubIndex) : Ordering :=
  match compare self.major other.major with
  | .eq => compare self.minor other.minor
  | .gt => .gt
  | .lt => .lt

/-- An invoice ID identifies an invoice by its subaddress index and creation height. -/
structure InvoiceId where
  /-- The subaddress index of the invoice. -/
  subIndex : SubIndex
  /-- The creation height of the invoice. -/
  creationHeight : ℕ
  deriving DecidableEq, Repr

/-- `Ord for InvoiceId`: by sub index, then by creation height. -/
def InvoiceId.cmp (self other : InvoiceId) : Ordering :=
  match self.subIndex.cmp other.subIndex with
  | .eq => compare self.creationHeight other.creationHeight
  | .gt => .gt
  | .lt => .lt

/-- A transfer: an owned amount at a given height, or in the txpool. -/
structure Transfer where
  /-- Amount transferred in piconeros. -/
  amount : ℕ
  /-- Block height of the transfer, or `none` if the outputs are in the txpool. -/
  height : Option ℕ
  deriving DecidableEq, Repr

/-- Compare two transfers by height. Newer is greater, the txpool is newest. -/
def Transfer.cmpByHeight (self other : Transfer) : Ordering :=
  match self.height with
  | some height =>
      match other.height with
      -- Both in blocks.
      | some otherHeight => compare height otherHeight
      | none => .lt
  | none =>
      match other.height with
      -- In the pool: behind all that are in blocks.
      | some _ => .gt
      | none => .eq

/-- A transfer is older than height `d` exactly if it is in a block below `d`. -/
theorem Transfer.cmpByHeight_isLT {t : Transfer} {a d : ℕ} :
    (t.cmpByHeight ⟨a, some d⟩).isLT = true ↔ ∃ b, t.height = some b ∧ b < d := by
  cases h : t.height with
  | none => simp [cmpByHeight, h]
  | some b => simp [cmpByHeight, h, Ordering.isLT_iff_eq_lt, Nat.compare_eq_lt]

/-- A transfer is newer than height `c` exactly if it is in the txpool or in a block above `c`. -/
theorem Transfer.cmpByHeight_isGT {t : Transfer} {a c : ℕ} :
    (t.cmpByHeight ⟨a, some c⟩).isGT = true ↔ ∀ b, t.height = some b → c < b := by
  cases h : t.height with
  | none => simp [cmpByHeight, h]
  | some b => simp [cmpByHeight, h, Ordering.isGT_iff_eq_gt, Nat.compare_eq_gt]

/-- Representation of an invoice. -/
structure Invoice where
  address : String
  index : SubIndex
  creationHeight : ℕ
  amountRequested : ℕ
  amountPaid : ℕ
  /-- The height at which the invoice was fully paid; `none` if it is not, or if the required
  amount is still in the txpool. -/
  paidHeight : Option ℕ
  confirmationsRequired : ℕ
  currentHeight : ℕ
  expirationHeight : ℕ
  transfers : List Transfer
  description : String
  deriving DecidableEq, Repr

namespace Invoice

/-- A new invoice, not yet seen by the scanner. -/
def new (address : String) (index : SubIndex) (creationHeight amountRequested
    confirmationsRequired expirationIn : ℕ) (description : String) : Invoice where
  address := address
  index := index
  creationHeight := creationHeight
  amountRequested := amountRequested
  -- Zero until the first scan, like `currentHeight`.
  amountPaid := 0
  paidHeight := none
  confirmationsRequired := confirmationsRequired
  currentHeight := 0
  expirationHeight := (creationHeight + expirationIn) % u64Size
  transfers := []
  description := description

/-- The ID of this invoice. -/
def id (self : Invoice) : InvoiceId := ⟨self.index, self.creationHeight⟩

/-- The number of confirmations since the invoice was paid in full, `none` if it is not. -/
def confirmations (self : Invoice) : Option ℕ :=
  if self.amountPaid ≥ self.amountRequested then
    match self.paidHeight with
    | none => some 0
    | some paidAt => some (self.currentHeight - paidAt)
  else none

/-- Whether the invoice has received the required number of confirmations. -/
def isConfirmed (self : Invoice) : Bool :=
  match self.confirmations with
  | none => false
  | some confirmations => decide (confirmations ≥ self.confirmationsRequired)

/-- Whether the invoice has been paid in full, confirmed or not. -/
def isPaid (self : Invoice) : Bool := decide (self.amountPaid ≥ self.amountRequested)

/-- Whether the current block is at or past the expiration block. -/
def isExpired (self : Invoice) : Bool := decide (self.currentHeight ≥ self.expirationHeight)

/-! ## Equality up to the order of transfers -/

/-- How often each transfer occurs in a list, counted as the source's hash maps do. -/
def transferCounts (transfers : List Transfer) : Transfer → ℕ :=
  transfers.foldl (fun counts t => Function.update counts t (counts t + 1)) fun _ => 0

/-- `PartialEq for Invoice`: the order of transfers is ignored. -/
def eq (self other : Invoice) : Bool :=
  -- Transfers are compared by how often each occurs.
  (self.transfers ++ other.transfers).all
      (fun t => transferCounts self.transfers t == transferCounts other.transfers t)
    && self.address == other.address
    && self.index == other.index
    && self.creationHeight == other.creationHeight
    && self.amountRequested == other.amountRequested
    && self.amountPaid == other.amountPaid
    && self.paidHeight == other.paidHeight
    && self.confirmationsRequired == other.confirmationsRequired
    && self.currentHeight == other.currentHeight
    && self.expirationHeight == other.expirationHeight
    && self.description == other.description

/-- The counting loop counts. -/
theorem transferCounts_eq_count (transfers : List Transfer) (t : Transfer) :
    transferCounts transfers t = transfers.count t := by
  have hfold : ∀ (ts : List Transfer) (m : Transfer → ℕ),
      ts.foldl (fun counts t => Function.update counts t (counts t + 1)) m t
        = m t + ts.count t := by
    intro ts
    induction ts with
    | nil => intro m; rfl
    | cons u ts ih =>
        intro m
        rw [List.foldl_cons, ih, List.count_cons]
        by_cases h : u = t
        · subst h; simp; omega
        · simp [Function.update_of_ne (Ne.symm h), h]
  rw [transferCounts, hfold]
  exact Nat.zero_add _

/-- **Equal invoices differ in the order of their transfers only.** -/
theorem eq_iff {self other : Invoice} :
    self.eq other = true ↔
      self.transfers.Perm other.transfers ∧ self = { other with transfers := self.transfers } := by
  have hcount : (self.transfers ++ other.transfers).all
      (fun t => transferCounts self.transfers t == transferCounts other.transfers t) = true
        ↔ self.transfers.Perm other.transfers := by
    simp only [List.all_eq_true, transferCounts_eq_count, beq_iff_eq, List.perm_iff_count]
    refine ⟨fun h t => ?_, fun h t _ => h t⟩
    by_cases ht : t ∈ self.transfers ++ other.transfers
    · exact h t ht
    · rw [List.mem_append, not_or] at ht
      rw [List.count_eq_zero_of_not_mem ht.1, List.count_eq_zero_of_not_mem ht.2]
  obtain ⟨a, b, c, d, e, f, g, h, i, j, k⟩ := self
  simp only [eq, Bool.and_eq_true, hcount, beq_iff_eq, Invoice.mk.injEq]
  tauto

end Invoice

end AcceptXmr
