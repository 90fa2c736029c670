import AcceptXmr.Server.Watch

/-! # When invoices expire

The expiration height is `creation_height + expiration_in`, added up once when the invoice is created,
in `u64` arithmetic that wraps around in a release build. It is read by `is_expired`, by
`expiration_in` and by the server's rule for removing invoices.

* **`expiry_exact_iff`** — the three readers are right exactly if the sum has not wrapped around. -/

namespace AcceptXmr

/-- `expiration_in`: the number of blocks before expiration. -/
def Invoice.expirationIn (self : Invoice) : ℕ :=
  let height := max self.creationHeight self.currentHeight
  self.expirationHeight - height

/-- **Expiry as it should be** for an invoice created at a height and expiring a number of blocks
later, at some later point of its life. -/
structure ExpiresAt (creationHeight expirationIn : ℕ) (later : Invoice) : Prop where
  expired : later.isExpired = true ↔ creationHeight + expirationIn ≤ later.currentHeight
  left : later.expirationIn
    = creationHeight + expirationIn - max creationHeight later.currentHeight
  /-- What the watch loop removes is past its expiration height. -/
  removed : later.isOver = true → creationHeight + expirationIn ≤ later.currentHeight

section Expiry

variable {address description : String} {index : SubIndex}
  {creationHeight amountRequested confirmationsRequired expirationIn : ℕ}

/-- Scans leave the expiration height alone. -/
theorem expirationHeight_of_keeps {later : Invoice}
    (hlater : (Invoice.new address index creationHeight amountRequested confirmationsRequired
      expirationIn description).Keeps later) :
    later.expirationHeight = (creationHeight + expirationIn) % u64Size :=
  hlater.expirationHeight

/-- **Expiry is exact** exactly if the expiration height is a `u64`. -/
theorem expiry_exact_iff (hcreation : creationHeight < u64Size)
    (hexpiration : expirationIn < u64Size) {later : Invoice}
    (hlater : (Invoice.new address index creationHeight amountRequested confirmationsRequired
      expirationIn description).Keeps later)
    (hheight : later.currentHeight < u64Size) :
    ExpiresAt creationHeight expirationIn later ↔ creationHeight + expirationIn < u64Size := by
  have hstored := expirationHeight_of_keeps hlater
  have hcreated : later.creationHeight = creationHeight := hlater.creationHeight
  constructor
  · -- A sum that wraps around ends below the creation height, and no block seems to be left.
    rintro ⟨-, hleft, -⟩
    by_contra hwrap
    have hmod : (creationHeight + expirationIn) % u64Size
        = creationHeight + expirationIn - u64Size := by
      rw [Nat.mod_eq_sub_mod (Nat.le_of_not_lt hwrap), Nat.mod_eq_of_lt (by omega)]
    simp only [Invoice.expirationIn, hstored, hcreated, hmod] at hleft
    omega
  · intro hfits
    rw [Nat.mod_eq_of_lt hfits] at hstored
    have hexpired : later.isExpired = true ↔ creationHeight + expirationIn ≤ later.currentHeight := by
      rw [Invoice.isExpired, hstored, decide_eq_true_iff]
    refine ⟨hexpired, ?_, fun hover => ?_⟩
    · rw [Invoice.expirationIn, hstored, hcreated]
    · rw [Invoice.isOver, Bool.and_eq_true] at hover
      exact hexpired.mp hover.1

end Expiry

/-- An invoice that is to expire after `expirationIn` blocks, after the scan of height 2477657. -/
def scannedOnce (expirationIn : ℕ) : Invoice :=
  { Invoice.new "address" ⟨0, 1⟩ 2477657 1000 5 expirationIn "order" with currentHeight := 2477658 }

/-- An invoice with 20 blocks to go. -/
theorem expiry_exact_iff_twenty :
    ExpiresAt 2477657 20 (scannedOnce 20) ↔ 2477657 + 20 < u64Size :=
  expiry_exact_iff (by decide) (by decide)
    ⟨⟨rfl, rfl, rfl, rfl, rfl⟩, rfl, rfl⟩ (by decide)

/-- **A sum that wraps around.** With the greatest `u64` of blocks to go, an invoice is expired after
its first scan and removed by the watch loop. -/
theorem fresh_invoice_expired :
    ¬ ExpiresAt 2477657 (u64Size - 1) (scannedOnce (u64Size - 1)) ∧
      (scannedOnce (u64Size - 1)).isExpired = true ∧ (scannedOnce (u64Size - 1)).isOver = true ∧
      (scannedOnce (u64Size - 1)).expirationIn = 0 := by
  refine ⟨fun h => ?_, by decide, by decide, by decide⟩
  have hexpired := h.expired.mp (by decide)
  exact absurd hexpired (by decide)

end AcceptXmr
