import AcceptXmr.Invoice
import AcceptXmr.Library.Binary64
import AcceptXmr.Library.Decimal

/-! # Amounts in XMR

`Invoice::uri`, `xmr_requested` and `xmr_paid` of `library/src/invoice.rs`. Amounts are kept in
piconeros. What a wallet and a user see is divided in floating point, and the URI has its digits
from the text of a quotient.

* **`uri_asks_for_due`** — the URI asks for what is still due, to the piconero.
* **`xmr_compares`** — amounts in XMR compare as those in piconeros. -/

namespace AcceptXmr

open Binary64 Decimal

/-- `PICONEROS_PER_XMR`. -/
def piconerosPerXmr : ℕ := 1000000000000

/-- What an amount has behind the whole XMR: two conversions to `f64` and a division. -/
def fractionalXmr (piconeros : ℕ) : ℚ :=
  nearest (nearest (piconeros % piconerosPerXmr : ℕ) / nearest piconerosPerXmr)

/-- An amount in XMR. -/
def xmr (piconeros : ℕ) : ℚ :=
  nearest (nearest (piconeros / piconerosPerXmr : ℕ) + fractionalXmr piconeros)

/-- `f64::to_string`, of a number that is not negative. -/
def f64ToString (f : ℚ) : Text := Decimal.text (shortest f)

namespace Invoice

/-- What is still to be paid. -/
def piconerosDue (self : Invoice) : ℕ := self.amountRequested - self.amountPaid

/-- `uri`. -/
def uri (self : Invoice) : Text :=
  "monero:".toList ++ self.address.toList ++ "?tx_amount=".toList ++
    natText (self.piconerosDue / piconerosPerXmr) ++ '.' ::
      Text.trimStartMatchesText (f64ToString (fractionalXmr self.piconerosDue)) "0.".toList

/-- `xmr_requested`. -/
def xmrRequested (self : Invoice) : ℚ := xmr self.amountRequested

/-- `xmr_paid`. -/
def xmrPaid (self : Invoice) : ℚ := xmr self.amountPaid

end Invoice

/-! ## The digits of the URI -/

/-- Less than one XMR is left over. -/
theorem mod_lt (piconeros : ℕ) : piconeros % piconerosPerXmr < piconerosPerXmr :=
  Nat.mod_lt _ (by decide)

/-- Only the quotient is rounded. -/
theorem fractionalXmr_eq (piconeros : ℕ) :
    fractionalXmr piconeros = nearest ((piconeros % piconerosPerXmr : ℕ) / 10 ^ 12) := by
  have hlt := mod_lt piconeros
  rw [fractionalXmr, nearest_natCast (lt_trans hlt (by decide)), nearest_natCast (by decide)]
  norm_num [piconerosPerXmr]

/-- **The digits behind the point**: what is left of the text without its zero and its point. -/
theorem fraction_text (piconeros : ℕ) :
    ∃ fraction, Text.trimStartMatchesText (f64ToString (fractionalXmr piconeros)) "0.".toList
        = fraction ∧ isNumber fraction = true ∧ fraction.length ≤ 12 ∧
      (number fraction : ℚ) / 10 ^ fraction.length
        = (piconeros % piconerosPerXmr : ℕ) / 10 ^ 12 := by
  have hlt := mod_lt piconeros
  have hshort : shortest (fractionalXmr piconeros) = (piconeros % piconerosPerXmr : ℕ) / 10 ^ 12 := by
    rw [fractionalXmr_eq]
    exact shortest_nearest (lt_trans hlt (by decide))
  rw [f64ToString, hshort]
  rcases text_div (s := 12) (by decide) (hlt.trans_le (by decide)) with
    ⟨hzero, htext⟩ | ⟨fraction, htext, hdigits, hlen, hvalue⟩
  · -- A zero has no point and stays.
    rw [htext, hzero]
    have hnumber : number ['0'] = 0 := rfl
    exact ⟨['0'], by decide, by decide, by decide, by simp [hnumber]⟩
  · rw [htext]
    exact ⟨fraction, Text.trimStartMatchesText_append (c := '.') (by decide) (point_notMem hdigits),
      hdigits, hlen, hvalue⟩

/-- **The URI asks for exactly what is due.** Behind the address and `?tx_amount=` stands a decimal
of at most 12 digits after the point, and its value is the amount requested less the amount paid, in
XMR. -/
theorem uri_asks_for_due (self : Invoice) :
    ∃ whole fraction, self.uri = "monero:".toList ++ self.address.toList ++ "?tx_amount=".toList ++
        (whole ++ '.' :: fraction) ∧ fraction.length ≤ 12 ∧
      Decimal.value (whole ++ '.' :: fraction) =
        some (((self.amountRequested - self.amountPaid : ℕ) : ℚ) / piconerosPerXmr) := by
  obtain ⟨fraction, htext, hdigits, hlen, hvalue⟩ := fraction_text self.piconerosDue
  have huri : self.uri = "monero:".toList ++ self.address.toList ++ "?tx_amount=".toList ++
      (natText (self.piconerosDue / piconerosPerXmr) ++ '.' :: fraction) := by
    unfold Invoice.uri
    rw [htext, List.append_assoc]
  refine ⟨_, fraction, huri, hlen, ?_⟩
  have hsplit := Nat.div_add_mod self.piconerosDue piconerosPerXmr
  rw [value_point (isNumber_natText _) hdigits, number_natText, hvalue]
  rw [Invoice.piconerosDue] at hsplit ⊢
  generalize self.amountRequested - self.amountPaid = due at hsplit ⊢
  have hcast : (due : ℚ) =
      piconerosPerXmr * (due / piconerosPerXmr : ℕ) + (due % piconerosPerXmr : ℕ) := by
    exact_mod_cast hsplit.symm
  rw [hcast]
  norm_num [piconerosPerXmr]
  ring

example : (Invoice.new "a" ⟨0, 1⟩ 1 18446744073709551615 5 10 "").uri =
    "monero:a?tx_amount=18446744.073709551615".toList := by decide +kernel

/-! ## Amounts in XMR -/

/-- It is a fraction between zero and one. -/
theorem fractionalXmr_mem (piconeros : ℕ) :
    0 ≤ fractionalXmr piconeros ∧ fractionalXmr piconeros ≤ 1 := by
  have hone : nearest 1 = 1 := by exact_mod_cast nearest_natCast (n := 1) (by decide)
  rw [fractionalXmr_eq]
  refine ⟨?_, ?_⟩
  · rw [← nearest_zero]
    exact nearest_mono (le_refl 0) (by positivity)
  · rw [← hone]
    refine nearest_mono (by positivity) ?_
    rw [div_le_one (by positivity)]
    exact_mod_cast (mod_lt piconeros).le

/-- The whole XMR of a 64-bit amount are exact. -/
theorem nearest_whole {piconeros : ℕ} (h : piconeros < u64Size) :
    nearest (piconeros / piconerosPerXmr : ℕ) = (piconeros / piconerosPerXmr : ℕ) := by
  refine nearest_natCast (lt_of_le_of_lt (Nat.div_le_div_right h.le) ?_)
  decide

/-- **No paid invoice looks unpaid**: amounts keep their order. -/
theorem xmr_mono {a b : ℕ} (h : a ≤ b) (hb : b < u64Size) : xmr a ≤ xmr b := by
  obtain ⟨ha0, ha1⟩ := fractionalXmr_mem a
  obtain ⟨hb0, -⟩ := fractionalXmr_mem b
  rw [xmr, xmr, nearest_whole hb, nearest_whole (h.trans_lt hb)]
  refine nearest_mono (by positivity) ?_
  rcases (Nat.div_le_div_right (c := piconerosPerXmr) h).eq_or_lt with heq | hlt
  · -- Of as many whole XMR, the fractions are compared.
    have hmod : a % piconerosPerXmr ≤ b % piconerosPerXmr := by
      have hsplit := Nat.div_add_mod a piconerosPerXmr
      have hsplit' := Nat.div_add_mod b piconerosPerXmr
      rw [heq] at hsplit
      omega
    have hfraction : fractionalXmr a ≤ fractionalXmr b := by
      rw [fractionalXmr_eq, fractionalXmr_eq]
      refine nearest_mono (by positivity) (div_le_div_of_nonneg_right ?_ (by positivity))
      exact_mod_cast hmod
    rw [heq]
    linarith
  · have hstep : ((a / piconerosPerXmr : ℕ) : ℚ) + 1 ≤ (b / piconerosPerXmr : ℕ) := by
      exact_mod_cast hlt
    linarith

/-- **Less than half a piconero is lost** below 8192 XMR. -/
theorem abs_xmr_sub_lt {piconeros : ℕ} (h : piconeros < 8192 * piconerosPerXmr) :
    |xmr piconeros - (piconeros : ℚ) / piconerosPerXmr| < 1 / (2 * piconerosPerXmr) := by
  obtain ⟨hf0, hf1⟩ := fractionalXmr_mem piconeros
  have hwhole := nearest_whole (h.trans (by decide) : piconeros < u64Size)
  have hbelow : piconeros / piconerosPerXmr ≤ 8191 := by
    have := Nat.div_lt_of_lt_mul (Nat.mul_comm 8192 _ ▸ h)
    omega
  have hcast : (piconeros : ℚ) / piconerosPerXmr =
      (piconeros / piconerosPerXmr : ℕ) + (piconeros % piconerosPerXmr : ℕ) / 10 ^ 12 := by
    have hsplit : (piconeros : ℚ) = piconerosPerXmr * (piconeros / piconerosPerXmr : ℕ) +
        (piconeros % piconerosPerXmr : ℕ) := by
      exact_mod_cast (Nat.div_add_mod piconeros piconerosPerXmr).symm
    conv_lhs => rw [hsplit]
    norm_num [piconerosPerXmr]
    ring
  have hmod : ((piconeros % piconerosPerXmr : ℕ) : ℚ) / 10 ^ 12 < 1 := by
    rw [div_lt_one (by positivity)]
    exact_mod_cast mod_lt piconeros
  have hfraction : |fractionalXmr piconeros - (piconeros % piconerosPerXmr : ℕ) / 10 ^ 12| ≤
      1 / 18014398509481984 := by
    rw [fractionalXmr_eq]
    exact abs_nearest_sub_le_of_lt (n := 0) (by positivity) (by simpa using hmod) (by norm_num)
  have hsum : |xmr piconeros - ((piconeros / piconerosPerXmr : ℕ) + fractionalXmr piconeros)| ≤
      1 / 2199023255552 := by
    have hwholeq : ((piconeros / piconerosPerXmr : ℕ) : ℚ) ≤ 8191 := by exact_mod_cast hbelow
    rw [xmr, hwhole]
    rcases (show ((piconeros / piconerosPerXmr : ℕ) : ℚ) + fractionalXmr piconeros ≤ 8192 by
      linarith).eq_or_lt with heq | hlt
    · have hexact : nearest 8192 = 8192 := by
        exact_mod_cast nearest_natCast (n := 8192) (by decide)
      rw [heq, hexact]
      norm_num
    · exact abs_nearest_sub_le_of_lt (n := 13) (by positivity) (by norm_num; exact hlt) (by norm_num)
  rw [hcast]
  rw [abs_le] at hfraction hsum
  have hsmall : (1 : ℚ) / (2 * piconerosPerXmr) = 1 / 2000000000000 := by norm_num [piconerosPerXmr]
  rw [hsmall, abs_lt]
  constructor <;> linarith

/-- **Amounts in XMR compare as those in piconeros**: an invoice that is paid never shows less paid
than requested, and below 8192 XMR no other invoice shows as much; there the nearest piconero is the
amount itself. -/
theorem xmr_compares (self : Invoice) (hpaid : self.amountPaid < u64Size) :
    (self.isPaid = true → self.xmrRequested ≤ self.xmrPaid) ∧
    (self.amountRequested < 8192 * piconerosPerXmr → self.amountPaid < 8192 * piconerosPerXmr →
      (self.isPaid = true ↔ self.xmrRequested ≤ self.xmrPaid) ∧
      nearestInt (self.xmrPaid * piconerosPerXmr) = self.amountPaid) := by
  have hmono : self.isPaid = true → self.xmrRequested ≤ self.xmrPaid := fun h =>
    xmr_mono (of_decide_eq_true h) hpaid
  refine ⟨hmono, fun hrequested hsmall => ⟨⟨hmono, fun hle => ?_⟩, ?_⟩⟩
  · -- A piconero less would be seen.
    rw [Invoice.isPaid, decide_eq_true_eq]
    by_contra hlt
    have hrequested' := (abs_lt.mp (abs_xmr_sub_lt hrequested)).1
    have hpaid' := (abs_lt.mp (abs_xmr_sub_lt hsmall)).2
    have hstep : (self.amountPaid : ℚ) / piconerosPerXmr + 1 / piconerosPerXmr ≤
        self.amountRequested / piconerosPerXmr := by
      rw [← add_div]
      refine div_le_div_of_nonneg_right ?_ (by positivity)
      exact_mod_cast Nat.lt_of_not_le hlt
    have hhalf : (1 : ℚ) / (2 * piconerosPerXmr) + 1 / (2 * piconerosPerXmr) = 1 / piconerosPerXmr := by
      norm_num [piconerosPerXmr]
    rw [Invoice.xmrRequested, Invoice.xmrPaid] at hle
    linarith
  · have hclose := abs_xmr_sub_lt hsmall
    have hpos : (0 : ℚ) < piconerosPerXmr := by norm_num [piconerosPerXmr]
    refine nearestInt_of_abs_sub_lt ?_
    have hscaled : self.xmrPaid * piconerosPerXmr - self.amountPaid =
        (xmr self.amountPaid - self.amountPaid / piconerosPerXmr) * piconerosPerXmr := by
      rw [sub_mul, div_mul_cancel₀ _ hpos.ne']
      rfl
    rw [Int.cast_natCast, hscaled, abs_mul, abs_of_pos hpos]
    calc |xmr self.amountPaid - (self.amountPaid : ℚ) / piconerosPerXmr| * piconerosPerXmr
        < 1 / (2 * piconerosPerXmr) * piconerosPerXmr := mul_lt_mul_of_pos_right hclose hpos
      _ = 1 / 2 := by field_simp

/-- An invoice over 1.000000000001 XMR, which has all been paid. -/
def exactlyPaid : Invoice :=
  { Invoice.new "" ⟨0, 1⟩ 1 1000000000001 1 10 "" with amountPaid := 1000000000001 }

/-- An invoice that is paid to the piconero. -/
theorem xmr_compares_paid :
    (exactlyPaid.isPaid = true ↔ exactlyPaid.xmrRequested ≤ exactlyPaid.xmrPaid) ∧
      nearestInt (exactlyPaid.xmrPaid * piconerosPerXmr) = 1000000000001 :=
  (xmr_compares exactlyPaid (by decide)).2 (by decide) (by decide)

example : f64ToString (xmr 18446744073709551615) = "18446744.07370955".toList := by decide +kernel

end AcceptXmr
