import AcceptXmr.Library.Text
import Mathlib.Data.Rat.Floor
import Mathlib.Tactic.FieldSimp
import Mathlib.Tactic.Linarith
import Mathlib.Tactic.Positivity

/-! # Decimals as texts

A number that is not negative is written without an exponent, with as many digits after the point as
it has, and without a point if it has none.

* **`value_point`** — reading what stands before and after a point.
* **`text_div`** — how a decimal below one is written. -/

namespace AcceptXmr

namespace Decimal

/-- A natural number. -/
def natText (n : ℕ) : Text := Nat.toDigits 10 n

/-- How many digits after the point a number has, up to 400. -/
def places (v : ℚ) : ℕ := ((List.range 400).find? fun m => decide ((v * 10 ^ m).den = 1)).getD 0

/-- A number that is not negative and has finitely many digits. -/
def text (v : ℚ) : Text :=
  let digits := (v * 10 ^ places v).num.toNat
  let whole := natText (digits / 10 ^ places v)
  if places v = 0 then whole
  else whole ++ '.' :: (natText (digits % 10 ^ places v)).leftpad (places v) '0'

/-- Digits as a number. -/
def number (digits : Text) : ℕ := Nat.ofDigitChars 10 digits 0

/-- Whether a text is a number. -/
def isNumber (digits : Text) : Bool := !digits.isEmpty && digits.all Char.isDigit

/-- **The value of a decimal**, none for any other text. -/
def value (text : Text) : Option ℚ :=
  let whole := text.takeWhile (· ≠ '.')
  match text.dropWhile (· ≠ '.') with
  | [] => if isNumber whole then some (number whole) else none
  | _ :: fraction =>
      if isNumber whole && isNumber fraction then
        some ((number whole : ℚ) + number fraction / 10 ^ fraction.length)
      else none

/-! ## Numbers -/

/-- The decimal digits of a number are digits. -/
theorem isNumber_natText (n : ℕ) : isNumber (natText n) = true := by
  rw [isNumber, Bool.and_eq_true, List.all_eq_true]
  refine ⟨?_, fun c hc => Nat.isDigit_of_mem_toDigits (by decide) (by decide) hc⟩
  cases hdigits : natText n with
  | nil => exact absurd hdigits Nat.toDigits_ne_nil
  | cons c rest => rfl

/-- They are read back as the number. -/
theorem number_natText (n : ℕ) : number (natText n) = n := Nat.ofDigitChars_ten_toDigits

/-- Zeros in front of them do not count. -/
theorem number_leftpad (m n : ℕ) : number ((natText n).leftpad m '0') = n := by
  rw [List.leftpad, number, Nat.ofDigitChars_append, Nat.ofDigitChars_replicate_zero, mul_zero]
  exact number_natText n

/-- Filled up with zeros, the digits of a number below `10 ^ m` take exactly `m` places. -/
theorem length_leftpad {m n : ℕ} (hm : 0 < m) (h : n < 10 ^ m) :
    ((natText n).leftpad m '0').length = m := by
  have hlen : (natText n).length ≤ m := (Nat.length_toDigits_le_iff (by decide) hm).mpr h
  rw [List.length_leftpad]
  omega

/-- The zeros in front are digits as well. -/
theorem isNumber_leftpad (m n : ℕ) : isNumber ((natText n).leftpad m '0') = true := by
  have hdigits := isNumber_natText n
  rw [isNumber, Bool.and_eq_true] at hdigits
  rw [List.leftpad, isNumber, Bool.and_eq_true, List.all_append, Bool.and_eq_true]
  refine ⟨?_, ?_, hdigits.2⟩
  · cases hzeros : List.replicate (m - (natText n).length) '0' with
    | nil => exact hdigits.1
    | cons c rest => rfl
  · rw [List.all_eq_true]
    intro c hc
    rw [List.eq_of_mem_replicate hc]
    rfl

/-- There is no point in a number. -/
theorem point_notMem {digits : Text} (h : isNumber digits = true) : '.' ∉ digits := by
  intro hmem
  rw [isNumber, Bool.and_eq_true, List.all_eq_true] at h
  exact absurd (h.2 _ hmem) (by decide)

/-! ## Decimals -/

/-- **Reading what stands before and after a point.** -/
theorem value_point {whole fraction : Text} (hwhole : isNumber whole = true)
    (hfraction : isNumber fraction = true) :
    value (whole ++ '.' :: fraction) =
      some ((number whole : ℚ) + number fraction / 10 ^ fraction.length) := by
  have hnot := point_notMem hwhole
  have hkeep : ∀ c ∈ whole, decide (c ≠ '.') = true := fun c hc =>
    decide_eq_true fun heq => hnot (heq ▸ hc)
  have htake : (whole ++ '.' :: fraction).takeWhile (fun c => decide (c ≠ '.')) = whole := by
    rw [List.takeWhile_append_of_pos hkeep]
    simp
  have hdrop : (whole ++ '.' :: fraction).dropWhile (fun c => decide (c ≠ '.')) = '.' :: fraction := by
    rw [List.dropWhile_append_of_pos hkeep]
    simp
  rw [value, htake, hdrop]
  simp [hwhole, hfraction]

/-- The places of a decimal are enough, and no fewer are. -/
theorem places_div {k s : ℕ} (hs : s < 400) :
    places ((k : ℚ) / 10 ^ s) ≤ s ∧
      ((k : ℚ) / 10 ^ s * 10 ^ places ((k : ℚ) / 10 ^ s)).den = 1 := by
  have hat : ((k : ℚ) / 10 ^ s * 10 ^ s).den = 1 := by
    rw [div_mul_cancel₀ _ (by positivity)]
    exact Rat.den_natCast k
  generalize (k : ℚ) / 10 ^ s = v at hat ⊢
  cases hfind : (List.range 400).find? fun m => decide ((v * 10 ^ m).den = 1) with
  | none =>
      rw [List.find?_eq_none] at hfind
      exact absurd (decide_eq_true hat) (hfind s (List.mem_range.mpr hs))
  | some m =>
      rw [places, hfind, Option.getD_some]
      have hfound : decide ((v * 10 ^ m).den = 1) = true :=
        List.find?_some (p := fun m => decide ((v * 10 ^ m).den = 1)) hfind
      refine ⟨?_, of_decide_eq_true hfound⟩
      by_contra hlt
      rw [not_le] at hlt
      obtain ⟨-, i, hi, hget, hbefore⟩ := List.find?_eq_some_iff_getElem.mp hfind
      rw [List.getElem_range] at hget
      have hno := hbefore s (hget ▸ hlt)
      rw [List.getElem_range] at hno
      simp [hat] at hno

/-- **How a decimal below one is written**: without a point if it is zero, and otherwise with its
digits after a zero. -/
theorem text_div {k s : ℕ} (hs : s < 400) (hk : k < 10 ^ s) :
    k = 0 ∧ text ((k : ℚ) / 10 ^ s) = ['0'] ∨
      ∃ fraction, text ((k : ℚ) / 10 ^ s) = ['0', '.'] ++ fraction ∧ isNumber fraction = true ∧
        fraction.length ≤ s ∧ (number fraction : ℚ) / 10 ^ fraction.length = k / 10 ^ s := by
  obtain ⟨hplaces, hden⟩ := places_div (k := k) hs
  generalize hm : places ((k : ℚ) / 10 ^ s) = m at hplaces hden
  obtain ⟨n, hn⟩ : ∃ n : ℕ, (k : ℚ) / 10 ^ s * 10 ^ m = n := by
    refine ⟨((k : ℚ) / 10 ^ s * 10 ^ m).num.toNat, ?_⟩
    have hnum : 0 ≤ ((k : ℚ) / 10 ^ s * 10 ^ m).num := Rat.num_nonneg.mpr (by positivity)
    conv_lhs => rw [← Rat.num_div_den ((k : ℚ) / 10 ^ s * 10 ^ m), hden, Nat.cast_one, div_one]
    exact_mod_cast (Int.toNat_of_nonneg hnum).symm
  have hlt : n < 10 ^ m := by
    have hone : (k : ℚ) / 10 ^ s < 1 := by
      rw [div_lt_one (by positivity)]
      exact_mod_cast hk
    have hmul : (n : ℚ) < 10 ^ m := by
      rw [← hn]
      exact mul_lt_of_lt_one_left (by positivity) hone
    exact_mod_cast hmul
  have htext : text ((k : ℚ) / 10 ^ s) = if m = 0 then natText 0
      else natText 0 ++ '.' :: (natText n).leftpad m '0' := by
    rw [text, hm, hn]
    simp [Nat.div_eq_of_lt hlt, Nat.mod_eq_of_lt hlt]
  have hzero : natText 0 = ['0'] := rfl
  by_cases hm0 : m = 0
  · subst hm0
    refine .inl ⟨?_, by rw [htext, if_pos rfl, hzero]⟩
    have hn0 : n = 0 := by
      rw [pow_zero] at hlt
      omega
    rw [hn0, pow_zero, mul_one, Nat.cast_zero, div_eq_zero_iff] at hn
    rcases hn with hn | hn
    · exact_mod_cast hn
    · exact absurd hn (by positivity)
  · have hlen := length_leftpad (Nat.pos_of_ne_zero hm0) hlt
    refine .inr ⟨(natText n).leftpad m '0', by rw [htext, if_neg hm0, hzero]; rfl,
      isNumber_leftpad m n, by omega, ?_⟩
    rw [number_leftpad, hlen, ← hn]
    field_simp

end Decimal

end AcceptXmr
