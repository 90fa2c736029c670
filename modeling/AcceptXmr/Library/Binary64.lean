import Mathlib.Algebra.Order.Floor.Ring
import Mathlib.Algebra.Order.Round
import Mathlib.Data.Int.Log
import Mathlib.Data.Rat.Floor
import Mathlib.Tactic.FieldSimp
import Mathlib.Tactic.Linarith
import Mathlib.Tactic.Positivity
import Mathlib.Tactic.Ring

/-! # Numbers of 53 bits

The positive numbers of the binary64 format, as the rationals that they are. An operation gives the
number of the format that is nearest to the exact result, the even one of two. Left out is the range
of the exponent: the results that are looked at here are far above the subnormal numbers and far
below the greatest one.

* **`abs_nearest_sub_le`** — half a unit in the last place.
* **`nearest_mono`** — rounding keeps the order.
* **`shortest_nearest`** — the shortest decimal that is read as a number is the decimal which that
  number stands for, if this has at most 15 digits. -/

namespace AcceptXmr

namespace Binary64

/-! ## Rounding to an integer -/

/-- The nearest integer, and the even one if there are two. -/
def nearestInt (x : ℚ) : ℤ :=
  let rest := x - ⌊x⌋
  if rest < 1 / 2 then ⌊x⌋
  else if 1 / 2 < rest then ⌊x⌋ + 1
  else if Even ⌊x⌋ then ⌊x⌋ else ⌊x⌋ + 1

/-- The nearest integer is the one below or the one above. -/
theorem nearestInt_cases (x : ℚ) :
    nearestInt x = ⌊x⌋ ∧ x - ⌊x⌋ ≤ 1 / 2 ∨ nearestInt x = ⌊x⌋ + 1 ∧ 1 / 2 ≤ x - ⌊x⌋ := by
  unfold nearestInt
  dsimp only
  split
  · rename_i h
    exact .inl ⟨rfl, h.le⟩
  · rename_i h
    split
    · rename_i h'
      exact .inr ⟨rfl, h'.le⟩
    · rename_i h'
      split
      · exact .inl ⟨rfl, not_lt.mp h'⟩
      · exact .inr ⟨rfl, not_lt.mp h⟩

/-- It is at most a half away. -/
theorem abs_nearestInt_sub_le (x : ℚ) : |(nearestInt x : ℚ) - x| ≤ 1 / 2 := by
  have hle := Int.floor_le x
  have hlt := Int.lt_floor_add_one x
  rw [abs_le]
  rcases nearestInt_cases x with ⟨heq, hrest⟩ | ⟨heq, hrest⟩ <;> rw [heq]
  · constructor <;> linarith
  · push_cast
    constructor <;> linarith

/-- An integer is its own nearest one. -/
@[simp] theorem nearestInt_intCast (k : ℤ) : nearestInt k = k := by
  simp [nearestInt]

/-- The integer that a number is close to. -/
theorem nearestInt_of_abs_sub_lt {x : ℚ} {k : ℤ} (h : |x - k| < 1 / 2) : nearestInt x = k := by
  have hround := abs_nearestInt_sub_le x
  have hdist : |((nearestInt x - k : ℤ) : ℚ)| < 1 := by
    rw [abs_lt] at h ⊢
    rw [abs_le] at hround
    push_cast
    constructor <;> linarith
  have hint : |nearestInt x - k| < 1 := by exact_mod_cast hdist
  rw [abs_lt] at hint
  omega

/-- Rounding keeps the order. -/
theorem nearestInt_mono {x y : ℚ} (h : x ≤ y) : nearestInt x ≤ nearestInt y := by
  have hfloor := Int.floor_mono h
  rcases hfloor.lt_or_eq with hlt | heq
  · -- An integer lies between them.
    have hx : nearestInt x ≤ ⌊x⌋ + 1 := by
      rcases nearestInt_cases x with ⟨heq, -⟩ | ⟨heq, -⟩ <;> omega
    have hy : ⌊y⌋ ≤ nearestInt y := by
      rcases nearestInt_cases y with ⟨heq, -⟩ | ⟨heq, -⟩ <;> omega
    omega
  · have hrest : x - ⌊x⌋ ≤ y - ⌊y⌋ := by
      rw [heq]
      linarith
    rw [nearestInt, nearestInt, ← heq]
    rw [← heq] at hrest
    split_ifs <;> first | omega | linarith

/-! ## Rounding to 53 bits -/

/-- The unit in the last place of a positive number. -/
def ulp (q : ℚ) : ℚ := 2 ^ (Int.log 2 q - 52)

/-- **The nearest number of 53 bits**, with an even last bit if there are two. -/
def nearest (q : ℚ) : ℚ := if q = 0 then 0 else nearestInt (q / ulp q) * ulp q

/-- Zero is exact. -/
@[simp] theorem nearest_zero : nearest 0 = 0 := rfl

/-- The distance of neighbouring values is positive. -/
theorem ulp_pos (q : ℚ) : 0 < ulp q := zpow_pos (by norm_num) _

/-- A power of two in units. -/
theorem two_zpow_log (q : ℚ) : (2 : ℚ) ^ Int.log 2 q = 4503599627370496 * ulp q := by
  rw [ulp, zpow_sub₀ (by norm_num)]
  norm_num
  ring

/-- A positive number is rounded to a multiple of that distance. -/
theorem nearest_eq {q : ℚ} (hq : 0 < q) : nearest q = nearestInt (q / ulp q) * ulp q := by
  rw [nearest, if_neg hq.ne']

/-- **Half a unit in the last place.** -/
theorem abs_nearest_sub_le {q : ℚ} (hq : 0 < q) : |nearest q - q| ≤ ulp q / 2 := by
  have hulp := ulp_pos q
  have hround := abs_nearestInt_sub_le (q / ulp q)
  have hscaled : nearest q - q = (nearestInt (q / ulp q) - q / ulp q) * ulp q := by
    rw [nearest_eq hq, sub_mul, div_mul_cancel₀ _ hulp.ne']
  rw [hscaled, abs_mul, abs_of_pos hulp]
  calc |(nearestInt (q / ulp q) : ℚ) - q / ulp q| * ulp q
      ≤ 1 / 2 * ulp q := mul_le_mul_of_nonneg_right hround hulp.le
    _ = ulp q / 2 := by ring

/-- The unit of a number that is below a power of two. -/
theorem ulp_le {q : ℚ} (hq : 0 < q) {n : ℤ} (h : q < 2 ^ n) : ulp q ≤ 2 ^ (n - 53) := by
  have hlog : Int.log 2 q < n := (Int.lt_zpow_iff_log_lt (by norm_num) hq).mp (by exact_mod_cast h)
  exact zpow_le_zpow_right₀ (by norm_num) (by omega)

/-- The greatest error below a power of two. -/
theorem abs_nearest_sub_le_of_lt {q : ℚ} (hq : 0 ≤ q) {n : ℤ} (h : q < 2 ^ n) {bound : ℚ}
    (hbound : 2 ^ (n - 53) / 2 ≤ bound) : |nearest q - q| ≤ bound := by
  rcases hq.eq_or_lt with rfl | hpos
  · rw [nearest_zero, sub_zero, abs_zero]
    exact (div_nonneg (zpow_nonneg (by norm_num) _) (by norm_num)).trans hbound
  · have hulp := ulp_le hpos h
    have herror := abs_nearest_sub_le hpos
    linarith

/-- The number in units has 53 bits before the point. -/
theorem units_bounds {q : ℚ} (hq : 0 < q) :
    ((4503599627370496 : ℤ) : ℚ) ≤ q / ulp q ∧ q / ulp q ≤ ((9007199254740992 : ℤ) : ℚ) := by
  have hlower : ((2 : ℕ) : ℚ) ^ Int.log 2 q ≤ q := Int.zpow_log_le_self (by norm_num) hq
  have hupper := Int.lt_zpow_succ_log_self (b := 2) (by norm_num) q
  push_cast at hlower hupper ⊢
  rw [zpow_add_one₀ (by norm_num), two_zpow_log] at hupper
  rw [two_zpow_log] at hlower
  rw [le_div_iff₀ (ulp_pos q), div_le_iff₀ (ulp_pos q)]
  constructor <;> linarith

/-- The unit is small in proportion. -/
theorem ulp_le_mul {q : ℚ} (hq : 0 < q) : ulp q ≤ q / 4503599627370496 := by
  have hunits := (le_div_iff₀ (ulp_pos q)).mp (units_bounds hq).1
  push_cast at hunits
  linarith

/-- The greatest error in proportion. -/
theorem abs_nearest_sub_le_mul {q : ℚ} (hq : 0 < q) : |nearest q - q| ≤ q / 9007199254740992 := by
  have herror := abs_nearest_sub_le hq
  have hulp := ulp_le_mul hq
  linarith

/-- It is not rounded to zero. -/
theorem nearest_pos {q : ℚ} (hq : 0 < q) : 0 < nearest q := by
  have herror := (abs_le.mp (abs_nearest_sub_le_mul hq)).1
  linarith

/-- What has 53 bits stays as it is. -/
theorem nearest_of_units {q : ℚ} {k : ℤ} (h : q = k * ulp q) : nearest q = q := by
  by_cases hzero : q = 0
  · rw [hzero, nearest_zero]
  · have hunits : q / ulp q = k := by
      rw [div_eq_iff (ulp_pos q).ne', ← h]
    rw [nearest, if_neg hzero, hunits, nearestInt_intCast, ← h]

/-- Natural numbers below `2 ^ 53` are exact. -/
theorem nearest_natCast {n : ℕ} (h : n < 9007199254740992) : nearest n = n := by
  rcases n.eq_zero_or_pos with rfl | hpos
  · simp
  · have hlog : Int.log 2 (n : ℚ) < 53 := by
      refine (Int.lt_zpow_iff_log_lt (by norm_num) (by exact_mod_cast hpos)).mp ?_
      exact_mod_cast h
    obtain ⟨k, hk⟩ := Int.eq_ofNat_of_zero_le (show 0 ≤ 52 - Int.log 2 (n : ℚ) by omega)
    -- Multiplied by the units that are left, the number is still an integer.
    refine nearest_of_units (k := n * 2 ^ k) ?_
    have hulp : ulp (n : ℚ) = ((2 : ℚ) ^ k)⁻¹ := by
      rw [ulp, ← zpow_natCast, ← hk, ← zpow_neg]
      congr 1
      omega
    rw [hulp]
    push_cast
    field_simp

/-- Rounding keeps the order. -/
theorem nearest_mono {q r : ℚ} (hq : 0 ≤ q) (h : q ≤ r) : nearest q ≤ nearest r := by
  rcases hq.eq_or_lt with rfl | hq
  · rw [nearest_zero]
    rcases h.eq_or_lt with rfl | hr
    · exact le_refl 0
    · exact (nearest_pos hr).le
  have hr := hq.trans_le h
  rcases (Int.log_mono_right (b := 2) hq h).eq_or_lt with heq | hlt
  · -- Both are rounded to the same places.
    have hulp : ulp q = ulp r := by rw [ulp, ulp, heq]
    have hint := nearestInt_mono (div_le_div_of_nonneg_right h (ulp_pos q).le)
    rw [nearest_eq hq, nearest_eq hr, ← hulp]
    exact mul_le_mul_of_nonneg_right (by exact_mod_cast hint) (ulp_pos q).le
  · -- A power of two lies between them.
    have hupper : nearest q ≤ 2 ^ (Int.log 2 q + 1) := by
      have hint := nearestInt_mono (units_bounds hq).2
      rw [nearestInt_intCast] at hint
      rw [nearest_eq hq, zpow_add_one₀ (by norm_num), two_zpow_log]
      calc (nearestInt (q / ulp q) : ℚ) * ulp q
          ≤ ((9007199254740992 : ℤ) : ℚ) * ulp q :=
            mul_le_mul_of_nonneg_right (by exact_mod_cast hint) (ulp_pos q).le
        _ = 4503599627370496 * ulp q * 2 := by push_cast; ring
    have hlower : (2 : ℚ) ^ Int.log 2 r ≤ nearest r := by
      have hint := nearestInt_mono (units_bounds hr).1
      rw [nearestInt_intCast] at hint
      rw [nearest_eq hr, two_zpow_log]
      exact mul_le_mul_of_nonneg_right (by exact_mod_cast hint) (ulp_pos r).le
    exact hupper.trans ((zpow_le_zpow_right₀ (by norm_num) (by omega)).trans hlower)

/-! ## The shortest decimal -/

/-- The decimals of `n` significant digits next to `f`, as far as they are read as `f`. -/
def decimalAt (f : ℚ) (n : ℕ) : Option ℚ :=
  let scale : ℚ := 10 ^ ((n : ℤ) - Int.log 10 f - 1)
  let lower : ℚ := ⌊f * scale⌋ / scale
  let upper : ℚ := ⌈f * scale⌉ / scale
  if nearest lower = f then
    if nearest upper = f ∧ upper - f < f - lower then some upper else some lower
  else if nearest upper = f then some upper else none

/-- **The shortest decimal that is read as a number**, and the nearest of these. There always is one
of 17 digits. -/
def shortest (f : ℚ) : ℚ := ((List.range' 1 17).findSome? (decimalAt f)).getD f

/-- What is found is read as the number. -/
theorem decimalAt_some {f v : ℚ} {n : ℕ} (h : decimalAt f n = some v) :
    nearest v = f ∧ ∃ c : ℤ, v = c / 10 ^ ((n : ℤ) - Int.log 10 f - 1) ∧
      (c = ⌊f * 10 ^ ((n : ℤ) - Int.log 10 f - 1)⌋ ∨
        c = ⌈f * 10 ^ ((n : ℤ) - Int.log 10 f - 1)⌉) := by
  unfold decimalAt at h
  dsimp only at h
  split at h
  · rename_i hlower
    split at h
    · rename_i hupper
      cases h
      exact ⟨hupper.1, _, rfl, .inr rfl⟩
    · cases h
      exact ⟨hlower, _, rfl, .inl rfl⟩
  · split at h
    · rename_i hupper
      cases h
      exact ⟨hupper, _, rfl, .inr rfl⟩
    · cases h

/-- A decimal next to the number that is read as it is enough to find one. -/
theorem isSome_decimalAt {f : ℚ} {n : ℕ} {c : ℤ}
    (hread : nearest (c / 10 ^ ((n : ℤ) - Int.log 10 f - 1)) = f)
    (hclose : |f * 10 ^ ((n : ℤ) - Int.log 10 f - 1) - c| < 1) : (decimalAt f n).isSome := by
  rw [abs_lt] at hclose
  generalize hscale : (10 : ℚ) ^ ((n : ℤ) - Int.log 10 f - 1) = scale at hread hclose
  have hc : c = ⌊f * scale⌋ ∨ c = ⌈f * scale⌉ := by
    rcases le_total (c : ℚ) (f * scale) with hle | hle
    · exact .inl (Int.floor_eq_iff.mpr ⟨hle, by linarith⟩).symm
    · exact .inr (Int.ceil_eq_iff.mpr ⟨by linarith, hle⟩).symm
  simp only [decimalAt, hscale]
  rcases hc with rfl | rfl
  · rw [if_pos hread]
    split <;> rfl
  · rw [if_pos hread]
    split
    · split <;> rfl
    · rfl

/-- Integers of at most 15 digits that are close in proportion are the same. -/
theorem eq_of_close {a b : ℤ} {t : ℚ} (ht : 0 < t)
    (h : |(a : ℚ) / t - b / t| ≤ (a / t + b / t) / 9007199254740992) (ha : 0 ≤ a) (hb : 0 ≤ b)
    (hle : a ≤ 1000000000000000 ∨ b ≤ 1000000000000000) : a = b := by
  have hscaled : |(a : ℚ) - b| * 9007199254740992 ≤ a + b := by
    rw [← sub_div, ← add_div, abs_div, abs_of_pos ht, div_div, div_le_div_iff₀ ht (by positivity)] at h
    nlinarith
  have hint : |a - b| * 9007199254740992 ≤ a + b := by exact_mod_cast hscaled
  rcases abs_cases (a - b) with ⟨habs, hsign⟩ | ⟨habs, hsign⟩ <;> rw [habs] at hint <;> omega

section Decimal

variable {k s : ℕ}

/-- A number and the decimal that it stands for. -/
theorem abs_nearest_decimal_sub_le (hk : 0 < k) :
    |nearest ((k : ℚ) / 10 ^ s) - k / 10 ^ s| ≤ k / 10 ^ s / 9007199254740992 :=
  abs_nearest_sub_le_mul (by positivity)

/-- **Nothing else is found** among the decimals of at most 15 digits. -/
theorem decimalAt_unique (hk : 0 < k) (hk' : k < 1000000000000000) {n : ℕ} (hn : n ≤ 15) {v : ℚ}
    (h : decimalAt (nearest ((k : ℚ) / 10 ^ s)) n = some v) : v = k / 10 ^ s := by
  have hclose := abs_nearest_decimal_sub_le (s := s) hk
  have hf : 0 < nearest ((k : ℚ) / 10 ^ s) := nearest_pos (by positivity)
  generalize nearest ((k : ℚ) / 10 ^ s) = f at h hclose hf
  obtain ⟨hread, c, hv, hc⟩ := decimalAt_some h
  have hbelow := Int.lt_zpow_succ_log_self (b := 10) (by norm_num) f
  push_cast at hbelow
  generalize hj : (n : ℤ) - Int.log 10 f - 1 = j at hv hc
  have hscale : (0 : ℚ) < 10 ^ j := zpow_pos (by norm_num) _
  have hc0 : 0 ≤ c := by
    have hfloor : 0 ≤ ⌊f * 10 ^ j⌋ := Int.floor_nonneg.mpr (by positivity)
    have hceil := Int.floor_le_ceil (f * 10 ^ j)
    rcases hc with rfl | rfl <;> omega
  have hcn : c ≤ 10 ^ n := by
    have hmul : f * 10 ^ j ≤ ((10 ^ n : ℤ) : ℚ) := by
      push_cast
      rw [← zpow_natCast, show (n : ℤ) = (Int.log 10 f + 1) + j by omega, zpow_add₀ (by norm_num)]
      exact mul_le_mul_of_nonneg_right hbelow.le hscale.le
    have hceil := Int.ceil_le.mpr hmul
    have hfloor := Int.floor_le_ceil (f * 10 ^ j)
    rcases hc with rfl | rfl <;> omega
  have hc15 : c ≤ 1000000000000000 :=
    hcn.trans ((pow_le_pow_right₀ (by norm_num) hn).trans (by norm_num))
  have hvpos : 0 < v := by
    rcases hc0.eq_or_lt with rfl | hpos
    · rw [hv, Int.cast_zero, zero_div, nearest_zero] at hread
      exact absurd hread hf.ne
    · rw [hv]
      have hpos' : (0 : ℚ) < c := by exact_mod_cast hpos
      positivity
  have hclose' := abs_nearest_sub_le_mul hvpos
  rw [hread] at hclose'
  -- Both are close to the number, and so to each other.
  have hdist : |v - k / 10 ^ s| ≤ (v + k / 10 ^ s) / 9007199254740992 := by
    rw [abs_le] at hclose hclose' ⊢
    constructor <;> linarith
  rcases le_total j s with hle | hle
  · obtain ⟨m, hm⟩ := Int.eq_ofNat_of_zero_le (sub_nonneg.mpr hle)
    have hpow : (10 : ℚ) ^ s = 10 ^ j * 10 ^ m := by
      rw [← zpow_natCast, ← zpow_natCast, ← zpow_add₀ (by norm_num)]
      congr 1
      omega
    have hv' : v = ((c * 10 ^ m : ℤ) : ℚ) / 10 ^ s := by
      rw [hv, hpow]
      push_cast
      field_simp
    rw [hv'] at hdist ⊢
    rw [← Int.cast_natCast] at hdist ⊢
    rw [eq_of_close (by positivity) hdist (by positivity) (by positivity) (.inr (by omega))]
  · obtain ⟨m, hm⟩ := Int.eq_ofNat_of_zero_le (sub_nonneg.mpr hle)
    have hpow : (10 : ℚ) ^ j = 10 ^ s * 10 ^ m := by
      rw [← zpow_natCast, ← zpow_natCast, ← zpow_add₀ (by norm_num)]
      congr 1
      omega
    have hd : (k : ℚ) / 10 ^ s = ((k * 10 ^ m : ℤ) : ℚ) / 10 ^ j := by
      rw [hpow]
      push_cast
      field_simp
    rw [hv, hd] at hdist
    rw [hv, hd, eq_of_close hscale hdist hc0 (by positivity) (.inl hc15)]

/-- **The decimal itself is found** among those of 15 digits. -/
theorem isSome_decimalAt_nearest (hk : 0 < k) (hk' : k < 1000000000000000) :
    (decimalAt (nearest ((k : ℚ) / 10 ^ s)) 15).isSome := by
  have hclose := abs_nearest_decimal_sub_le (s := s) hk
  have hf : 0 < nearest ((k : ℚ) / 10 ^ s) := nearest_pos (by positivity)
  generalize hnearest : nearest ((k : ℚ) / 10 ^ s) = f at hclose hf
  have hlog : ((10 : ℕ) : ℚ) ^ Int.log 10 f ≤ f := Int.zpow_log_le_self (by norm_num) hf
  have hbelow := Int.lt_zpow_succ_log_self (b := 10) (by norm_num) f
  push_cast at hlog hbelow
  rw [abs_le] at hclose
  have hs : (0 : ℚ) < 10 ^ s := by positivity
  have hkq : (k : ℚ) ≤ 999999999999999 := by exact_mod_cast Nat.le_of_lt_succ hk'
  -- The decimal has no more places than those that are looked at.
  have hplaces : Int.log 10 f + s < 15 := by
    have hsmall : f * 10 ^ s < 1000000000000000 := by
      have hmul : f ≤ k / 10 ^ s * (1 + 1 / 9007199254740992) := by linarith
      calc f * 10 ^ s ≤ k / 10 ^ s * (1 + 1 / 9007199254740992) * 10 ^ s :=
            mul_le_mul_of_nonneg_right hmul hs.le
        _ = k * (1 + 1 / 9007199254740992) := by field_simp
        _ < 1000000000000000 := by linarith
    have hpow : (10 : ℚ) ^ (Int.log 10 f + s) < 10 ^ (15 : ℤ) := by
      rw [zpow_add₀ (by norm_num), zpow_natCast]
      refine (mul_le_mul_of_nonneg_right hlog hs.le).trans_lt (hsmall.trans_le ?_)
      norm_num
    exact (zpow_lt_zpow_iff_right₀ (by norm_num)).mp hpow
  obtain ⟨m, hm⟩ := Int.eq_ofNat_of_zero_le
    (show 0 ≤ ((15 : ℕ) : ℤ) - Int.log 10 f - 1 - s by push_cast; omega)
  have hpow : (10 : ℚ) ^ (((15 : ℕ) : ℤ) - Int.log 10 f - 1) = 10 ^ s * 10 ^ m := by
    rw [← zpow_natCast, ← zpow_natCast, ← zpow_add₀ (by norm_num)]
    congr 1
    omega
  have hd : (k : ℚ) / 10 ^ s = ((k * 10 ^ m : ℤ) : ℚ) / (10 ^ s * 10 ^ m) := by
    push_cast
    field_simp
  refine isSome_decimalAt (c := k * 10 ^ m) ?_ ?_
  · rw [hpow, ← hd, hnearest]
  · have hupper : f * (10 ^ s * 10 ^ m) < 1000000000000000 := by
      rw [← hpow]
      calc f * 10 ^ (((15 : ℕ) : ℤ) - Int.log 10 f - 1)
          < 10 ^ (Int.log 10 f + 1) * 10 ^ (((15 : ℕ) : ℤ) - Int.log 10 f - 1) :=
            mul_lt_mul_of_pos_right hbelow (zpow_pos (by norm_num) _)
        _ = 10 ^ (15 : ℤ) := by
            rw [← zpow_add₀ (by norm_num)]
            congr 1
            push_cast
            ring
        _ = 1000000000000000 := by norm_num
    have hint : ((k * 10 ^ m : ℤ) : ℚ) = k / 10 ^ s * (10 ^ s * 10 ^ m) := by
      push_cast
      field_simp
    have hscale : (0 : ℚ) < 10 ^ s * 10 ^ m := by positivity
    rw [hpow, hint]
    generalize (10 : ℚ) ^ s * 10 ^ m = scale at hupper hscale ⊢
    generalize (k : ℚ) / 10 ^ s = d at hclose ⊢
    rw [abs_lt]
    constructor <;> nlinarith

/-- **The shortest decimal** that is read as the number for a decimal of at most 15 digits is that
decimal. -/
theorem shortest_nearest (hk : k < 1000000000000000) :
    shortest (nearest ((k : ℚ) / 10 ^ s)) = k / 10 ^ s := by
  rcases k.eq_zero_or_pos with rfl | hpos
  · simp [shortest, decimalAt, List.range']
  · have hfound : ((List.range' 1 15).findSome?
        (decimalAt (nearest ((k : ℚ) / 10 ^ s)))).isSome := by
      rw [List.findSome?_isSome_iff]
      exact ⟨15, by simp, isSome_decimalAt_nearest hpos hk⟩
    obtain ⟨v, hv⟩ := Option.isSome_iff_exists.mp hfound
    have hunique : v = k / 10 ^ s := by
      obtain ⟨n, hn, hat⟩ := List.exists_of_findSome?_eq_some hv
      exact decimalAt_unique hpos hk (by simp at hn; omega) hat
    rw [shortest, show List.range' 1 17 = List.range' 1 15 ++ [16, 17] from rfl,
      List.findSome?_append, hv, hunique]
    rfl

end Decimal

end Binary64

end AcceptXmr
