import AcceptXmr.Library.Codec
import Mathlib.Tactic.Ring

/-! # Big-endian integers

Integers as a fixed number of bytes, most significant byte first, and integers that are put together
from the bytes of others.

* **`ofBE_toBE`**, **`toBE_ofBE`** — the two directions are inverse to each other.
* **`ofBE_append`** — what bytes stand for one after the other. -/

namespace AcceptXmr

namespace BigEndian

/-- `to_be_bytes` of an integer of `k` bytes. -/
def toBE : ℕ → ℕ → Bytes
  | 0, _ => []
  | k + 1, n => toBE k (n / 256) ++ [UInt8.ofNat (n % 256)]

/-- `from_be_bytes`. -/
def ofBE (bytes : Bytes) : ℕ := bytes.foldl (fun n byte => 256 * n + byte.toNat) 0

/-- A number is written with as many bytes as were asked for. -/
@[simp] theorem length_toBE (k n : ℕ) : (toBE k n).length = k := by
  induction k generalizing n with
  | zero => rfl
  | succ k ih => rw [toBE, List.length_append, ih, List.length_singleton]

/-- **Bytes one after the other**: the first ones count more. -/
theorem ofBE_append (front back : Bytes) :
    ofBE (front ++ back) = ofBE front * 256 ^ back.length + ofBE back := by
  have hfold : ∀ (bytes : Bytes) (n : ℕ),
      bytes.foldl (fun n byte => 256 * n + byte.toNat) n = n * 256 ^ bytes.length + ofBE bytes := by
    intro bytes
    induction bytes with
    | nil => intro n; simp [ofBE]
    | cons byte bytes ih =>
        intro n
        have hcons : ofBE (byte :: bytes) = byte.toNat * 256 ^ bytes.length + ofBE bytes := by
          rw [ofBE, List.foldl_cons, ih, Nat.mul_zero, Nat.zero_add]
        rw [List.foldl_cons, ih, hcons, List.length_cons]
        ring
  rw [ofBE, List.foldl_append, hfold]
  rfl

/-- One byte stands for itself. -/
theorem ofBE_singleton (byte : UInt8) : ofBE [byte] = byte.toNat := Nat.zero_add _

/-- What `k` bytes can stand for. -/
theorem ofBE_lt (bytes : Bytes) : ofBE bytes < 256 ^ bytes.length := by
  induction bytes using List.reverseRecOn with
  | nil => decide
  | append_singleton bytes byte ih =>
      have hbyte := byte.toNat_lt
      rw [ofBE_append, ofBE_singleton, List.length_append, List.length_singleton, Nat.pow_succ]
      omega

/-- **An integer is regained from its bytes.** -/
theorem ofBE_toBE {k n : ℕ} (h : n < 256 ^ k) : ofBE (toBE k n) = n := by
  induction k generalizing n with
  | zero =>
      rw [Nat.pow_zero, Nat.lt_one_iff] at h
      rw [h]
      rfl
  | succ k ih =>
      have hdiv : n / 256 < 256 ^ k := by
        rw [Nat.div_lt_iff_lt_mul (by decide)]
        rwa [Nat.pow_succ] at h
      have hbyte : (UInt8.ofNat (n % 256)).toNat = n % 256 := by
        rw [UInt8.toNat_ofNat']
        exact Nat.mod_eq_of_lt (Nat.mod_lt n (by decide))
      rw [toBE, ofBE_append, ih hdiv, ofBE_singleton, hbyte, List.length_singleton, Nat.pow_one]
      omega

/-- **Bytes are regained from the integer** that they stand for. -/
theorem toBE_ofBE (bytes : Bytes) : toBE bytes.length (ofBE bytes) = bytes := by
  induction bytes using List.reverseRecOn with
  | nil => rfl
  | append_singleton bytes byte ih =>
      have hbyte := byte.toNat_lt
      have hdiv : (ofBE bytes * 256 + byte.toNat) / 256 = ofBE bytes := by omega
      have hmod : (ofBE bytes * 256 + byte.toNat) % 256 = byte.toNat := by omega
      rw [List.length_append, List.length_singleton, toBE, ofBE_append, ofBE_singleton,
        List.length_singleton, Nat.pow_one, hdiv, hmod, ih, UInt8.ofNat_toNat]

end BigEndian

end AcceptXmr
