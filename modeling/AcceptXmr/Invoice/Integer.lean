import AcceptXmr.Invoice
import AcceptXmr.Library.BigEndian

/-! # Invoice ids as integers

The conversions between `InvoiceId` and `u128` in `library/src/invoice.rs`: major index, minor index
and creation height one after the other, each big-endian. The integers are naturals below
`u128Size`.

* **`InvoiceId.toU128_eq`** — the integer of an id.
* **`InvoiceId.ofU128_toU128`**, **`InvoiceId.toU128_ofU128`** — the conversions are inverse.
* **`InvoiceId.cmp_eq_compare`** — they keep the order. -/

namespace AcceptXmr

open BigEndian

/-- The number of values of a `u128`. -/
def u128Size : ℕ := 2 ^ 128

namespace InvoiceId

/-- The height of an id is a `u64`. -/
def Fits (self : InvoiceId) : Prop := self.creationHeight < u64Size

/-- `From<InvoiceId> for u128`. -/
def toU128 (value : InvoiceId) : ℕ :=
  ofBE (toBE 4 value.subIndex.major.toNat ++ toBE 4 value.subIndex.minor.toNat
    ++ toBE 8 value.creationHeight)

/-- `From<u128> for InvoiceId`. -/
def ofU128 (value : ℕ) : InvoiceId :=
  let bytes := toBE 16 value
  let majorIndexBytes := bytes.take 4
  let minorIndexBytes := (bytes.take 8).drop 4
  let heightBytes := (bytes.take 16).drop 8
  { subIndex := ⟨UInt32.ofNat (ofBE majorIndexBytes), UInt32.ofNat (ofBE minorIndexBytes)⟩
    creationHeight := ofBE heightBytes }

/-- The bytes of a major or minor index. -/
theorem ofBE_toBE_u32 (n : UInt32) : ofBE (toBE 4 n.toNat) = n.toNat := ofBE_toBE n.toNat_lt

/-- **The integer of an id**: its parts as digits. -/
theorem toU128_eq {id : InvoiceId} (h : id.Fits) :
    id.toU128 = (id.subIndex.major.toNat * 256 ^ 4 + id.subIndex.minor.toNat) * 256 ^ 8
      + id.creationHeight := by
  have hheight : ofBE (toBE 8 id.creationHeight) = id.creationHeight := ofBE_toBE h
  rw [toU128, ofBE_append, ofBE_append, length_toBE, length_toBE, ofBE_toBE_u32, ofBE_toBE_u32,
    hheight]

theorem toU128_lt (id : InvoiceId) : id.toU128 < u128Size := by
  have h := ofBE_lt (toBE 4 id.subIndex.major.toNat ++ toBE 4 id.subIndex.minor.toNat
    ++ toBE 8 id.creationHeight)
  have hsize : 256 ^ (4 + 4 + 8) = u128Size := by
    simp only [u128Size, Nat.reduceAdd, Nat.reducePow]
  rw [List.length_append, List.length_append, length_toBE, length_toBE, length_toBE, hsize] at h
  rwa [toU128]

/-- The height of an id that is read from an integer. -/
theorem fits_ofU128 (n : ℕ) : (ofU128 n).Fits := by
  have hlength : (((toBE 16 n).take 16).drop 8).length = 8 := by simp
  have hsize : 256 ^ 8 = u64Size := rfl
  have h := ofBE_lt (((toBE 16 n).take 16).drop 8)
  rw [hlength, hsize] at h
  simpa only [Fits, ofU128] using h

/-- **An id is regained from its integer.** -/
theorem ofU128_toU128 {id : InvoiceId} (h : id.Fits) : ofU128 id.toU128 = id := by
  have hbytes : toBE 16 id.toU128 = toBE 4 id.subIndex.major.toNat
      ++ toBE 4 id.subIndex.minor.toNat ++ toBE 8 id.creationHeight := by
    have hback := toBE_ofBE (toBE 4 id.subIndex.major.toNat ++ toBE 4 id.subIndex.minor.toNat
      ++ toBE 8 id.creationHeight)
    rw [List.length_append, List.length_append, length_toBE, length_toBE, length_toBE] at hback
    exact hback
  have hheight : ofBE (toBE 8 id.creationHeight) = id.creationHeight := ofBE_toBE h
  have hmajor : (toBE 16 id.toU128).take 4 = toBE 4 id.subIndex.major.toNat := by
    rw [hbytes, List.append_assoc, List.take_left' (length_toBE 4 _)]
  have hminor : ((toBE 16 id.toU128).take 8).drop 4 = toBE 4 id.subIndex.minor.toNat := by
    rw [hbytes, List.take_left' (by simp), List.drop_left' (length_toBE 4 _)]
  have hrest : ((toBE 16 id.toU128).take 16).drop 8 = toBE 8 id.creationHeight := by
    rw [List.take_of_length_le (by simp), hbytes, List.drop_left' (by simp)]
  simp only [ofU128, hmajor, hminor, hrest, ofBE_toBE_u32, hheight, UInt32.ofNat_toNat]

/-- **An integer is regained from its id.** -/
theorem toU128_ofU128 {n : ℕ} (h : n < u128Size) : (ofU128 n).toU128 = n := by
  have hread : ∀ bytes : Bytes, bytes.length = 4 →
      toBE 4 (UInt32.ofNat (ofBE bytes)).toNat = bytes := by
    intro bytes hlength
    have hlt := ofBE_lt bytes
    rw [hlength] at hlt
    have hread := toBE_ofBE bytes
    rw [hlength] at hread
    rw [UInt32.toNat_ofNat', Nat.mod_eq_of_lt (by omega), hread]
  have hheight : toBE 8 (ofBE (((toBE 16 n).take 16).drop 8)) = ((toBE 16 n).take 16).drop 8 := by
    have hback := toBE_ofBE (((toBE 16 n).take 16).drop 8)
    rwa [List.length_drop, List.length_take, length_toBE] at hback
  -- The three slices are put together again.
  have hslices : (toBE 16 n).take 4 ++ ((toBE 16 n).take 8).drop 4
      ++ ((toBE 16 n).take 16).drop 8 = toBE 16 n := by
    have hfront : (toBE 16 n).take 4 ++ ((toBE 16 n).take 8).drop 4 = (toBE 16 n).take 8 := by
      have hsplit := List.take_append_drop 4 ((toBE 16 n).take 8)
      rwa [List.take_take] at hsplit
    have hall : (toBE 16 n).take 16 = toBE 16 n := List.take_of_length_le (length_toBE 16 n).le
    rw [hfront, hall, List.take_append_drop]
  simp only [toU128, ofU128]
  rw [hread _ (by simp), hread _ (by simp), hheight, hslices, ofBE_toBE h]

/-- Digits are compared from the front. -/
theorem compare_digits {a b k x y : ℕ} (hx : x < k) (hy : y < k) :
    compare (a * k + x) (b * k + y) = (compare a b).then (compare x y) := by
  rcases Nat.lt_trichotomy a b with hab | rfl | hab
  · have hlt : a * k + x < b * k + y := by
      have := Nat.mul_le_mul_right k (Nat.succ_le_of_lt hab)
      rw [Nat.succ_mul] at this
      omega
    rw [Nat.compare_eq_lt.mpr hab, Nat.compare_eq_lt.mpr hlt]
    rfl
  · rw [Nat.compare_eq_eq.mpr rfl, Ordering.eq_then]
    rcases Nat.lt_trichotomy x y with hxy | rfl | hxy
    · rw [Nat.compare_eq_lt.mpr hxy, Nat.compare_eq_lt.mpr (by omega)]
    · rw [Nat.compare_eq_eq.mpr rfl, Nat.compare_eq_eq.mpr rfl]
    · rw [Nat.compare_eq_gt.mpr hxy, Nat.compare_eq_gt.mpr (by omega)]
  · have hlt : b * k + y < a * k + x := by
      have := Nat.mul_le_mul_right k (Nat.succ_le_of_lt hab)
      rw [Nat.succ_mul] at this
      omega
    rw [Nat.compare_eq_gt.mpr hab, Nat.compare_eq_gt.mpr hlt]
    rfl

/-- Machine integers are compared as numbers. -/
theorem compare_toNat (m n : UInt32) : compare m n = compare m.toNat n.toNat := by
  rcases Nat.lt_trichotomy m.toNat n.toNat with h | h | h
  · rw [Nat.compare_eq_lt.mpr h, Std.compare_eq_lt.mpr (UInt32.lt_iff_toNat_lt.mpr h)]
  · rw [Nat.compare_eq_eq.mpr h, Std.compare_eq_iff_eq.mpr (UInt32.toNat_inj.mp h)]
  · rw [Nat.compare_eq_gt.mpr h, Std.compare_eq_gt.mpr (UInt32.lt_iff_toNat_lt.mpr h)]

/-- **The order of ids** is that of their integers. -/
theorem cmp_eq_compare {a b : InvoiceId} (ha : a.Fits) (hb : b.Fits) :
    a.cmp b = compare a.toU128 b.toU128 := by
  have hindex : a.subIndex.cmp b.subIndex =
      (compare a.subIndex.major.toNat b.subIndex.major.toNat).then
        (compare a.subIndex.minor.toNat b.subIndex.minor.toNat) := by
    rw [SubIndex.cmp]
    rw [compare_toNat, compare_toNat]
    cases compare a.subIndex.major.toNat b.subIndex.major.toNat <;> rfl
  have hheight : ∀ id : InvoiceId, id.Fits → id.creationHeight < 256 ^ 8 := fun _ h => h
  have hminor : ∀ id : InvoiceId, id.subIndex.minor.toNat < 256 ^ 4 :=
    fun id => id.subIndex.minor.toNat_lt
  rw [toU128_eq ha, toU128_eq hb, compare_digits (hheight a ha) (hheight b hb),
    compare_digits (hminor a) (hminor b), ← hindex, cmp]
  cases a.subIndex.cmp b.subIndex <;> rfl

end InvoiceId

end AcceptXmr
