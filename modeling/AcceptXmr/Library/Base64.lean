import AcceptXmr.Library.Codec
import AcceptXmr.Library.Text

/-! # Base64 for URLs

The URL-safe variant of base64 without padding. Three bytes are written as four digits of six bits
each; one or two bytes at the end leave spare bits in the last digit, which are zero. Reading refuses
characters that are no digits, a single digit at the end and spare bits that are not zero. So every
string of bytes has one text, and every text is that of one string of bytes or of none.

* **`decode_encode`**, **`encode_of_decode`** — encoding and decoding are inverse to each other. -/

namespace AcceptXmr

namespace Base64

/-! ## Digits -/

/-- The digits: letters, numbers, `-` and `_`. -/
def alphabet : Text :=
  "ABCDEFGHIJKLMNOPQRSTUVWXYZabcdefghijklmnopqrstuvwxyz0123456789-_".toList

/-- The digit for six bits. -/
def digit (n : ℕ) : Char := alphabet.getD n 'A'

/-- The six bits of a digit. -/
def value (c : Char) : Option ℕ := alphabet.findIdx? fun d => decide (d = c)

/-- The value of a digit is read back. -/
theorem value_digit {n : ℕ} (h : n < 64) : value (digit n) = some n := by
  have hall : ∀ m ∈ List.range 64, value (digit m) = some m := by decide
  exact hall n (List.mem_range.mpr h)

/-- Only digits have a value, and it is below 64. -/
theorem digit_of_value {c : Char} {n : ℕ} (h : value c = some n) : n < 64 ∧ digit n = c := by
  obtain ⟨hn, hc, -⟩ := List.findIdx?_eq_some_iff_getElem.mp h
  refine ⟨hn, ?_⟩
  rw [digit, List.getD_eq_getElem?_getD, List.getElem?_eq_getElem hn, Option.getD_some]
  exact of_decide_eq_true hc

/-! ## Groups of six bits -/

/-- Bytes as groups of six bits. -/
def regroup : Bytes → List ℕ
  | [] => []
  | [a] => [a.toNat / 4, a.toNat % 4 * 16]
  | [a, b] => [a.toNat / 4, a.toNat % 4 * 16 + b.toNat / 16, b.toNat % 16 * 4]
  | a :: b :: c :: rest =>
      a.toNat / 4 :: (a.toNat % 4 * 16 + b.toNat / 16) :: (b.toNat % 16 * 4 + c.toNat / 64) ::
        c.toNat % 64 :: regroup rest

/-- Groups of six bits as bytes. -/
def ungroup : List ℕ → Option Bytes
  | [] => some []
  -- Six bits are no byte.
  | [_] => none
  | [w, x] => if x % 16 = 0 then some [UInt8.ofNat (w * 4 + x / 16)] else none
  | [w, x, y] =>
      if y % 4 = 0 then some [UInt8.ofNat (w * 4 + x / 16), UInt8.ofNat (x % 16 * 16 + y / 4)]
      else none
  | w :: x :: y :: z :: rest =>
      (ungroup rest).map fun bytes =>
        UInt8.ofNat (w * 4 + x / 16) :: UInt8.ofNat (x % 16 * 16 + y / 4) ::
          UInt8.ofNat (y % 4 * 64 + z) :: bytes

/-- Groups of six bits are below 64. -/
theorem regroup_lt (bytes : Bytes) : ∀ n ∈ regroup bytes, n < 64 := by
  induction bytes using regroup.induct with
  | case1 => nofun
  | case2 a =>
      have := a.toNat_lt
      simp only [regroup, List.mem_cons, List.not_mem_nil, or_false, forall_eq_or_imp, forall_eq]
      omega
  | case3 a b =>
      have := a.toNat_lt
      have := b.toNat_lt
      simp only [regroup, List.mem_cons, List.not_mem_nil, or_false, forall_eq_or_imp, forall_eq]
      omega
  | case4 a b c rest ih =>
      have := a.toNat_lt
      have := b.toNat_lt
      have := c.toNat_lt
      simp only [regroup, List.mem_cons, forall_eq_or_imp]
      exact ⟨by omega, by omega, by omega, by omega, ih⟩

/-- A byte of which both parts have been read. -/
theorem ofNat_eq {a : UInt8} {n : ℕ} (h : n = a.toNat) : UInt8.ofNat n = a := by
  rw [h, UInt8.ofNat_toNat]

/-- **Bytes are regained from their groups.** -/
theorem ungroup_regroup (bytes : Bytes) : ungroup (regroup bytes) = some bytes := by
  induction bytes using regroup.induct with
  | case1 => rfl
  | case2 a =>
      have ha := a.toNat_lt
      rw [regroup, ungroup, if_pos (by omega), ofNat_eq (a := a) (by omega)]
  | case3 a b =>
      have ha := a.toNat_lt
      have hb := b.toNat_lt
      rw [regroup, ungroup, if_pos (by omega), ofNat_eq (a := a) (by omega),
        ofNat_eq (a := b) (by omega)]
  | case4 a b c rest ih =>
      have ha := a.toNat_lt
      have hb := b.toNat_lt
      have hc := c.toNat_lt
      rw [regroup, ungroup, ih, Option.map_some, ofNat_eq (a := a) (by omega),
        ofNat_eq (a := b) (by omega), ofNat_eq (a := c) (by omega)]

/-- **Groups are regained from their bytes.** -/
theorem regroup_of_ungroup {groups : List ℕ} (hlt : ∀ n ∈ groups, n < 64) {bytes : Bytes}
    (h : ungroup groups = some bytes) : regroup bytes = groups := by
  induction groups using ungroup.induct generalizing bytes with
  | case1 =>
      cases h
      rfl
  | case2 w => cases h
  | case3 w x hspare =>
      rw [ungroup, if_pos hspare] at h
      cases h
      simp only [List.mem_cons, List.not_mem_nil, or_false, forall_eq_or_imp, forall_eq] at hlt
      simp only [regroup, UInt8.toNat_ofNat', List.cons.injEq, and_true]
      omega
  | case4 w x hspare =>
      rw [ungroup, if_neg hspare] at h
      cases h
  | case5 w x y hspare =>
      rw [ungroup, if_pos hspare] at h
      cases h
      simp only [List.mem_cons, List.not_mem_nil, or_false, forall_eq_or_imp, forall_eq] at hlt
      simp only [regroup, UInt8.toNat_ofNat', List.cons.injEq, and_true]
      omega
  | case6 w x y hspare =>
      rw [ungroup, if_neg hspare] at h
      cases h
  | case7 w x y z rest ih =>
      rw [ungroup] at h
      obtain ⟨bytes', hrest, rfl⟩ := Option.map_eq_some_iff.mp h
      simp only [List.mem_cons, forall_eq_or_imp] at hlt
      obtain ⟨hw, hx, hy, hz, hlt⟩ := hlt
      simp only [regroup, UInt8.toNat_ofNat', List.cons.injEq, ih hlt hrest, and_true]
      omega

/-! ## Texts -/

/-- `URL_SAFE_NO_PAD.encode`. -/
def encode (bytes : Bytes) : Text := (regroup bytes).map digit

/-- `URL_SAFE_NO_PAD.decode`, `none` for an error. -/
def decode (text : Text) : Option Bytes := (text.mapM value).bind ungroup

/-- A text of digits is read back group by group. -/
theorem mapM_value_digit {groups : List ℕ} (h : ∀ n ∈ groups, n < 64) :
    (groups.map digit).mapM value = some groups := by
  induction groups with
  | nil => rfl
  | cons n groups ih =>
      rw [List.map_cons, List.mapM_cons, value_digit (h n List.mem_cons_self),
        ih fun m hm => h m (List.mem_cons_of_mem _ hm)]
      rfl

/-- A text that is read consists of the digits of its groups. -/
theorem digits_of_mapM_value {text : Text} {groups : List ℕ} (h : text.mapM value = some groups) :
    (∀ n ∈ groups, n < 64) ∧ groups.map digit = text := by
  induction text generalizing groups with
  | nil =>
      rw [List.mapM_nil] at h
      cases h
      exact ⟨nofun, rfl⟩
  | cons c text ih =>
      rw [List.mapM_cons] at h
      obtain ⟨n, hn, h⟩ := Option.bind_eq_some_iff.mp h
      obtain ⟨groups', hrest, h⟩ := Option.bind_eq_some_iff.mp h
      cases h
      obtain ⟨hlt, hdigit⟩ := digit_of_value hn
      obtain ⟨hall, hmap⟩ := ih hrest
      refine ⟨List.forall_mem_cons.mpr ⟨hlt, hall⟩, ?_⟩
      rw [List.map_cons, hdigit, hmap]

/-- **What has been encoded is decoded.** -/
theorem decode_encode (bytes : Bytes) : decode (encode bytes) = some bytes := by
  rw [decode, encode, mapM_value_digit (regroup_lt bytes), Option.bind_some, ungroup_regroup]

/-- **What is decoded has been encoded**: there is no other text for the same bytes. -/
theorem encode_of_decode {text : Text} {bytes : Bytes} (h : decode text = some bytes) :
    encode bytes = text := by
  obtain ⟨groups, hgroups, hbytes⟩ := Option.bind_eq_some_iff.mp h
  obtain ⟨hlt, hmap⟩ := digits_of_mapM_value hgroups
  rw [encode, regroup_of_ungroup hlt hbytes, hmap]

example : decode "_-8".toList = some [255, 239] := by decide

end Base64

end AcceptXmr
