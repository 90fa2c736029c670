import Mathlib.Algebra.Group.Nat.Defs
import Mathlib.Data.List.Infix
import Mathlib.Data.Nat.Notation

/-! # Codecs

How values are written as bytes and read back, in the manner of `bincode` with its standard
configuration: integers of variable length, lists and strings with their length in front, structures
field by field. A codec carries the proof that what it has written is read back, whatever follows
it; that makes encodings injective and no encoding the beginning of another.

* **`Codec.append_inj`** — an encoding can be told from what follows it.
* **`Codec.begins_pair_iff`** — the encoding of a pair begins with that of its first component and
  with no other. -/

namespace AcceptXmr

/-- A string of bytes. -/
abbrev Bytes := List UInt8

/-- **A codec** for those values of a type that `Fits` tells. -/
structure Codec (α : Type) where
  encode : α → Bytes
  /-- Read a value from the front, and return what follows it. -/
  decode : Bytes → Option (α × Bytes)
  /-- Whether a value is in the range of the type that is encoded. -/
  Fits : α → Prop
  /-- What has been written is read back. -/
  decode_encode : ∀ a, Fits a → ∀ rest, decode (encode a ++ rest) = some (a, rest)

namespace Codec

variable {α β : Type}

/-- `decode_from_slice`: what follows the value is ignored. -/
def decodeFromSlice (c : Codec α) (bytes : Bytes) : Option α := (c.decode bytes).map Prod.fst

section Laws

variable (c : Codec α) {a b : α} {rest rest' : Bytes}

/-- **Encodings can be told from what follows them.** -/
theorem append_inj (ha : c.Fits a) (hb : c.Fits b)
    (h : c.encode a ++ rest = c.encode b ++ rest') : a = b ∧ rest = rest' := by
  have hread := c.decode_encode a ha rest
  rw [h, c.decode_encode b hb rest'] at hread
  obtain ⟨hba, hrest⟩ := Prod.mk.inj (Option.some.inj hread)
  exact ⟨hba.symm, hrest.symm⟩

/-- Different values have different encodings. -/
theorem encode_inj (ha : c.Fits a) (hb : c.Fits b) (h : c.encode a = c.encode b) : a = b := by
  have happend : c.encode a ++ [] = c.encode b ++ [] := by rw [h]
  exact (c.append_inj ha hb happend).1

/-- What has been encoded is decoded, and nothing is left over. -/
@[simp] theorem decodeFromSlice_encode (ha : c.Fits a) :
    c.decodeFromSlice (c.encode a) = some a := by
  have hread := c.decode_encode a ha []
  rw [List.append_nil] at hread
  rw [decodeFromSlice, hread]
  rfl

end Laws

/-! ## Integers -/

/-- `k` bytes of a number, least significant byte first. -/
def toLE : ℕ → ℕ → Bytes
  | 0, _ => []
  | k + 1, n => UInt8.ofNat (n % 256) :: toLE k (n / 256)

/-- Read `k` bytes, least significant byte first. -/
def readLE : ℕ → Bytes → Option (ℕ × Bytes)
  | 0, bytes => some (0, bytes)
  | _ + 1, [] => none
  | k + 1, byte :: bytes => (readLE k bytes).map fun r => (byte.toNat + 256 * r.1, r.2)

/-- What is written in `k` bytes is read from them. -/
theorem readLE_toLE {k n : ℕ} (h : n < 256 ^ k) (rest : Bytes) :
    readLE k (toLE k n ++ rest) = some (n, rest) := by
  induction k generalizing n with
  | zero =>
      rw [Nat.pow_zero, Nat.lt_one_iff] at h
      rw [h]
      rfl
  | succ k ih =>
      have hdiv : n / 256 < 256 ^ k := by
        rw [Nat.div_lt_iff_lt_mul (by decide)]
        rwa [Nat.pow_succ] at h
      have hbyte : (UInt8.ofNat (n % 256)).toNat = n % 256 := by
        rw [UInt8.toNat_ofNat']
        exact Nat.mod_eq_of_lt (Nat.mod_lt n (by decide))
      simp only [toLE, List.cons_append, readLE, ih hdiv, Option.map_some, hbyte, Nat.mod_add_div]

/-- **The encoding of an integer**: one byte below 251, else a marker and the fewest of 2, 4 or 8
bytes that hold it. -/
def encodeVarint (n : ℕ) : Bytes :=
  if n < 251 then [UInt8.ofNat n]
  else if n < 2 ^ 16 then 251 :: toLE 2 n
  else if n < 2 ^ 32 then 252 :: toLE 4 n
  else 253 :: toLE 8 n

/-- Read an integer of a type of `width` bytes. Markers of wider integers are refused. -/
def decodeVarint (width : ℕ) : Bytes → Option (ℕ × Bytes)
  | [] => none
  | byte :: bytes =>
      if byte < 251 then some (byte.toNat, bytes)
      else if byte = 251 then readLE 2 bytes
      else if byte = 252 ∧ 4 ≤ width then readLE 4 bytes
      else if byte = 253 ∧ 8 ≤ width then readLE 8 bytes
      else none

/-- A variable-length integer is read back, whatever follows it. -/
theorem decodeVarint_encodeVarint {width n : ℕ} (hwidth : width = 4 ∨ width = 8)
    (h : n < 256 ^ width) (rest : Bytes) :
    decodeVarint width (encodeVarint n ++ rest) = some (n, rest) := by
  unfold encodeVarint
  by_cases hone : n < 251
  · have hbyte : (UInt8.ofNat n).toNat = n := by
      rw [UInt8.toNat_ofNat']
      omega
    have hlt : UInt8.ofNat n < 251 := by
      rw [UInt8.lt_iff_toNat_lt, hbyte]
      exact hone
    rw [if_pos hone, List.cons_append, decodeVarint, if_pos hlt, hbyte]
    rfl
  · rw [if_neg hone]
    by_cases htwo : n < 2 ^ 16
    · rw [if_pos htwo, List.cons_append, decodeVarint, if_neg (by decide), if_pos rfl]
      exact readLE_toLE (by omega) rest
    · rw [if_neg htwo]
      by_cases hfour : n < 2 ^ 32
      · have hwide : (252 : UInt8) = 252 ∧ 4 ≤ width := ⟨rfl, by omega⟩
        rw [if_pos hfour, List.cons_append, decodeVarint, if_neg (by decide), if_neg (by decide),
          if_pos hwide]
        exact readLE_toLE (by omega) rest
      · -- Only a type of eight bytes has such numbers.
        have height : width = 8 := by
          rcases hwidth with rfl | rfl
          · omega
          · rfl
        subst height
        rw [if_neg hfour, List.cons_append, decodeVarint, if_neg (by decide), if_neg (by decide),
          if_neg (by simp), if_pos ⟨rfl, by decide⟩]
        exact readLE_toLE h rest

/-- `u64`. -/
def u64 : Codec ℕ where
  encode := encodeVarint
  decode := decodeVarint 8
  Fits n := n < 2 ^ 64
  decode_encode _ h rest := decodeVarint_encodeVarint (.inr rfl) h rest

/-- `u32`. -/
def u32 : Codec UInt32 where
  encode n := encodeVarint n.toNat
  decode bytes := (decodeVarint 4 bytes).map fun r => (UInt32.ofNat r.1, r.2)
  Fits _ := True
  decode_encode n _ rest := by
    rw [decodeVarint_encodeVarint (.inl rfl) n.toNat_lt rest, Option.map_some, UInt32.ofNat_toNat]

/-! ## Structures, options, lists and strings -/

/-- Two fields, one after the other. -/
def pair (c : Codec α) (d : Codec β) : Codec (α × β) where
  encode p := c.encode p.1 ++ d.encode p.2
  decode bytes := (c.decode bytes).bind fun r => (d.decode r.2).map fun r' => ((r.1, r'.1), r'.2)
  Fits p := c.Fits p.1 ∧ d.Fits p.2
  decode_encode p h rest := by
    rw [List.append_assoc, c.decode_encode p.1 h.1, Option.bind_some, d.decode_encode p.2 h.2,
      Option.map_some]

/-- A structure that is written as a value of another type. -/
def as (c : Codec α) (toFields : β → α) (ofFields : α → β) (h : ∀ b, ofFields (toFields b) = b) :
    Codec β where
  encode b := c.encode (toFields b)
  decode bytes := (c.decode bytes).map fun r => (ofFields r.1, r.2)
  Fits b := c.Fits (toFields b)
  decode_encode b hb rest := by
    rw [c.decode_encode _ hb, Option.map_some, h]

/-- `Option`: a byte that tells whether there is a value. -/
def option (c : Codec α) : Codec (Option α) where
  encode
    | none => [0]
    | some a => 1 :: c.encode a
  decode
    | 0 :: bytes => some (none, bytes)
    | 1 :: bytes => (c.decode bytes).map fun r => (some r.1, r.2)
    | _ => none
  Fits a := ∀ b, a = some b → c.Fits b
  decode_encode a h rest := by
    cases a with
    | none => rfl
    | some b =>
        simp only [List.cons_append]
        rw [c.decode_encode b (h b rfl) rest, Option.map_some]

/-- Read `n` values, one after the other. -/
def decodeMany (c : Codec α) : ℕ → Bytes → Option (List α × Bytes)
  | 0, bytes => some ([], bytes)
  | n + 1, bytes =>
      (c.decode bytes).bind fun r => (decodeMany c n r.2).map fun r' => (r.1 :: r'.1, r'.2)

/-- So are values one after the other, by induction on their list. -/
theorem decodeMany_flatMap {c : Codec α} {as : List α} (h : ∀ a ∈ as, c.Fits a) (rest : Bytes) :
    decodeMany c as.length (as.flatMap c.encode ++ rest) = some (as, rest) := by
  induction as with
  | nil => rfl
  | cons a as ih =>
      have hrest := ih fun b hb => h b (List.mem_cons_of_mem _ hb)
      rw [List.flatMap_cons, List.length_cons, List.append_assoc, decodeMany,
        c.decode_encode a (h a List.mem_cons_self), Option.bind_some, hrest, Option.map_some]

/-- `Vec`: the number of elements, then the elements. -/
def vec (c : Codec α) : Codec (List α) where
  encode as := u64.encode as.length ++ as.flatMap c.encode
  decode bytes := (u64.decode bytes).bind fun r => decodeMany c r.1 r.2
  Fits as := u64.Fits as.length ∧ ∀ a ∈ as, c.Fits a
  decode_encode as h rest := by
    rw [List.append_assoc, u64.decode_encode _ h.1, Option.bind_some]
    exact decodeMany_flatMap h.2 rest

/-- The bytes of a string. -/
def stringBytes (s : String) : Bytes := s.toByteArray.data.toList

/-- `String`: the number of bytes, then the bytes, which have to be valid UTF-8. -/
def string : Codec String where
  encode s := u64.encode (stringBytes s).length ++ stringBytes s
  decode bytes := (u64.decode bytes).bind fun r =>
    if r.2.length < r.1 then none
    else (String.fromUTF8? ⟨(r.2.take r.1).toArray⟩).map fun s => (s, r.2.drop r.1)
  Fits s := u64.Fits (stringBytes s).length
  decode_encode s h rest := by
    have hlong : ¬ (stringBytes s ++ rest).length < (stringBytes s).length := by
      rw [List.length_append]
      omega
    have hbytes : (⟨(stringBytes s).toArray⟩ : ByteArray) = s.toByteArray := rfl
    rw [List.append_assoc, u64.decode_encode _ h, Option.bind_some, if_neg hlong,
      List.take_left' rfl, List.drop_left' rfl, hbytes, String.fromUTF8?]
    simp only [s.isValidUTF8, ↓reduceDIte, Option.map_some]
    rfl

/-! ## What an encoding begins with -/

/-- **The encoding of a pair** begins with that of its first component and with no other. -/
theorem begins_pair_iff (c : Codec α) (d : Codec β) {a : α} {p : α × β} (ha : c.Fits a)
    (hp : (c.pair d).Fits p) : c.encode a <+: (c.pair d).encode p ↔ p.1 = a := by
  constructor
  · rintro ⟨rest, hrest⟩
    exact (c.append_inj ha hp.1 hrest).1.symm
  · rintro rfl
    exact List.prefix_append _ _

end Codec

end AcceptXmr
