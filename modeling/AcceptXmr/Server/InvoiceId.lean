import AcceptXmr.Invoice.Integer
import AcceptXmr.Library.Base64

/-! # Invoice ids as texts

`server/src/server/api/types/invoice_id.rs`: an invoice's id is given out as its integer, big-endian,
in base64. The engine of the `base64` crate is a parameter; `UrlSafeNoPad` is what it is documented to
do.

* **`invoice_ids_encoded`** — ids, their integers and their texts correspond one to one. -/

namespace AcceptXmr

open BigEndian

/-- An engine of the `base64` crate, with its `DecodeError`. -/
structure Base64Engine (DecodeError : Type) where
  encode : Bytes → Text
  decode : Text → Except DecodeError Bytes

/-- The engine `URL_SAFE_NO_PAD`: the digits of the URL-safe alphabet without padding. Texts with other
characters, padding or spare bits that are not zero are refused. -/
structure Base64Engine.UrlSafeNoPad {DecodeError : Type} (engine : Base64Engine DecodeError) :
    Prop where
  encode_eq : ∀ bytes, engine.encode bytes = Base64.encode bytes
  decode_eq_ok_iff : ∀ text bytes,
    engine.decode text = .ok bytes ↔ Base64.decode text = some bytes

variable {DecodeError : Type}

/-- An error parsing an invoice id. -/
inductive InvoiceIdParseError (DecodeError : Type) where
  | tooLong (length : ℕ)
  | tooShort (length : ℕ)
  | invalidCharacters (e : DecodeError)
  deriving DecidableEq, Repr

/-- An un-padded URL-safe base64 encoded invoice id. -/
structure Base64InvoiceId where
  text : Text
  deriving DecidableEq, Repr

/-- `From<InvoiceId> for Base64InvoiceId`. -/
def Base64InvoiceId.ofId (engine : Base64Engine DecodeError) (value : InvoiceId) :
    Base64InvoiceId :=
  ⟨engine.encode (toBE 16 value.toU128)⟩

/-- `invoice_id_from_str`. -/
def invoiceIdFromStr (engine : Base64Engine DecodeError) (value : Text) :
    Except (InvoiceIdParseError DecodeError) InvoiceId :=
  match engine.decode value with
  | .error e => .error (.invalidCharacters e)
  | .ok bytes =>
      if bytes.length > 16 then .error (.tooLong bytes.length)
      else if bytes.length < 16 then .error (.tooShort bytes.length)
      else .ok (.ofU128 (ofBE (bytes.take 16)))

/-- `TryFrom<Base64InvoiceId> for InvoiceId`. -/
def Base64InvoiceId.toId (engine : Base64Engine DecodeError) (value : Base64InvoiceId) :
    Except (InvoiceIdParseError DecodeError) InvoiceId :=
  invoiceIdFromStr engine value.text

section Engine

variable {engine : Base64Engine DecodeError}

/-- An id is parsed from the bytes of its integer and from no others. -/
theorem invoiceIdFromStr_eq_ok_iff {value : Text} {id : InvoiceId} :
    invoiceIdFromStr engine value = .ok id ↔
      ∃ bytes, engine.decode value = .ok bytes ∧ bytes.length = 16 ∧ id = .ofU128 (ofBE bytes) := by
  unfold invoiceIdFromStr
  cases engine.decode value with
  | error e => simp
  | ok bytes =>
      simp only [Except.ok.injEq, exists_eq_left']
      by_cases hlength : bytes.length = 16
      · rw [if_neg (by omega), if_neg (by omega), List.take_of_length_le hlength.le]
        simp [hlength, eq_comm]
      · refine iff_of_false (fun h => ?_) fun h => hlength h.1
        split at h
        · cases h
        · split at h
          · cases h
          · omega

/-- **An id is parsed from its text.** -/
theorem toId_ofId (h : engine.UrlSafeNoPad) {id : InvoiceId} (hid : id.Fits) :
    (Base64InvoiceId.ofId engine id).toId engine = .ok id := by
  refine invoiceIdFromStr_eq_ok_iff.mpr ⟨toBE 16 id.toU128, ?_, length_toBE 16 _, ?_⟩
  · rw [h.decode_eq_ok_iff, Base64InvoiceId.ofId, h.encode_eq, Base64.decode_encode]
  · have hlt : id.toU128 < 256 ^ 16 := by
      have hlt := id.toU128_lt
      simpa only [u128Size, Nat.reducePow] using hlt
    rw [ofBE_toBE hlt, InvoiceId.ofU128_toU128 hid]

/-- **What has been parsed is the text of its id.** -/
theorem text_of_invoiceIdFromStr (h : engine.UrlSafeNoPad) {value : Text} {id : InvoiceId}
    (hparse : invoiceIdFromStr engine value = .ok id) :
    (Base64InvoiceId.ofId engine id).text = value := by
  obtain ⟨bytes, hbytes, hlength, rfl⟩ := invoiceIdFromStr_eq_ok_iff.mp hparse
  have hlt : ofBE bytes < u128Size := by
    have hlt := ofBE_lt bytes
    rw [hlength] at hlt
    simpa only [u128Size, Nat.reducePow] using hlt
  have hback : toBE 16 (ofBE bytes) = bytes := by
    rw [← hlength, toBE_ofBE]
  rw [Base64InvoiceId.ofId, InvoiceId.toU128_ofU128 hlt, hback, h.encode_eq]
  exact Base64.encode_of_decode ((h.decode_eq_ok_iff value bytes).mp hbytes)

/-- **Ids, integers and texts correspond one to one.** The conversions between ids and integers are
inverse to each other and keep the order; the text of an id is parsed to the id; and a text from which
an id is parsed is the text of that id, so that no two texts name the same invoice. -/
theorem invoice_ids_encoded (h : engine.UrlSafeNoPad) :
    (∀ id : InvoiceId, id.Fits → id.toU128 < u128Size ∧ InvoiceId.ofU128 id.toU128 = id) ∧
    (∀ n < u128Size, (InvoiceId.ofU128 n).Fits ∧ (InvoiceId.ofU128 n).toU128 = n) ∧
    (∀ a b : InvoiceId, a.Fits → b.Fits → a.cmp b = compare a.toU128 b.toU128) ∧
    (∀ id : InvoiceId, id.Fits → (Base64InvoiceId.ofId engine id).toId engine = .ok id) ∧
    (∀ value id, invoiceIdFromStr engine value = .ok id →
      (Base64InvoiceId.ofId engine id).text = value) ∧
    ∀ value value' id, invoiceIdFromStr engine value = .ok id →
      invoiceIdFromStr engine value' = .ok id → value = value' := by
  refine ⟨fun id hid => ⟨id.toU128_lt, InvoiceId.ofU128_toU128 hid⟩,
    fun n hn => ⟨InvoiceId.fits_ofU128 n, InvoiceId.toU128_ofU128 hn⟩,
    fun a b ha hb => InvoiceId.cmp_eq_compare ha hb, fun id hid => toId_ofId h hid,
    fun value id hparse => text_of_invoiceIdFromStr h hparse, fun value value' id hparse hparse' => ?_⟩
  rw [← text_of_invoiceIdFromStr h hparse, text_of_invoiceIdFromStr h hparse']

end Engine

/-- An engine made of the functions of the library. -/
def libraryEngine : Base64Engine Unit where
  encode := Base64.encode
  decode text :=
    match Base64.decode text with
    | some bytes => .ok bytes
    | none => .error ()

theorem libraryEngine_urlSafeNoPad : libraryEngine.UrlSafeNoPad where
  encode_eq _ := rfl
  decode_eq_ok_iff text bytes := by
    simp only [libraryEngine]
    cases Base64.decode text with
    | none => simp
    | some bytes' => simp

/-- The id of subaddress `0/73` at height 2477657, whose text is `AAAAAAAAAEkAAAAAACXOWQ`. -/
theorem invoice_ids_encoded_example :
    InvoiceId.ofU128 (InvoiceId.mk ⟨0, 73⟩ 2477657).toU128 = ⟨⟨0, 73⟩, 2477657⟩ ∧
    (Base64InvoiceId.ofId libraryEngine ⟨⟨0, 73⟩, 2477657⟩).text
      = "AAAAAAAAAEkAAAAAACXOWQ".toList ∧
    (Base64InvoiceId.ofId libraryEngine ⟨⟨0, 73⟩, 2477657⟩).toId libraryEngine
      = .ok ⟨⟨0, 73⟩, 2477657⟩ := by
  obtain ⟨hinteger, -, -, htext, -⟩ := invoice_ids_encoded libraryEngine_urlSafeNoPad
  have hfits : (InvoiceId.mk ⟨0, 73⟩ 2477657).Fits := show 2477657 < u64Size by decide
  exact ⟨(hinteger _ hfits).2, by decide, htext _ hfits⟩

end AcceptXmr
