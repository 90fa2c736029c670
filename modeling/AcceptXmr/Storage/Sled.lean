import AcceptXmr.Library.Codec
import AcceptXmr.Storage.Store
import Std.Data.TreeMap.Lemmas

/-! # The Sled store

`library/src/storage/stores/sled.rs`: invoices in a tree of byte strings, each under the encoding of
its id. A `sled` tree is an atomic map that is ordered by its keys. Encodings are those of `bincode`
with its standard configuration; `Fits` says that a value is one of the source's machine types.

* **`Represents`** — the tree holds the invoices of a map and nothing else.
* **`Call.step_represents`** — every call keeps it, and answers what the map answers.
* **`sled_refines_map`** — so does every call after any sequence of calls. -/

namespace AcceptXmr

open scoped List

/-! ## Encodings -/

/-- `Encode` and `Decode` of a sub index. -/
def SubIndex.codec : Codec SubIndex :=
  (Codec.u32.pair .u32).as (fun s => (s.major, s.minor)) (fun p => ⟨p.1, p.2⟩) fun _ => rfl

/-- `Encode` and `Decode` of an invoice id. -/
def InvoiceId.codec : Codec InvoiceId :=
  (SubIndex.codec.pair .u64).as (fun id => (id.subIndex, id.creationHeight))
    (fun p => ⟨p.1, p.2⟩) fun _ => rfl

/-- `Encode` and `Decode` of a transfer. -/
def Transfer.codec : Codec Transfer :=
  (Codec.u64.pair (.option .u64)).as (fun t => (t.amount, t.height)) (fun p => ⟨p.1, p.2⟩)
    fun _ => rfl

/-- `Encode` and `Decode` of an invoice. -/
def Invoice.codec : Codec Invoice :=
  (Codec.string.pair <| SubIndex.codec.pair <| Codec.u64.pair <| Codec.u64.pair <| Codec.u64.pair <|
    (Codec.option .u64).pair <| Codec.u64.pair <| Codec.u64.pair <| Codec.u64.pair <|
    (Codec.vec Transfer.codec).pair .string).as
  -- The fields in the order of their declaration.
  (fun i => (i.address, i.index, i.creationHeight, i.amountRequested, i.amountPaid, i.paidHeight,
    i.confirmationsRequired, i.currentHeight, i.expirationHeight, i.transfers, i.description))
  (fun ⟨address, index, creationHeight, amountRequested, amountPaid, paidHeight,
      confirmationsRequired, currentHeight, expirationHeight, transfers, description⟩ =>
    ⟨address, index, creationHeight, amountRequested, amountPaid, paidHeight,
      confirmationsRequired, currentHeight, expirationHeight, transfers, description⟩)
  fun _ => rfl

/-- The id of an invoice fits if the invoice does. -/
theorem Invoice.fits_id {invoice : Invoice} (h : Invoice.codec.Fits invoice) :
    InvoiceId.codec.Fits invoice.id := by
  obtain ⟨-, hindex, hheight, -⟩ := h
  exact ⟨hindex, hheight⟩

/-- **The key of an invoice begins with the encoding of its sub index** and of no other. -/
theorem SubIndex.begins_id_iff {s : SubIndex} {id : InvoiceId} (h : InvoiceId.codec.Fits id) :
    SubIndex.codec.encode s <+: InvoiceId.codec.encode id ↔ id.subIndex = s :=
  Codec.begins_pair_iff SubIndex.codec .u64 ⟨trivial, trivial⟩ h

/-! ## Trees -/

/-- A `sled` tree. -/
abbrev SledTree := Std.TreeMap Bytes Bytes (List.compareLex compare)

namespace SledTree

/-- Write or delete the value of a key. -/
def set (self : SledTree) (key : Bytes) : Option Bytes → SledTree
  | some value => self.insert key value
  | none => self.erase key

/-- `Tree::compare_and_swap`: whether the key had the expected value, and was set. -/
def compareAndSwap (self : SledTree) (key : Bytes) (old new : Option Bytes) : Bool × SledTree :=
  if self[key]? = old then (true, self.set key new) else (false, self)

/-- `Tree::fetch_and_update`: the value before the update. -/
def fetchAndUpdate (self : SledTree) (key : Bytes) (f : Option Bytes → Option Bytes) :
    Option Bytes × SledTree :=
  (self[key]?, self.set key (f self[key]?))

/-- `Tree::scan_prefix`: the entries whose key begins with some bytes, in order. -/
def scanPrefix (self : SledTree) (bytes : Bytes) : List (Bytes × Bytes) :=
  self.toList.filter fun e => bytes.isPrefixOf e.1

/-- Setting a key changes the entry of that key only. -/
theorem getElem?_set (self : SledTree) (key : Bytes) (value : Option Bytes) (key' : Bytes) :
    (self.set key value)[key']? = if key = key' then value else self[key']? := by
  cases value with
  | some value => simp only [set, Std.TreeMap.getElem?_insert, Std.LawfulEqCmp.compare_eq_iff_eq]
  | none => simp only [set, Std.TreeMap.getElem?_erase, Std.LawfulEqCmp.compare_eq_iff_eq]

end SledTree

/-! ## `InvoiceStorage` -/

/-- An error occurring while storing or retrieving values from a `sled` database. -/
inductive SledStorageError where
  | duplicateInvoiceId
  | deserialize
  deriving DecidableEq, Repr

/-- The store, without its trees of output keys and heights. -/
structure Sled where
  invoices : SledTree

namespace Sled

/-- `bincode::decode_from_slice`. -/
def decode {α : Type} (c : Codec α) (bytes : Bytes) : Except SledStorageError α :=
  match c.decodeFromSlice bytes with
  | some a => .ok a
  | none => .error .deserialize

/-- Decode a value that may be absent. -/
def decodeOption : Option Bytes → Except SledStorageError (Option Invoice)
  | none => .ok none
  | some bytes => (decode Invoice.codec bytes).map some

/-- A store without invoices. -/
def empty : Sled := ⟨∅⟩

/-- `insert`. -/
def insert (invoice : Invoice) (self : Sled) : Except SledStorageError Unit × Sled :=
  match self.invoices.compareAndSwap (InvoiceId.codec.encode invoice.id) none
      (some (Invoice.codec.encode invoice)) with
  | (true, invoices) => (.ok (), ⟨invoices⟩)
  | (false, invoices) => (.error .duplicateInvoiceId, ⟨invoices⟩)

/-- `remove`. -/
def remove (id : InvoiceId) (self : Sled) : Except SledStorageError (Option Invoice) × Sled :=
  let key := InvoiceId.codec.encode id
  (decodeOption self.invoices[key]?, ⟨self.invoices.erase key⟩)

/-- `update`. An invoice that is not there is not created. -/
def update (invoice : Invoice) (self : Sled) : Except SledStorageError (Option Invoice) × Sled :=
  let (old, invoices) := self.invoices.fetchAndUpdate (InvoiceId.codec.encode invoice.id) fun old =>
    if old.isSome then some (Invoice.codec.encode invoice) else none
  (decodeOption old, ⟨invoices⟩)

/-- `get`. -/
def get (id : InvoiceId) (self : Sled) : Except SledStorageError (Option Invoice) :=
  decodeOption self.invoices[InvoiceId.codec.encode id]?

/-- `get_ids`. -/
def getIds (self : Sled) : Except SledStorageError (List InvoiceId) :=
  self.invoices.keys.mapM (decode InvoiceId.codec)

/-- `contains_sub_index`. -/
def containsSubIndex (index : SubIndex) (self : Sled) : Bool :=
  (self.invoices.scanPrefix (SubIndex.codec.encode index)).head?.isSome

/-- `try_for_each`, with the state of the closure. -/
def tryForEach {σ : Type} (f : σ → Except SledStorageError Invoice → Except SledStorageError σ)
    (init : σ) (self : Sled) : Except SledStorageError σ :=
  (self.invoices.toList.map fun row => decode Invoice.codec row.2).foldlM f init

/-- `is_empty`. -/
def isEmpty (self : Sled) : Bool := self.invoices.isEmpty

/-- What one invoice does to the lowest height. -/
def lower (lowest : Option ℕ) (invoice : Invoice) : Option ℕ :=
  match lowest with
  | some l => if l > invoice.currentHeight then some invoice.currentHeight else some l
  | none => some invoice.currentHeight

/-- `lowest_height`. -/
def lowestHeight : Sled → Except SledStorageError (Option ℕ) :=
  tryForEach (fun lowest invoiceOrErr => return lower lowest (← invoiceOrErr)) none

/-! ## The map a tree stands for -/

/-- A list of values of a function is the image of a list. -/
theorem exists_map_eq {α β : Type} {f : α → β} {P : α → Prop} {bs : List β}
    (h : ∀ b ∈ bs, ∃ a, P a ∧ f a = b) : ∃ as : List α, (∀ a ∈ as, P a) ∧ bs = as.map f := by
  induction bs with
  | nil => exact ⟨[], by simp, rfl⟩
  | cons b bs ih =>
      obtain ⟨a, ha, rfl⟩ := h b List.mem_cons_self
      obtain ⟨as, has, rfl⟩ := ih fun b' hb' => h b' (List.mem_cons_of_mem _ hb')
      exact ⟨a :: as, List.forall_mem_cons.mpr ⟨ha, has⟩, rfl⟩

/-- The entry of an invoice. -/
def entry (invoice : Invoice) : Bytes × Bytes :=
  (InvoiceId.codec.encode invoice.id, Invoice.codec.encode invoice)

/-- **A tree represents a map**: it has an entry for every invoice of the map and no other. -/
structure Represents (db : Sled) (map : Store) : Prop where
  fits : ∀ invoice ∈ map.invoices, Invoice.codec.Fits invoice
  entries : ∀ key value,
    db.invoices[key]? = some value ↔ ∃ invoice ∈ map.invoices, entry invoice = (key, value)

namespace Represents

variable {db : Sled} {map map' : Store}

/-- A new database holds the empty store. -/
theorem ofEmpty : Represents empty Store.empty where
  fits := by simp [Store.empty]
  entries := by simp [Store.empty, empty]

/-- **What is found under an id** is the encoding of what the map has there. -/
theorem getElem?_encode (h : Represents db map) {id : InvoiceId} (hid : InvoiceId.codec.Fits id) :
    db.invoices[InvoiceId.codec.encode id]? = (map.getInvoice id).map Invoice.codec.encode := by
  cases hget : map.getInvoice id with
  | some invoice =>
      obtain ⟨hmem, rfl⟩ := Store.mem_of_getInvoice hget
      exact (h.entries _ _).mpr ⟨invoice, hmem, rfl⟩
  | none =>
      rw [Option.map_none, Option.eq_none_iff_forall_ne_some]
      intro value hvalue
      obtain ⟨invoice, hmem, hentry⟩ := (h.entries _ _).mp hvalue
      -- The keys are encodings of ids, and those are injective.
      have hsame := InvoiceId.codec.encode_inj (Invoice.fits_id (h.fits invoice hmem)) hid
        (congrArg Prod.fst hentry)
      rw [← hsame, Store.getInvoice_of_mem hmem] at hget
      cases hget

/-- What stands under the key of an id is decoded as its invoice. -/
theorem decodeOption_getElem? (h : Represents db map) {id : InvoiceId}
    (hid : InvoiceId.codec.Fits id) :
    decodeOption db.invoices[InvoiceId.codec.encode id]? = .ok (map.getInvoice id) := by
  rw [h.getElem?_encode hid]
  cases hget : map.getInvoice id with
  | none => rfl
  | some invoice =>
      have hfits := h.fits invoice (Store.mem_of_getInvoice hget).1
      rw [Option.map_some, decodeOption, decode, Codec.decodeFromSlice_encode _ hfits]
      rfl

/-- **Setting the entry of an id** changes the map at that id. -/
theorem set (h : Represents db map) {id : InvoiceId} (hid : InvoiceId.codec.Fits id)
    (new : Option Invoice) (hnew : ∀ invoice, new = some invoice →
      Invoice.codec.Fits invoice ∧ invoice.id = id)
    (hmap : ∀ invoice, invoice ∈ map'.invoices ↔
      new = some invoice ∨ (invoice ∈ map.invoices ∧ invoice.id ≠ id)) :
    Represents ⟨db.invoices.set (InvoiceId.codec.encode id) (new.map Invoice.codec.encode)⟩ map' := by
  constructor
  · intro invoice hmem
    rcases (hmap invoice).mp hmem with hmem | ⟨hmem, -⟩
    · exact (hnew invoice hmem).1
    · exact h.fits invoice hmem
  · intro key value
    rw [SledTree.getElem?_set]
    by_cases hkey : InvoiceId.codec.encode id = key
    · rw [if_pos hkey, Option.map_eq_some_iff]
      constructor
      · rintro ⟨invoice, hinvoice, rfl⟩
        refine ⟨invoice, (hmap invoice).mpr (.inl hinvoice), ?_⟩
        rw [entry, (hnew invoice hinvoice).2, hkey]
      · rintro ⟨invoice, hmem, hentry⟩
        rcases (hmap invoice).mp hmem with hinvoice | ⟨hmem, hne⟩
        · exact ⟨invoice, hinvoice, congrArg Prod.snd hentry⟩
        · -- Another invoice has another id, hence another key.
          have hsame : InvoiceId.codec.encode invoice.id = InvoiceId.codec.encode id :=
            (congrArg Prod.fst hentry).trans hkey.symm
          exact absurd (InvoiceId.codec.encode_inj (Invoice.fits_id (h.fits invoice hmem)) hid hsame)
            hne
    · rw [if_neg hkey, h.entries]
      constructor
      · rintro ⟨invoice, hmem, hentry⟩
        refine ⟨invoice, (hmap invoice).mpr (.inr ⟨hmem, fun hsame => hkey ?_⟩), hentry⟩
        rw [← hsame]
        exact congrArg Prod.fst hentry
      · rintro ⟨invoice, hmem, hentry⟩
        rcases (hmap invoice).mp hmem with hinvoice | ⟨hmem, -⟩
        · have hkey' := congrArg Prod.fst hentry
          rw [entry, (hnew invoice hinvoice).2] at hkey'
          exact absurd hkey' hkey
        · exact ⟨invoice, hmem, hentry⟩

/-- **The entries of the tree** are those of the invoices, in some order. -/
theorem toList_eq (h : Represents db map) :
    ∃ invoices, invoices ~ map.invoices ∧ db.invoices.toList = invoices.map entry := by
  have hentries : ∀ e, e ∈ db.invoices.toList ↔ ∃ invoice ∈ map.invoices, entry invoice = e := by
    rintro ⟨key, value⟩
    rw [Std.TreeMap.mem_toList_iff_getElem?_eq_some, h.entries]
  have hnodup : (db.invoices.toList.map Prod.fst).Nodup := by
    rw [Std.TreeMap.map_fst_toList_eq_keys]
    exact Std.TreeMap.nodup_keys
  obtain ⟨invoices, hmem, heq⟩ := exists_map_eq fun e he => (hentries e).mp he
  refine ⟨invoices, ?_, heq⟩
  rw [heq, List.map_map] at hnodup
  rw [List.perm_ext_iff_of_nodup (List.Nodup.of_map _ hnodup) (List.Nodup.of_map _ map.nodupIds)]
  intro invoice
  refine ⟨hmem invoice, fun hin => ?_⟩
  have hin' := (hentries (entry invoice)).mpr ⟨invoice, hin, rfl⟩
  rw [heq] at hin'
  obtain ⟨other, hother, hsame⟩ := List.mem_map.mp hin'
  have hvalue := Invoice.codec.encode_inj (h.fits other (hmem other hother)) (h.fits invoice hin)
    (congrArg Prod.snd hsame)
  rwa [← hvalue]

/-! ### Operations on one entry -/

/-- Inserting an invoice under an id that is free. -/
theorem insert_ok (h : Represents db map) {invoice : Invoice} (hfits : Invoice.codec.Fits invoice)
    (hinsert : map.insertInvoice invoice = .ok map') :
    (db.insert invoice).1 = .ok () ∧ Represents (db.insert invoice).2 map' := by
  obtain ⟨hnew, hinvoices⟩ := Store.insertInvoice_ok hinsert
  have hother : ∀ other ∈ map.invoices, other.id ≠ invoice.id :=
    fun other hmem hsame => hnew (hsame ▸ List.mem_map_of_mem hmem)
  have hget : map.getInvoice invoice.id = none := by
    rw [Store.getInvoice, List.find?_eq_none]
    intro other hmem
    simpa using hother other hmem
  have hid := Invoice.fits_id hfits
  rw [Sled.insert, SledTree.compareAndSwap, h.getElem?_encode hid, hget, Option.map_none,
    if_pos rfl]
  refine ⟨rfl, h.set hid (some invoice) ?_ ?_⟩
  · rintro _ ⟨⟩
    exact ⟨hfits, rfl⟩
  · intro other
    rw [hinvoices, List.mem_append, List.mem_singleton, Option.some.injEq, or_comm, eq_comm]
    exact or_congr_right ⟨fun hmem => ⟨hmem, hother other hmem⟩, And.left⟩

/-- An id that is taken is refused, and nothing changes. -/
theorem insert_error (h : Represents db map) {invoice : Invoice}
    (hfits : Invoice.codec.Fits invoice) {e : StoreError}
    (hinsert : map.insertInvoice invoice = .error e) :
    db.insert invoice = (.error .duplicateInvoiceId, db) := by
  obtain ⟨old, hmem, hold⟩ := List.mem_map.mp (Store.mem_getIds_of_insertInvoice hinsert)
  have hget : map.getInvoice invoice.id = some old := by
    rw [← hold]
    exact Store.getInvoice_of_mem hmem
  rw [Sled.insert, SledTree.compareAndSwap, h.getElem?_encode (Invoice.fits_id hfits), hget,
    if_neg (by simp)]

/-- Removing a key removes the invoice. -/
theorem remove (h : Represents db map) {id : InvoiceId} (hid : InvoiceId.codec.Fits id) :
    Represents (db.remove id).2 (map.removeInvoice id) := by
  refine h.set hid none (by simp) fun invoice => ?_
  rw [Store.removeInvoice, List.mem_filter]
  simp

/-- **An update** returns the invoice that was there, and creates none. -/
theorem update (h : Represents db map) {invoice : Invoice} (hfits : Invoice.codec.Fits invoice) :
    (db.update invoice).1 = .ok (map.getInvoice invoice.id) ∧
      Represents (db.update invoice).2 (map.updateInvoice invoice) := by
  have hid := Invoice.fits_id hfits
  refine ⟨h.decodeOption_getElem? hid, ?_⟩
  have hset : (db.update invoice).2 = ⟨db.invoices.set (InvoiceId.codec.encode invoice.id)
      (((map.getInvoice invoice.id).map fun _ => invoice).map Invoice.codec.encode)⟩ := by
    simp only [Sled.update, SledTree.fetchAndUpdate, h.getElem?_encode hid]
    cases map.getInvoice invoice.id with
    | none => rfl
    | some old => rfl
  rw [hset]
  refine h.set hid _ ?_ fun stored => ?_
  · intro new hnew
    obtain ⟨old, -, rfl⟩ := Option.map_eq_some_iff.mp hnew
    exact ⟨hfits, rfl⟩
  · constructor
    · intro hmem
      rcases Store.mem_updateInvoice hmem with ⟨rfl, hold⟩ | hold
      · obtain ⟨old, hold, hsame⟩ := List.mem_map.mp hold
        rw [← hsame, Store.getInvoice_of_mem hold]
        exact .inl rfl
      · exact .inr hold
    · rintro (hnew | ⟨hmem, hne⟩)
      · obtain ⟨old, hold, rfl⟩ := Option.map_eq_some_iff.mp hnew
        obtain ⟨hmem, hsame⟩ := Store.mem_of_getInvoice hold
        exact Store.mem_updateInvoice_self (hsame ▸ List.mem_map_of_mem hmem)
      · exact List.mem_map.mpr ⟨stored, hmem, if_neg hne⟩

/-! ### Operations that go through the tree -/

/-- Values that have been encoded are all decoded. -/
theorem mapM_decode {α β : Type} (c : Codec α) (f : β → α) {bs : List β}
    (h : ∀ b ∈ bs, c.Fits (f b)) :
    (bs.map fun b => c.encode (f b)).mapM (decode c) = .ok (bs.map f) := by
  induction bs with
  | nil => rfl
  | cons b bs ih =>
      rw [List.forall_mem_cons] at h
      rw [List.map_cons, List.mapM_cons, decode, Codec.decodeFromSlice_encode _ h.1]
      simp only [ih h.2]
      rfl

/-- A closure that only stops at errors sees every invoice. -/
theorem foldlM_decode {σ : Type} (f : σ → Invoice → σ) (init : σ) {invoices : List Invoice}
    (h : ∀ invoice ∈ invoices, Invoice.codec.Fits invoice) :
    (invoices.map ((fun row => decode Invoice.codec row.2) ∘ entry)).foldlM
      (fun s invoiceOrErr => return f s (← invoiceOrErr)) init = .ok (invoices.foldl f init) := by
  induction invoices generalizing init with
  | nil => rfl
  | cons invoice invoices ih =>
      rw [List.forall_mem_cons] at h
      rw [List.map_cons, List.foldlM_cons, Function.comp_apply, decode, entry,
        Codec.decodeFromSlice_encode _ h.1]
      exact ih (f init invoice) h.2

/-- The ids are those of the map, in some order. -/
theorem getIds_eq (h : Represents db map) : ∃ ids, ids ~ map.getIds ∧ db.getIds = .ok ids := by
  obtain ⟨invoices, hperm, hlist⟩ := h.toList_eq
  refine ⟨invoices.map Invoice.id, hperm.map _, ?_⟩
  rw [getIds, ← Std.TreeMap.map_fst_toList_eq_keys, hlist, List.map_map]
  exact mapM_decode InvoiceId.codec Invoice.id fun invoice hmem =>
    Invoice.fits_id (h.fits invoice (hperm.mem_iff.mp hmem))

/-- **The scan of a sub index** finds an entry if some invoice has that index. -/
theorem containsSubIndex_eq (h : Represents db map) (index : SubIndex) :
    db.containsSubIndex index = Backend.exact.containsSubIndex map.invoices index := by
  obtain ⟨invoices, hperm, hlist⟩ := h.toList_eq
  rw [Bool.eq_iff_iff, containsSubIndex, SledTree.scanPrefix, hlist, List.isSome_head?,
    Backend.exact, List.any_eq_true]
  simp only [ne_eq, List.filter_eq_nil_iff, List.forall_mem_map, not_forall, not_not,
    List.isPrefixOf_iff_prefix, beq_iff_eq, exists_prop]
  constructor
  · rintro ⟨invoice, hmem, hbegins⟩
    have hin := hperm.mem_iff.mp hmem
    exact ⟨invoice, hin, (SubIndex.begins_id_iff (Invoice.fits_id (h.fits invoice hin))).mp hbegins⟩
  · rintro ⟨invoice, hin, hindex⟩
    exact ⟨invoice, hperm.mem_iff.mpr hin,
      (SubIndex.begins_id_iff (Invoice.fits_id (h.fits invoice hin))).mpr hindex⟩

/-- The tree is empty if there are no invoices. -/
theorem isEmpty_eq (h : Represents db map) : db.isEmpty = map.invoices.isEmpty := by
  obtain ⟨invoices, hperm, hlist⟩ := h.toList_eq
  rw [isEmpty, ← Std.TreeMap.isEmpty_toList, hlist, List.isEmpty_map, hperm.isEmpty_eq]

/-- The order of the invoices does not matter to the lowest height. -/
instance : RightCommutative lower where
  right_comm lowest i j := by
    cases lowest with
    | none => grind [lower]
    | some l => grind [lower]

/-- **The lowest height** is that of the map: every entry can be decoded. -/
theorem lowestHeight_eq (h : Represents db map) : db.lowestHeight = .ok map.lowestHeight := by
  obtain ⟨invoices, hperm, hlist⟩ := h.toList_eq
  have hfits : ∀ invoice ∈ invoices, Invoice.codec.Fits invoice :=
    fun invoice hmem => h.fits invoice (hperm.mem_iff.mp hmem)
  rw [lowestHeight, tryForEach, hlist, List.map_map]
  exact (foldlM_decode lower none hfits).trans (congrArg Except.ok (hperm.foldl_eq none))

end Represents

/-! ## Calls -/

/-- The calls of `InvoiceStorage`. Their arguments have the source's machine types. -/
inductive Call where
  | insert (invoice : {invoice : Invoice // Invoice.codec.Fits invoice})
  | remove (id : {id : InvoiceId // InvoiceId.codec.Fits id})
  | update (invoice : {invoice : Invoice // Invoice.codec.Fits invoice})
  | get (id : {id : InvoiceId // InvoiceId.codec.Fits id})
  | getIds
  | containsSubIndex (index : SubIndex)
  | isEmpty
  | lowestHeight

/-- What a call returns. -/
inductive Answer where
  | done (result : Except SledStorageError Unit)
  | invoice (result : Except SledStorageError (Option Invoice))
  | ids (result : Except SledStorageError (List InvoiceId))
  | bool (result : Except SledStorageError Bool)
  | height (result : Except SledStorageError (Option ℕ))

/-- Equal answers, where ids may be listed in any order. -/
inductive Answer.Same : Answer → Answer → Prop
  | refl (answer : Answer) : Same answer answer
  | ids {ids ids' : List InvoiceId} (h : ids ~ ids') : Same (.ids (.ok ids)) (.ids (.ok ids'))

/-- A call on the store. -/
def Call.run : Call → Sled → Answer × Sled
  | insert invoice, db => (.done (db.insert invoice.1).1, (db.insert invoice.1).2)
  | remove id, db => (.invoice (db.remove id.1).1, (db.remove id.1).2)
  | update invoice, db => (.invoice (db.update invoice.1).1, (db.update invoice.1).2)
  | get id, db => (.invoice (db.get id.1), db)
  | getIds, db => (.ids db.getIds, db)
  | containsSubIndex index, db => (.bool (.ok (db.containsSubIndex index)), db)
  | isEmpty, db => (.bool (.ok db.isEmpty), db)
  | lowestHeight, db => (.height db.lowestHeight, db)

/-- **A call on a map**: the behaviour that the store is to have. -/
def Call.onMap : Call → Store → Answer × Store
  | insert invoice, map =>
      match map.insertInvoice invoice.1 with
      | .ok map' => (.done (.ok ()), map')
      | .error _ => (.done (.error .duplicateInvoiceId), map)
  | remove id, map => (.invoice (.ok (map.getInvoice id.1)), map.removeInvoice id.1)
  | update invoice, map =>
      (.invoice (.ok (map.getInvoice invoice.1.id)), map.updateInvoice invoice.1)
  | get id, map => (.invoice (.ok (map.getInvoice id.1)), map)
  | getIds, map => (.ids (.ok map.getIds), map)
  | containsSubIndex index, map =>
      (.bool (.ok (Backend.exact.containsSubIndex map.invoices index)), map)
  | isEmpty, map => (.bool (.ok map.invoices.isEmpty), map)
  | lowestHeight, map => (.height (.ok map.lowestHeight), map)

/-- **One call** answers as the map does and keeps representing it. -/
theorem Call.step_represents {db : Sled} {map : Store} (h : Represents db map) (call : Call) :
    (call.run db).1.Same (call.onMap map).1 ∧ Represents (call.run db).2 (call.onMap map).2 := by
  cases call with
  | insert invoice =>
      simp only [run, onMap]
      cases hinsert : map.insertInvoice invoice.1 with
      | ok map' =>
          obtain ⟨hresult, hrep⟩ := h.insert_ok invoice.2 hinsert
          rw [hresult]
          exact ⟨.refl _, hrep⟩
      | error e =>
          rw [h.insert_error invoice.2 hinsert]
          exact ⟨.refl _, h⟩
  | remove id =>
      simp only [run, onMap, Sled.remove, h.decodeOption_getElem? id.2]
      exact ⟨.refl _, h.remove id.2⟩
  | update invoice =>
      simp only [run, onMap, (h.update invoice.2).1]
      exact ⟨.refl _, (h.update invoice.2).2⟩
  | get id =>
      simp only [run, onMap, Sled.get, h.decodeOption_getElem? id.2]
      exact ⟨.refl _, h⟩
  -- The tree lists ids in the order of their bytes, the map in its own.
  | getIds =>
      obtain ⟨ids, hperm, hids⟩ := h.getIds_eq
      simp only [run, onMap, hids]
      exact ⟨.ids hperm, h⟩
  | containsSubIndex index =>
      simp only [run, onMap, h.containsSubIndex_eq index]
      exact ⟨.refl _, h⟩
  | isEmpty =>
      simp only [run, onMap, h.isEmpty_eq]
      exact ⟨.refl _, h⟩
  | lowestHeight =>
      simp only [run, onMap, h.lowestHeight_eq]
      exact ⟨.refl _, h⟩

/-- The store after some calls. -/
def after (calls : List Call) (db : Sled) : Sled := calls.foldl (fun db call => (call.run db).2) db

/-- The map after some calls. -/
def mapAfter (calls : List Call) (map : Store) : Store :=
  calls.foldl (fun map call => (call.onMap map).2) map

/-- After any calls the trees hold what the store does. -/
theorem after_represents {db : Sled} {map : Store} (h : Represents db map) (calls : List Call) :
    Represents (after calls db) (mapAfter calls map) := by
  induction calls generalizing db map with
  | nil => exact h
  | cons call calls ih => exact ih (call.step_represents h).2

/-- **The Sled store refines a map**: after any calls, the next call answers as it would on a map
that had received the same calls. -/
theorem sled_refines_map (calls : List Call) (call : Call) :
    (call.run (after calls empty)).1.Same (call.onMap (mapAfter calls Store.empty)).1 :=
  (call.step_represents (after_represents .ofEmpty calls)).1

end Sled

end AcceptXmr
