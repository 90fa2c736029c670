import AcceptXmr.Library.AssocMap
import AcceptXmr.Library.KeyedTable
import AcceptXmr.Storage.Sled
import AcceptXmr.Storage.StoredInvoiceId

/-! # The tables of the Sqlite store

`library/src/storage/stores/sqlite.rs` down to its tables: what the statements bind to their
parameters, which rows they single out, and how the columns of these rows are decoded. Sub indexes are
stored as `i64`, creation heights as big-endian bytes, everything else in the encodings of `bincode`.
A full scan may visit the rows in any order. The database may fail at any statement, in or out of a
transaction.

* **`Represents`** — the tables hold the contents of a store and nothing else.
* **`Represents.find?_invoices`**, **`Represents.scan_eq`** — what a lookup and a full scan find. -/

namespace AcceptXmr

open BigEndian

open scoped List

/-! ## Encodings -/

/-- `u8`. -/
def Codec.u8 : Codec ℕ where
  encode n := [UInt8.ofNat n]
  decode
    | [] => none
    | byte :: bytes => some (byte.toNat, bytes)
  Fits n := n < 256
  decode_encode n h rest := by
    show some ((UInt8.ofNat n).toNat, rest) = some (n, rest)
    rw [UInt8.toNat_ofNat', Nat.mod_eq_of_lt h]

/-- `[u8; 32]`. -/
def Codec.bytes32 : Codec (BitVec 256) where
  encode b := toBE 32 b.toNat
  decode bytes :=
    if bytes.length < 32 then none else some (BitVec.ofNat 256 (ofBE (bytes.take 32)), bytes.drop 32)
  Fits _ := True
  decode_encode b _ rest := by
    have hlength : (toBE 32 b.toNat).length = 32 := length_toBE 32 _
    have hlong : ¬ (toBE 32 b.toNat ++ rest).length < 32 := by
      rw [List.length_append, hlength]
      omega
    have hread : ofBE (toBE 32 b.toNat) = b.toNat := ofBE_toBE b.isLt
    rw [if_neg hlong, List.take_left' hlength, List.drop_left' hlength, hread, BitVec.ofNat_toNat,
      BitVec.setWidth_eq]

/-- `Encode` and `Decode` of an output id. -/
def OutputId.codec : Codec OutputId :=
  (Codec.bytes32.pair .u8).as (fun id => (id.txHash, id.index)) (fun p => ⟨p.1, p.2⟩) fun _ => rfl

/-- `From<OutputPubKey> for Value`. -/
def OutputPubKey.toBytes (self : OutputPubKey) : Bytes := toBE 32 self.bytes.toNat

/-- Different keys of outputs have different bytes. -/
theorem OutputPubKey.toBytes_inj {key key' : OutputPubKey} (h : key.toBytes = key'.toBytes) :
    key = key' := by
  obtain ⟨bytes⟩ := key
  obtain ⟨bytes'⟩ := key'
  have hread : ofBE (toBE 32 bytes.toNat) = ofBE (toBE 32 bytes'.toNat) := congrArg ofBE h
  rw [ofBE_toBE bytes.isLt, ofBE_toBE bytes'.isLt, BitVec.toNat_inj] at hread
  rw [hread]

/-! ## Tables -/

/-- The columns of the primary key of an invoice. -/
abbrev InvoiceKey := Int64 × Int64 × Bytes

/-- The tables that `Sqlite::new` creates. -/
structure SqliteTables where
  /-- `invoice` by `major_subindex`, `minor_subindex` and `creation_height`. -/
  invoices : KeyedTable InvoiceKey Bytes
  /-- `output_id` by `output_key`. -/
  outputKeys : KeyedTable Bytes Bytes
  /-- `height` by `id`. -/
  height : KeyedTable Int64 Bytes

namespace SqliteTables

open Sqlite (Fault boundValues rowResults readRows passRow)

/-- The tables of a new database. -/
def empty : SqliteTables := ⟨.empty, .empty, .empty⟩

/-- The points at which the database can fail in a call. -/
structure Faults where
  /-- `BEGIN`. -/
  start : Fault := none
  /-- A query, until its last row has been read. -/
  query : Fault := none
  /-- What the statement of `get_ids` steps to, if not each row once. -/
  rows : Option (List (Except (Failure SqliteStorageError) ℕ)) := none
  /-- Preparing the statement that writes. -/
  prepare : Fault := none
  /-- Executing it. -/
  write : Fault := none
  /-- Reading the row that a deletion returns. -/
  read : Option SqliteStorageError := none
  /-- `COMMIT`, or the end of a deletion. -/
  commit : Fault := none

/-- The same failures of a call on a store. -/
def Faults.onStore (self : Faults) : Sqlite.Faults where
  start := self.start
  prepare := self.prepare
  query := self.query
  rows := self.rows
  write := self.write
  read := self.read
  commit := self.commit

/-- An order in which a scan visits the invoices. -/
abbrev ScanOrder := IterOrder (InvoiceKey × Bytes)

/-- `bincode::decode_from_slice`. -/
def decode {α : Type} (c : Codec α) (bytes : Bytes) : Except SqliteStorageError α :=
  match c.decodeFromSlice bytes with
  | some a => .ok a
  | none => .error .deserialize

/-- Decode a column, if there is a row. -/
def decodeOption {α : Type} (c : Codec α) : Option Bytes → Except SqliteStorageError (Option α)
  | none => .ok none
  | some bytes => (decode c bytes).map some

/-- A `SELECT` with the decoding of what it finds. -/
def select {α : Type} (read : SqliteTables → Except SqliteStorageError α) (faults : Faults)
    (c : Connection SqliteTables) : Except SqliteStorageError α × Connection SqliteTables :=
  match faults.query with
  | some failure => (.error failure.error, c.fail failure)
  | none => (read c.working, c)

/-- An `INSERT`. An error of the statement itself is not looked at: all that counts is whether
`change_count` answers that no row has changed. -/
def insertRow (duplicate : SqliteStorageError) (insert : SqliteTables → Option SqliteTables)
    (faults : Faults) (c : Connection SqliteTables) :
    Except SqliteStorageError Unit × Connection SqliteTables :=
  match faults.prepare with
  | some failure => (.error failure.error, c.fail failure)
  | none =>
      match faults.write with
      | some failure =>
          -- A statement that has not begun has not counted yet. It is dropped at the end.
          let failed := c.failWrite failure
          (if failed.changes = 0 then .error duplicate else .ok (), failed.counted 0)
      | none =>
          match insert c.working with
          | none => (.error duplicate, c.counted 0)
          | some tables => (.ok (), ((c.write fun _ => tables).counted 1).finish)

/-! ### `InvoiceStorage` -/

/-- `insert` of an invoice. -/
def insertInvoice (invoice : Invoice) :
    Faults → Connection SqliteTables → Except SqliteStorageError Unit × Connection SqliteTables :=
  insertRow .duplicateInvoice fun tables =>
    (tables.invoices.insert (boundValues invoice.id) (Invoice.codec.encode invoice)).map
      fun invoices => { tables with invoices := invoices }

/-- `get` of an invoice. -/
def getInvoice (id : InvoiceId) :=
  select fun tables => decodeOption Invoice.codec (tables.invoices.find? (boundValues id))

/-- `remove`. The row is decoded when it is gone. -/
def remove (id : InvoiceId) (faults : Faults) (c : Connection SqliteTables) :
    Except SqliteStorageError (Option Invoice) × Connection SqliteTables :=
  match faults.prepare with
  | some failure => (.error failure.error, c.fail failure)
  | none =>
      match faults.write with
      | some failure => (.error failure.error, (c.failWrite failure).counted 0)
      | none =>
          match c.working.invoices.find? (boundValues id) with
          | none => (.ok none, c.counted 0)
          | some invoiceBytes =>
              let deleted := (c.write fun tables =>
                { tables with invoices := tables.invoices.delete (boundValues id) }).counted 1
              match faults.read with
              | some e => (.error e, deleted.finish)
              | none =>
                  match faults.commit with
                  | some failure => (.error failure.error,
                      (if c.inTransaction then deleted.fail failure else deleted.rollBack).counted 0)
                  | none => ((decode Invoice.codec invoiceBytes).map some, deleted.finish)

/-- `update`. The arm with the `ROLLBACK` is not reached. -/
def update (invoice : Invoice) (faults : Faults) (c : Connection SqliteTables) :
    Except SqliteStorageError (Option Invoice) × Connection SqliteTables :=
  let value := Invoice.codec.encode invoice
  match faults.start, c.beginTransaction with
  | some failure, _ => (.error failure.error, c.fail failure)
  | none, none => (.error .database, c)
  | none, some c =>
      match getInvoice invoice.id faults c with
      | (.error e, c) => (.error e, c)
      | (.ok none, c) => (.ok none, c)
      | (.ok (some old), c) =>
          match faults.prepare with
          | some failure => (.error failure.error, c.fail failure)
          | none =>
              match faults.write with
              | some failure => (.error failure.error, (c.failWrite failure).counted 0)
              | none =>
                  let updated := (c.write fun tables =>
                    { tables with invoices := tables.invoices.set (boundValues invoice.id) value }).counted 1
                  match faults.commit with
                  | some failure => (.error failure.error, updated.fail failure)
                  | none => (.ok (some old), updated.commit)

/-- The primary key of each row that a scan reads. -/
def keyRows (rows : List (Except (Failure SqliteStorageError) (InvoiceKey × Bytes))) :
    List (Except Unit InvoiceKey) :=
  rows.map fun row => (row.map Prod.fst).mapError fun _ => ()

/-- `get_ids`; none where it panics. -/
def getIds (scan : ScanOrder) (faults : Faults) (c : Connection SqliteTables) :
    Option (Except SqliteStorageError (List InvoiceId)) × Connection SqliteTables :=
  match faults.query with
  | some failure => (some (.error failure.error), c.fail failure)
  | none =>
      let table := c.working.invoices.rows
      let rows := rowResults faults.rows table (scan.order table)
      (Sqlite.getIdsOf Sqlite.columns (.ok (keyRows rows)), rows.foldl passRow c)

/-- `contains_sub_index`. -/
def containsSubIndex (index : SubIndex) := select fun tables =>
  let count := tables.invoices.rows.countP fun row =>
    decide (row.1.1 = i64From index.major ∧ row.1.2.1 = i64From index.minor)
  .ok (decide (count > 0))

/-- `try_for_each`, with the state of the closure. -/
def tryForEach {σ : Type}
    (f : σ → Except SqliteStorageError Invoice → Except SqliteStorageError σ) (init : σ)
    (scan : ScanOrder) := select fun tables =>
  ((scan.order tables.invoices.rows).map fun row => decode Invoice.codec row.2).foldlM f init

/-- `is_empty`, by `SELECT EXISTS`. -/
def isEmpty := select fun tables =>
  let exist : Int64 := if tables.invoices.rows = [] then 0 else 1
  .ok (decide (exist = 0))

/-- `lowest_height`. -/
def lowestHeight :=
  tryForEach (fun lowest invoiceOrErr => return Sled.lower lowest (← invoiceOrErr)) none

/-! ### `OutputKeyStorage` and `HeightStorage` -/

/-- `insert` of an output key. -/
def insertOutputKey (key : OutputPubKey) (outputId : OutputId) :
    Faults → Connection SqliteTables → Except SqliteStorageError Unit × Connection SqliteTables :=
  insertRow .duplicateOutputKey fun tables =>
    (tables.outputKeys.insert key.toBytes (OutputId.codec.encode outputId)).map
      fun outputKeys => { tables with outputKeys := outputKeys }

/-- `get` of an output key. -/
def getOutputKey (key : OutputPubKey) :=
  select fun tables => decodeOption OutputId.codec (tables.outputKeys.find? key.toBytes)

/-- `get` of the height. -/
def getHeight := select fun tables => decodeOption Codec.u64 (tables.height.find? 0)

/-- `upsert` of the height. -/
def upsert (height : ℕ) (faults : Faults) (c : Connection SqliteTables) :
    Except SqliteStorageError (Option ℕ) × Connection SqliteTables :=
  let encodedHeight := Codec.u64.encode height
  match faults.start, c.beginTransaction with
  | some failure, _ => (.error failure.error, c.fail failure)
  | none, none => (.error .database, c)
  | none, some c =>
      match getHeight faults c with
      | (.error e, c) => (.error e, c)
      | (.ok oldHeight, c) =>
          match faults.prepare with
          | some failure => (.error failure.error, c.fail failure)
          | none =>
              match faults.write with
              | some failure => (.error failure.error, (c.failWrite failure).counted 0)
              | none =>
                  let updated := (c.write fun tables =>
                    { tables with height := tables.height.upsert 0 encodedHeight }).counted 1
                  match faults.commit with
                  | some failure => (.error failure.error, updated.fail failure)
                  | none => (.ok oldHeight, updated.commit)

/-! ## The store that tables hold -/

/-- The row of an invoice. -/
def row (invoice : Invoice) : InvoiceKey × Bytes :=
  (boundValues invoice.id, Invoice.codec.encode invoice)

/-- **What the tables hold** of a store. -/
structure Represents (tables : SqliteTables) (store : Store) : Prop where
  fits : ∀ invoice ∈ store.invoices, Invoice.codec.Fits invoice
  invoices : tables.invoices.Lists row store.invoices
  fitsOutputIds : ∀ key outputId, store.outputKeys key = some outputId → OutputId.codec.Fits outputId
  outputKeys : ∀ key : OutputPubKey,
    tables.outputKeys.find? key.toBytes = (store.outputKeys key).map OutputId.codec.encode
  fitsHeight : ∀ height, store.height = some height → Codec.u64.Fits height
  height : tables.height.find? 0 = store.height.map Codec.u64.encode

/-- An encoded column is decoded. -/
theorem decodeOption_map {α : Type} (c : Codec α) {a : Option α} (h : ∀ b, a = some b → c.Fits b) :
    decodeOption c (a.map c.encode) = .ok a := by
  cases a with
  | none => rfl
  | some b =>
      rw [Option.map_some, decodeOption, decode, Codec.decodeFromSlice_encode _ (h b rfl)]
      rfl

/-- Different sub indexes are different integers in the tables. -/
theorem i64From_inj {m n : UInt32} : i64From m = i64From n ↔ m = n := by
  refine ⟨fun h => ?_, congrArg i64From⟩
  have hm : u32TryFrom (i64From m) = some m := u32TryFrom_eq_some_iff.mpr rfl
  have hn : u32TryFrom (i64From m) = some n := u32TryFrom_eq_some_iff.mpr h
  exact Option.some.inj (hm.symm.trans hn)

/-- An id is known by what is bound for it. -/
theorem boundValues_inj {id id' : InvoiceId} (h : id.Fits) (h' : id'.Fits)
    (heq : boundValues id = boundValues id') : id = id' := by
  obtain ⟨⟨major, minor⟩, height⟩ := id
  obtain ⟨⟨major', minor'⟩, height'⟩ := id'
  simp only [boundValues, Prod.mk.injEq] at heq
  obtain ⟨hmajor, hminor, hheight⟩ := heq
  have hread : ofBE (toBE 8 height) = ofBE (toBE 8 height') := congrArg ofBE hheight
  rw [ofBE_toBE h, ofBE_toBE h'] at hread
  rw [i64From_inj.mp hmajor, i64From_inj.mp hminor, hread]

/-- The id of an invoice that can be encoded can be encoded. -/
theorem fits_id {invoice : Invoice} (h : Invoice.codec.Fits invoice) : invoice.id.Fits :=
  (Invoice.fits_id h).2

namespace Represents

variable {tables : SqliteTables} {store store' : Store}

/-- New tables hold the empty store. -/
theorem empty : Represents empty Store.empty where
  fits := nofun
  invoices := KeyedTable.lists_empty row
  fitsOutputIds := nofun
  outputKeys _ := rfl
  fitsHeight := nofun
  height := rfl

/-- The rows with the key of an id are those of invoices with that id. -/
theorem key_iff (h : Represents tables store) {id : InvoiceId} (hid : id.Fits) :
    ∀ invoice ∈ store.invoices, (row invoice).1 = boundValues id ↔ decide (invoice.id = id) = true := by
  intro invoice hmem
  rw [decide_eq_true_eq]
  refine ⟨boundValues_inj (fits_id (h.fits invoice hmem)) hid, ?_⟩
  rintro rfl
  rfl

/-- **What is found under an id.** -/
theorem find?_invoices (h : Represents tables store) {id : InvoiceId} (hid : id.Fits) :
    tables.invoices.find? (boundValues id) = (store.getInvoice id).map Invoice.codec.encode :=
  h.invoices.find? (h.key_iff hid)

/-- The row of an invoice is decoded as the invoice. -/
theorem decode_invoice (h : Represents tables store) (id : InvoiceId) :
    decodeOption Invoice.codec ((store.getInvoice id).map Invoice.codec.encode)
      = .ok (store.getInvoice id) :=
  decodeOption_map Invoice.codec fun invoice hget => h.fits invoice (Store.mem_of_getInvoice hget).1

/-- Other invoices, with the output keys and the height as they were. -/
theorem withInvoices (h : Represents tables store) {invoices : KeyedTable InvoiceKey Bytes}
    (hfits : ∀ invoice ∈ store'.invoices, Invoice.codec.Fits invoice)
    (hlists : invoices.Lists row store'.invoices) (houtputKeys : store'.outputKeys = store.outputKeys)
    (hheight : store'.height = store.height) : Represents { tables with invoices := invoices } store' where
  fits := hfits
  invoices := hlists
  fitsOutputIds := houtputKeys ▸ h.fitsOutputIds
  outputKeys := houtputKeys ▸ h.outputKeys
  fitsHeight := hheight ▸ h.fitsHeight
  height := hheight ▸ h.height

/-- A row is inserted exactly if the store takes the invoice, and then holds it. -/
theorem insertInvoice (h : Represents tables store) {invoice : Invoice}
    (hfits : Invoice.codec.Fits invoice) :
    match store.insertInvoice invoice with
    | .ok store' => ∃ invoices, tables.invoices.insert (boundValues invoice.id)
        (Invoice.codec.encode invoice) = some invoices ∧
          Represents { tables with invoices := invoices } store'
    | .error _ => tables.invoices.insert (boundValues invoice.id) (Invoice.codec.encode invoice) = none := by
  cases hinsert : store.insertInvoice invoice with
  | error e =>
      obtain ⟨old, hold, hid⟩ := List.mem_map.mp (Store.mem_getIds_of_insertInvoice hinsert)
      have hkey : (row old).1 = (row invoice).1 := congrArg boundValues hid
      exact h.invoices.insert_none hold hkey
  | ok store' =>
      obtain ⟨hnew, hinvoices⟩ := Store.insertInvoice_ok hinsert
      have hkeys : ∀ old ∈ store.invoices, (row old).1 ≠ (row invoice).1 := by
        intro old hold heq
        have hid := boundValues_inj (fits_id (h.fits old hold)) (fits_id hfits) heq
        exact hnew (hid ▸ List.mem_map_of_mem hold)
      obtain ⟨invoices, hrow, hlists⟩ := h.invoices.insert_some hkeys
      refine ⟨invoices, hrow, h.withInvoices (fun new hmem => ?_) (hinvoices ▸ hlists)
        (Store.outputKeys_insertInvoice hinsert) (Store.height_insertInvoice hinsert)⟩
      rw [hinvoices, List.mem_append, List.mem_singleton] at hmem
      rcases hmem with hmem | rfl
      · exact h.fits new hmem
      · exact hfits

/-- The row of an id is deleted as its invoice is removed. -/
theorem removeInvoice (h : Represents tables store) {id : InvoiceId} (hid : id.Fits) :
    Represents { tables with invoices := tables.invoices.delete (boundValues id) }
      (store.removeInvoice id) := by
  refine h.withInvoices (fun invoice hmem => h.fits invoice (List.mem_of_mem_filter hmem)) ?_ rfl rfl
  have hlists := h.invoices.delete (h.key_iff hid)
  simpa only [Store.removeInvoice, decide_not] using hlists

/-- A row is replaced as its invoice is. -/
theorem updateInvoice (h : Represents tables store) {invoice : Invoice}
    (hfits : Invoice.codec.Fits invoice) :
    Represents { tables with
      invoices := tables.invoices.set (boundValues invoice.id) (Invoice.codec.encode invoice) }
      (store.updateInvoice invoice) := by
  refine h.withInvoices (fun new hmem => ?_) ?_ rfl rfl
  · rcases Store.mem_updateInvoice hmem with ⟨rfl, -⟩ | ⟨hold, -⟩
    · exact hfits
    · exact h.fits new hold
  · have hlists := h.invoices.set (h.key_iff (fits_id hfits)) (rfl : (row invoice).1 = _)
    simpa only [decide_eq_true_eq, row, Store.updateInvoice, Store.mapInvoices] using hlists

/-- A row is inserted exactly if the key is new to the store. -/
theorem insertOutputKey (h : Represents tables store) (key : OutputPubKey) {outputId : OutputId}
    (hfits : OutputId.codec.Fits outputId) :
    match store.insertOutputKey key outputId with
    | .ok store' => ∃ outputKeys, tables.outputKeys.insert key.toBytes
        (OutputId.codec.encode outputId) = some outputKeys ∧
          Represents { tables with outputKeys := outputKeys } store'
    | .error _ =>
        tables.outputKeys.insert key.toBytes (OutputId.codec.encode outputId) = none := by
  rw [Store.insertOutputKey]
  cases hstored : store.outputKeys key with
  | some old =>
      rw [KeyedTable.insert_eq_none_iff, h.outputKeys, hstored]
      exact nofun
  | none =>
      have hnew : tables.outputKeys.insert key.toBytes (OutputId.codec.encode outputId) ≠ none := by
        rw [ne_eq, KeyedTable.insert_eq_none_iff, h.outputKeys, hstored]
        exact fun hne => hne rfl
      obtain ⟨outputKeys, hinsert⟩ := Option.ne_none_iff_exists'.mp hnew
      refine ⟨outputKeys, hinsert, ⟨h.fits, h.invoices, fun key' outputId' hget => ?_, fun key' => ?_,
        h.fitsHeight, h.height⟩⟩
      · dsimp only at hget
        by_cases heq : key' = key
        · subst heq
          rw [Function.update_self] at hget
          cases hget
          exact hfits
        · rw [Function.update_of_ne heq] at hget
          exact h.fitsOutputIds key' outputId' hget
      · dsimp only
        rw [KeyedTable.find?_insert hinsert]
        by_cases heq : key' = key
        · rw [if_pos (congrArg OutputPubKey.toBytes heq), heq, Function.update_self]
          rfl
        · rw [if_neg fun hbytes => heq (OutputPubKey.toBytes_inj hbytes), Function.update_of_ne heq]
          exact h.outputKeys key'

/-- The one row of the height is written as the height of the store is. -/
theorem upsertHeight (h : Represents tables store) {height : ℕ} (hfits : Codec.u64.Fits height) :
    Represents { tables with height := tables.height.upsert 0 (Codec.u64.encode height) }
      (store.upsertHeight height) where
  fits := h.fits
  invoices := h.invoices
  fitsOutputIds := h.fitsOutputIds
  outputKeys := h.outputKeys
  fitsHeight := by
    rintro _ ⟨⟩
    exact hfits
  height := by
    rw [KeyedTable.find?_upsert, if_pos rfl]
    rfl

/-! ### Scans -/

/-- A full scan visits the rows of the invoices. -/
theorem scan_eq (h : Represents tables store) (scan : ScanOrder) :
    ∃ invoices, invoices ~ store.invoices ∧ scan.order tables.invoices.rows = invoices.map row := by
  have hperm : scan.order tables.invoices.rows ~ store.invoices.map row := by
    rw [← h.invoices.rows_eq]
    exact scan.perm _
  have hcomp := congrFun (congrFun (List.eq_map_comp_perm row) (scan.order tables.invoices.rows))
    store.invoices
  obtain ⟨invoices, heq, hinvoices⟩ := hcomp.mpr hperm
  exact ⟨invoices, hinvoices, heq⟩

/-- **A closure that only stops at errors** sees every invoice. -/
theorem foldlM_scan (h : Represents tables store) (scan : ScanOrder) {σ : Type}
    (f : σ → Invoice → σ) (init : σ) :
    ∃ invoices, invoices ~ store.invoices ∧
      ((scan.order tables.invoices.rows).map fun row => decode Invoice.codec row.2).foldlM
        (fun s invoiceOrErr => return f s (← invoiceOrErr)) init = .ok (invoices.foldl f init) := by
  obtain ⟨invoices, hperm, hrows⟩ := h.scan_eq scan
  have hdecode : (scan.order tables.invoices.rows).map (fun row => decode Invoice.codec row.2)
      = invoices.map .ok := by
    rw [hrows, List.map_map]
    refine List.map_congr_left fun invoice hmem => ?_
    have hfits := h.fits invoice (hperm.mem_iff.mp hmem)
    rw [Function.comp_apply, decode, row, Codec.decodeFromSlice_encode _ hfits]
  rw [hdecode]
  exact ⟨invoices, hperm, Collect.foldlM_map_ok f init invoices⟩

/-- **The ids that are listed** for the rows of stored invoices, some of which may not be read. No row
makes the conversion fail or panic. -/
theorem getIdsOf_rows (h : Represents tables store)
    (invoices : List (Except (Failure SqliteStorageError) Invoice))
    (hmem : ∀ invoice, .ok invoice ∈ invoices → invoice ∈ store.invoices) :
    Sqlite.getIdsOf Sqlite.columns (.ok (keyRows (invoices.map (Except.map row))))
      = some (.ok ((readRows invoices).map Invoice.id)) := by
  rw [Sqlite.getIdsOf_eq_ok_iff]
  induction invoices with
  | nil => exact .nil
  | cons result invoices ih =>
      have hrest := ih fun invoice hin => hmem invoice (List.mem_cons_of_mem _ hin)
      cases result with
      | error failure => exact hrest
      | ok invoice =>
          have hfits := h.fits invoice (hmem invoice List.mem_cons_self)
          exact .cons ⟨fits_id hfits, rfl, rfl, rfl⟩ hrest

/-- Rows with a sub index are counted if there is an invoice with it. -/
theorem countP_pos_iff (h : Represents tables store) (index : SubIndex) :
    tables.invoices.rows.countP (fun row =>
        decide (row.1.1 = i64From index.major ∧ row.1.2.1 = i64From index.minor)) > 0
      ↔ store.invoices.any (fun invoice => decide (invoice.index = index)) = true := by
  rw [h.invoices.rows_eq, List.countP_map, gt_iff_lt, List.countP_pos_iff, List.any_eq_true]
  refine exists_congr fun invoice => and_congr_right fun _ => ?_
  obtain ⟨major, minor⟩ := index
  rw [Function.comp_apply, decide_eq_true_eq, decide_eq_true_eq, SubIndex.mk.injEq]
  exact and_congr i64From_inj i64From_inj

end Represents

end SqliteTables

end AcceptXmr
