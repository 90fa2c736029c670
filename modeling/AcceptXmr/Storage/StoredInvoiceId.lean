import AcceptXmr.Invoice.Integer
import AcceptXmr.Library.Collect
import AcceptXmr.Storage.Sqlite

/-! # The rows of `get_ids`

`Sqlite::get_ids` row by row: what `StoredInvoiceId` reads of a row, and how the ids of all rows are
collected. The rows come from the crate `sqlite`, whose reading of a column is a parameter.

A row that the database fails to read becomes an error, which `flat_map` drops before anything is
collected. A height of another length than 8 bytes makes `copy_from_slice` panic.

* **`StoredInvoiceId.tryFrom_eq_ok_iff`** — the rows that are read are those that `insert` stores.
* **`getIdsOf_eq_getIds`** — on the rows of the table, this is `get_ids` of the store.
* **`reports_errors_iff`** — when errors are reported. -/

namespace AcceptXmr

open BigEndian

/-- What the crate `sqlite` reads of the columns of a row. -/
structure RowReader (Row DbError : Type) where
  /-- `try_read::<i64, _>`. -/
  tryReadI64 : Row → String → Except DbError Int64
  /-- `try_read::<&[u8], _>`. -/
  tryReadBytes : Row → String → Except DbError Bytes

/-! ## Sub indexes as `i64` -/

/-- `i64::from` of a `u32`. -/
def i64From (n : UInt32) : Int64 := Int64.ofNat n.toNat

/-- The values of a `u32`. -/
def IsU32 (v : Int64) : Prop := 0 ≤ v.toInt ∧ v.toInt < UInt32.size

instance : DecidablePred IsU32 := fun _ => inferInstanceAs (Decidable (_ ∧ _))

/-- `u32::try_from` of an `i64`. -/
def u32TryFrom (v : Int64) : Option UInt32 :=
  if IsU32 v then some (UInt32.ofNat v.toInt.toNat) else none

/-- A sub index is stored as the integer that it is. -/
theorem toInt_i64From (n : UInt32) : (i64From n).toInt = n.toNat := by
  have hlt : n.toNat < UInt32.size := n.toNat_lt
  exact Int64.toInt_ofNat_of_lt (Nat.lt_trans hlt (by decide))

/-- **A sub index is regained** from its `i64`, and no other `i64` is read as one. -/
theorem u32TryFrom_eq_some_iff {v : Int64} {n : UInt32} :
    u32TryFrom v = some n ↔ v = i64From n := by
  unfold u32TryFrom
  constructor
  · intro h
    split at h
    · rename_i hu32
      obtain ⟨hnonneg, hlt⟩ := hu32
      cases h
      have hlt' : v.toInt.toNat < UInt32.size := by omega
      rw [← Int64.toInt_inj, toInt_i64From, UInt32.toNat_ofNat', Nat.mod_eq_of_lt hlt',
        Int.toNat_of_nonneg hnonneg]
    · cases h
  · rintro rfl
    have hu32 : IsU32 (i64From n) := by
      rw [IsU32, toInt_i64From]
      exact ⟨Int.natCast_nonneg _, Int.ofNat_lt.mpr n.toNat_lt⟩
    rw [if_pos hu32, toInt_i64From, Int.toNat_natCast, UInt32.ofNat_toNat]

/-- An integer outside the range of a `u32` is refused. -/
theorem u32TryFrom_eq_none_iff {v : Int64} : u32TryFrom v = none ↔ ¬ IsU32 v := by
  unfold u32TryFrom
  split
  · rename_i h
    exact iff_of_false nofun (not_not_intro h)
  · rename_i h
    exact iff_of_true rfl h

namespace Sqlite

variable {Row DbError : Type} (crate : RowReader Row DbError)

/-! ## One row -/

/-- `TryFrom<Row>` for `StoredInvoiceId`, and the id in it; `none` where it panics. -/
def StoredInvoiceId.tryFrom (value : Row) : Option (Except SqliteStorageError InvoiceId) :=
  match crate.tryReadI64 value "major_subindex" with
  | .error _ => some (.error .database)
  | .ok majorSubindex =>
      match crate.tryReadI64 value "minor_subindex" with
      | .error _ => some (.error .database)
      | .ok minorSubindex =>
          match crate.tryReadBytes value "creation_height" with
          | .error _ => some (.error .database)
          | .ok creationHeightSlice =>
              -- `copy_from_slice` to an array of 8 bytes.
              if creationHeightSlice.length = 8 then
                match u32TryFrom majorSubindex, u32TryFrom minorSubindex with
                | some major, some minor => some (.ok ⟨⟨major, minor⟩, ofBE creationHeightSlice⟩)
                -- The major index is named whichever of them is invalid.
                | _, _ => some (.error (.invalidSubIndex majorSubindex.toInt))
              else none

/-- The columns of a row that can be read. -/
structure Reads (row : Row) (major minor : Int64) (height : Bytes) : Prop where
  major : crate.tryReadI64 row "major_subindex" = .ok major
  minor : crate.tryReadI64 row "minor_subindex" = .ok minor
  height : crate.tryReadBytes row "creation_height" = .ok height

/-- What `insert` binds to `:major`, `:minor` and `:height`. -/
def boundValues (id : InvoiceId) : Int64 × Int64 × Bytes :=
  (i64From id.subIndex.major, i64From id.subIndex.minor, toBE 8 id.creationHeight)

/-- A row with the values that `insert` stores for an id. -/
structure Holds (row : Row) (id : InvoiceId) : Prop where
  fits : id.Fits
  reads : Reads crate row (boundValues id).1 (boundValues id).2.1 (boundValues id).2.2

/-- A row that is converted to an error: some column cannot be read, or the height has 8 bytes and an
index is not a `u32`. -/
def Refused (row : Row) : Prop :=
  (¬ ∃ major minor height, Reads crate row major minor height) ∨
    ∃ major minor height, Reads crate row major minor height ∧ height.length = 8 ∧
      ¬ (IsU32 major ∧ IsU32 minor)

variable {crate} {row : Row} {major minor : Int64} {height : Bytes}

/-- The conversion of a row whose columns can be read. -/
theorem Reads.tryFrom_eq (h : Reads crate row major minor height) :
    StoredInvoiceId.tryFrom crate row =
      if height.length = 8 then
        match u32TryFrom major, u32TryFrom minor with
        | some major, some minor => some (.ok ⟨⟨major, minor⟩, ofBE height⟩)
        | _, _ => some (.error (.invalidSubIndex major.toInt))
      else none := by
  simp only [StoredInvoiceId.tryFrom, h.major, h.minor, h.height]

/-- The conversion of another row. -/
theorem tryFrom_of_not_reads (h : ¬ ∃ major minor height, Reads crate row major minor height) :
    StoredInvoiceId.tryFrom crate row = some (.error .database) := by
  rw [StoredInvoiceId.tryFrom]
  cases hmajor : crate.tryReadI64 row "major_subindex" with
  | error e => rfl
  | ok major =>
      cases hminor : crate.tryReadI64 row "minor_subindex" with
      | error e => rfl
      | ok minor =>
          cases hheight : crate.tryReadBytes row "creation_height" with
          | error e => rfl
          | ok height => exact absurd ⟨major, minor, height, hmajor, hminor, hheight⟩ h

/-- A row is read in one way at most. -/
theorem Reads.unique {major' minor' : Int64} {height' : Bytes}
    (h : Reads crate row major minor height) (h' : Reads crate row major' minor' height') :
    major = major' ∧ minor = minor' ∧ height = height' := by
  refine ⟨?_, ?_, ?_⟩
  · exact Except.ok.inj (h.major.symm.trans h'.major)
  · exact Except.ok.inj (h.minor.symm.trans h'.minor)
  · exact Except.ok.inj (h.height.symm.trans h'.height)

/-- **The rows that are read** are those that `insert` stores, each as the id it is stored for. -/
theorem StoredInvoiceId.tryFrom_eq_ok_iff {id : InvoiceId} :
    StoredInvoiceId.tryFrom crate row = some (.ok id) ↔ Holds crate row id := by
  constructor
  · intro h
    by_cases hreads : ∃ major minor height, Reads crate row major minor height
    · obtain ⟨major, minor, height, hreads⟩ := hreads
      rw [hreads.tryFrom_eq] at h
      split at h
      · rename_i hlength
        cases hmajor : u32TryFrom major with
        | none =>
            rw [hmajor] at h
            cases h
        | some m =>
            cases hminor : u32TryFrom minor with
            | none =>
                rw [hmajor, hminor] at h
                cases h
            | some n =>
                rw [hmajor, hminor] at h
                cases h
                -- the height is a `u64`, and has no other bytes
                have hlt := ofBE_lt height
                have hbytes := toBE_ofBE height
                rw [hlength] at hlt hbytes
                rw [u32TryFrom_eq_some_iff] at hmajor hminor
                refine ⟨hlt, ?_⟩
                simp only [boundValues]
                rw [← hmajor, ← hminor, hbytes]
                exact hreads
      · cases h
    · rw [tryFrom_of_not_reads hreads] at h
      cases h
  · rintro ⟨hfits, hreads⟩
    have hheight : ofBE (toBE 8 id.creationHeight) = id.creationHeight := ofBE_toBE hfits
    rw [hreads.tryFrom_eq]
    simp only [boundValues, length_toBE, if_true, u32TryFrom_eq_some_iff.mpr rfl, hheight]

/-- **The rows that end the listing** with an error. -/
theorem StoredInvoiceId.exists_tryFrom_eq_error_iff :
    (∃ e, StoredInvoiceId.tryFrom crate row = some (.error e)) ↔ Refused crate row := by
  by_cases hreads : ∃ major minor height, Reads crate row major minor height
  · obtain ⟨major, minor, height, hreads⟩ := hreads
    rw [hreads.tryFrom_eq]
    constructor
    · rintro ⟨e, h⟩
      split at h
      · rename_i hlength
        refine .inr ⟨major, minor, height, hreads, hlength, ?_⟩
        rintro ⟨hmajor, hminor⟩
        simp only [u32TryFrom, if_pos hmajor, if_pos hminor] at h
        cases h
      · cases h
    · rintro (h | ⟨major', minor', height', hreads', hlength, hu32⟩)
      · exact absurd ⟨major, minor, height, hreads⟩ h
      · obtain ⟨rfl, rfl, rfl⟩ := hreads.unique hreads'
        refine ⟨.invalidSubIndex major.toInt, ?_⟩
        rw [if_pos hlength]
        by_cases hmajor : IsU32 major
        · have hminor : u32TryFrom minor = none :=
            u32TryFrom_eq_none_iff.mpr fun hminor => hu32 ⟨hmajor, hminor⟩
          rw [hminor]
          cases u32TryFrom major <;> rfl
        · rw [u32TryFrom_eq_none_iff.mpr hmajor]
  · exact iff_of_true ⟨.database, tryFrom_of_not_reads hreads⟩ (.inl hreads)

/-! ## All rows -/

variable (crate)

/-- `get_ids`, of what preparing the statement yields and of the rows it then yields. -/
def getIdsOf (select : Except DbError (List (Except DbError Row))) :
    Option (Except SqliteStorageError (List InvoiceId)) :=
  match select with
  | .error _ => some (.error .database)
  | .ok rows =>
      let rows := rows.map fun row => row.mapError fun _ => SqliteStorageError.database
      -- A result is an iterator over its value, and over nothing if it is an error.
      Collect.collect <| rows.flatMap fun row =>
        (row.map (StoredInvoiceId.tryFrom crate)).toOption.toList

/-- A row that is read and holds the values of an id. -/
def HoldsOk (row : Except DbError Row) (id : InvoiceId) : Prop :=
  ∃ r, row = .ok r ∧ Holds crate r id

/-- **Errors are reported**: ids are returned only if every row was read, and then they are those of
the rows, in order; if some row is not read or cannot be converted, an error is returned. -/
structure ReportsErrors (rows : List (Except DbError Row)) : Prop where
  listed : ∀ ids, getIdsOf crate (.ok rows) = some (.ok ids) →
    List.Forall₂ (HoldsOk crate) rows ids
  failed : (∃ row ∈ rows, ¬ ∃ id, HoldsOk crate row id) →
    ∃ e, getIdsOf crate (.ok rows) = some (.error e)

/-- Some row is refused, and all rows that were read before it hold the values of ids. -/
def RefusedFirst (rows : List (Except DbError Row)) : Prop :=
  ∃ before r after, rows = before ++ .ok r :: after ∧ Refused crate r ∧
    ∀ r', .ok r' ∈ before → ∃ id, Holds crate r' id

variable {crate} {rows : List (Except DbError Row)}

/-- **Rows that cannot be read play no part**: the others are converted and collected. -/
theorem getIdsOf_ok_eq (crate : RowReader Row DbError) (rows : List (Except DbError Row)) :
    getIdsOf crate (.ok rows) =
      Collect.collect ((rows.filterMap Except.toOption).map (StoredInvoiceId.tryFrom crate)) := by
  have hread : (rows.map fun row => row.mapError fun _ => SqliteStorageError.database).filterMap
      Except.toOption = rows.filterMap Except.toOption := by
    rw [List.filterMap_map]
    apply List.filterMap_congr
    intro row _
    cases row <;> rfl
  simp only [getIdsOf]
  rw [Collect.flatMap_toOption, hread]

/-- A row without an error is readable. -/
theorem readable_cons (r : Row) : (Except.ok r :: rows).filterMap Except.toOption
    = r :: rows.filterMap Except.toOption := rfl

/-- The readable rows are those without an error. -/
theorem mem_readable_iff {r : Row} : r ∈ rows.filterMap Except.toOption ↔ .ok r ∈ rows := by
  rw [List.mem_filterMap]
  constructor
  · rintro ⟨row, hmem, hrow⟩
    cases row with
    | error e => cases hrow
    | ok r' =>
        cases hrow
        exact hmem
  · intro h
    exact ⟨.ok r, h, rfl⟩

/-- The ids that are returned are those of the rows that could be read. -/
theorem getIdsOf_eq_ok_iff {ids : List InvoiceId} :
    getIdsOf crate (.ok rows) = some (.ok ids) ↔
      List.Forall₂ (Holds crate) (rows.filterMap Except.toOption) ids := by
  rw [getIdsOf_ok_eq, Collect.collect_map_eq_ok_iff]
  have hiff : ∀ r id, StoredInvoiceId.tryFrom crate r = some (.ok id) ↔ Holds crate r id :=
    fun r id => StoredInvoiceId.tryFrom_eq_ok_iff
  simp only [hiff]

/-- An error is returned for the first row that is refused, unless a row before it panics. -/
theorem exists_getIdsOf_eq_error_iff :
    (∃ e, getIdsOf crate (.ok rows) = some (.error e)) ↔ RefusedFirst crate rows := by
  simp only [getIdsOf_ok_eq, Collect.collect_map_eq_error_iff]
  constructor
  · rintro ⟨e, before, r, after, hsplit, hbefore, hr⟩
    obtain ⟨front, back, rfl, rfl, hback⟩ := List.filterMap_eq_append_iff.mp hsplit
    obtain ⟨passed, row, back, rfl, hpassed, hrow, -⟩ := List.filterMap_eq_cons_iff.mp hback
    cases row with
    | error e => cases hrow
    | ok r' =>
        cases hrow
        refine ⟨front ++ passed, r, back, (List.append_assoc _ _ _).symm,
          StoredInvoiceId.exists_tryFrom_eq_error_iff.mp ⟨e, hr⟩, ?_⟩
        intro r' hmem
        rcases List.mem_append.mp hmem with hmem | hmem
        · obtain ⟨id, hid⟩ := hbefore r' (mem_readable_iff.mpr hmem)
          exact ⟨id, StoredInvoiceId.tryFrom_eq_ok_iff.mp hid⟩
        · cases hpassed (.ok r') hmem
  · rintro ⟨before, r, after, rfl, hrefused, hbefore⟩
    obtain ⟨e, he⟩ := StoredInvoiceId.exists_tryFrom_eq_error_iff.mpr hrefused
    refine ⟨e, before.filterMap Except.toOption, r, after.filterMap Except.toOption, ?_, ?_, he⟩
    · rw [List.filterMap_append, readable_cons]
    · intro r' hmem
      obtain ⟨id, hid⟩ := hbefore r' (mem_readable_iff.mp hmem)
      exact ⟨id, StoredInvoiceId.tryFrom_eq_ok_iff.mpr hid⟩

/-- If all rows hold the values of ids, the ids are those of the rows. -/
theorem forall₂_holdsOk {ids : List InvoiceId}
    (hall : ∀ row ∈ rows, ∃ id, HoldsOk crate row id)
    (h : List.Forall₂ (Holds crate) (rows.filterMap Except.toOption) ids) :
    List.Forall₂ (HoldsOk crate) rows ids := by
  induction rows generalizing ids with
  | nil =>
      cases h
      exact .nil
  | cons row rows ih =>
      obtain ⟨⟨id, r, rfl, -⟩, hrest⟩ := List.forall_mem_cons.mp hall
      rw [readable_cons] at h
      obtain ⟨id', ids, hid, hids, rfl⟩ := List.forall₂_cons_left_iff.mp h
      exact .cons ⟨r, rfl, hid⟩ (ih hrest hids)

/-- **When errors are reported**: if every row is read and holds the values of an id, or if a row is
refused and no row before it makes the conversion panic. -/
theorem reports_errors_iff (crate : RowReader Row DbError) (rows : List (Except DbError Row)) :
    ReportsErrors crate rows ↔
      (∀ row ∈ rows, ∃ id, HoldsOk crate row id) ∨ RefusedFirst crate rows := by
  constructor
  · intro h
    by_cases hall : ∀ row ∈ rows, ∃ id, HoldsOk crate row id
    · exact .inl hall
    · obtain ⟨row, hmem, hrow⟩ : ∃ row ∈ rows, ¬ ∃ id, HoldsOk crate row id := by
        by_contra hnone
        exact hall fun row hmem => by_contra fun hrow => hnone ⟨row, hmem, hrow⟩
      exact .inr (exists_getIdsOf_eq_error_iff.mp (h.failed ⟨row, hmem, hrow⟩))
  · rintro (hall | hrefused)
    · constructor
      · intro ids hids
        exact forall₂_holdsOk hall (getIdsOf_eq_ok_iff.mp hids)
      · rintro ⟨row, hmem, hrow⟩
        exact absurd (hall row hmem) hrow
    · obtain ⟨e, he⟩ := exists_getIdsOf_eq_error_iff.mpr hrefused
      constructor
      · intro ids hids
        rw [he] at hids
        cases hids
      · intro _
        exact ⟨e, he⟩

/-- The columns of a row, by themselves. -/
def columns : RowReader (Int64 × Int64 × Bytes) Unit where
  tryReadI64 row column :=
    if column = "major_subindex" then .ok row.1
    else if column = "minor_subindex" then .ok row.2.1
    else .error ()
  tryReadBytes row column := if column = "creation_height" then .ok row.2.2 else .error ()

/-- **A row that is not listed**: of two rows the first one is not read, and the id of the second one
is returned. -/
theorem unread_row_dropped :
    let rows : List (Except Unit (Int64 × Int64 × Bytes)) :=
      [.error (), .ok (0, 2, [0, 0, 0, 0, 0, 0, 0, 5])]
    getIdsOf columns (.ok rows) = some (.ok [⟨⟨0, 2⟩, 5⟩]) ∧ ¬ ReportsErrors columns rows := by
  intro rows
  have hids : getIdsOf columns (.ok rows) = some (.ok [⟨⟨0, 2⟩, 5⟩]) := by decide
  refine ⟨hids, ?_⟩
  intro h
  obtain ⟨⟨r, hr, -⟩, -⟩ := List.forall₂_cons.mp (h.listed _ hids)
  cases hr

/-! ## The rows of the table -/

/-- A row result as the store sees it. -/
def Yields (crate : RowReader Row DbError) (row : Except DbError Row)
    (result : Except (Failure SqliteStorageError) InvoiceId) : Prop :=
  match row, result with
  | .error _, .error _ => True
  | .ok r, .ok id => Holds crate r id
  | _, _ => False

/-- **`get_ids` of the store** is this listing, of rows that hold the values of the stored ids. -/
theorem getIdsOf_eq_getIds {faults : Faults} {c : Sqlite} (hquery : faults.query = none)
    (hrows : List.Forall₂ (Yields crate) rows (idRows faults c.working)) :
    getIdsOf crate (.ok rows) = some (getIds faults c).1 := by
  have hids : (getIds faults c).1 = .ok (readRows (idRows faults c.working)) := by
    rw [getIds, hquery]
  rw [hids, getIdsOf_eq_ok_iff]
  generalize idRows faults c.working = results at hrows
  induction hrows with
  | nil => exact .nil
  | @cons row result rows results hrow _ ih =>
      cases row with
      | error e =>
          cases result with
          | error failure => exact ih
          | ok id => exact hrow.elim
      | ok r =>
          cases result with
          | error failure => exact hrow.elim
          | ok id => exact .cons hrow ih

end Sqlite

end AcceptXmr
