import AcceptXmr.Library.Transactions
import AcceptXmr.Storage.Store
import Mathlib.Data.List.Sort

/-! # The Sqlite store

`library/src/storage/stores/sqlite.rs`: the storage traits over one connection. `update` and
`upsert` run inside an explicit transaction; the other calls are single statements. Every call may
fail at every statement.

`update` and `upsert` close their transaction only at their end: whatever leaves them earlier leaves
the transaction open, and the next call that begins one fails. `remove` can fail after the row is
gone, and `get_ids` does not fail at rows that the database fails to read. An insertion does not look
at the error of its statement but at the count of changed rows, which is that of an earlier statement
if its own one could not begin.

* **`behaves_iff`** — when a call on a settled connection behaves as a call on a map.
* **`run_behaves_iff`** — when all calls of a run do. -/

namespace AcceptXmr

/-- An error occurring while storing or retrieving values from a sqlite database. -/
inductive SqliteStorageError where
  | database
  | duplicateInvoice
  | duplicateOutputKey
  | serialize
  | deserialize
  | invalidSubIndex (value : Int)
  deriving DecidableEq, Repr

/-- The store: its tables behind one connection. -/
abbrev Sqlite := Connection Store

namespace Sqlite

/-- The statement failures of a call. -/
abbrev Fault := Option (Failure SqliteStorageError)

/-- The points at which a call can fail. -/
structure Faults where
  /-- Encoding the value to store. -/
  encode : Option SqliteStorageError := none
  /-- `BEGIN`. -/
  start : Fault := none
  /-- A query, from its preparation to the decoding of its rows. -/
  query : Fault := none
  /-- What the statement of `get_ids` steps to, if not each row once: rows, by their place in the
  table, and failures. -/
  rows : Option (List (Except (Failure SqliteStorageError) ℕ)) := none
  /-- Preparing the statement that writes. -/
  prepare : Fault := none
  /-- Executing it. -/
  write : Fault := none
  /-- Reading the row that a deletion returns. -/
  read : Option SqliteStorageError := none
  /-- `COMMIT`, or the end of a deletion. -/
  commit : Fault := none
  /-- Decoding the invoice that a deletion has returned. -/
  decode : Option SqliteStorageError := none
  deriving DecidableEq, Repr

/-- A call that only reads. -/
def select {α : Type} (read : Store → α) (faults : Faults) (c : Sqlite) :
    Except SqliteStorageError α × Sqlite :=
  match faults.query with
  | some failure => (.error failure.error, c.fail failure)
  | none => (.ok (read c.working), c)

/-- A call that inserts a row. An error of the statement itself is not looked at: all that counts is
whether `change_count` answers that no row has changed. -/
def insertRow (duplicate : SqliteStorageError) (insert : Store → Except StoreError Store)
    (faults : Faults) (c : Sqlite) : Except SqliteStorageError Unit × Sqlite :=
  match faults.encode with
  | some e => (.error e, c)
  | none =>
      match faults.prepare with
      | some failure => (.error failure.error, c.fail failure)
      | none =>
          match faults.write with
          | some failure =>
              -- A statement that has not begun has not counted yet. It is dropped at the end.
              let failed := c.failWrite failure
              (if failed.changes = 0 then .error duplicate else .ok (), failed.counted 0)
          | none =>
              match insert c.working with
              | .error _ => (.error duplicate, c.counted 0)
              | .ok store => (.ok (), ((c.write fun _ => store).counted 1).finish)

/-! ## `InvoiceStorage` -/

/-- `insert` of an invoice. -/
def insertInvoice (invoice : Invoice) :
    Faults → Sqlite → Except SqliteStorageError Unit × Sqlite :=
  insertRow .duplicateInvoice fun store => store.insertInvoice invoice

/-- `remove`: one `DELETE … RETURNING` statement. The row is gone once the statement has been
executed, whether or not its result can be used. -/
def remove (id : InvoiceId) (faults : Faults) (c : Sqlite) :
    Except SqliteStorageError (Option Invoice) × Sqlite :=
  match faults.prepare with
  | some failure => (.error failure.error, c.fail failure)
  | none =>
      match faults.write with
      | some failure => (.error failure.error, (c.failWrite failure).counted 0)
      | none =>
          match c.working.getInvoice id with
          | none => (.ok none, c.counted 0)
          | some invoice =>
              let deleted := (c.write fun store => store.removeInvoice id).counted 1
              match faults.read with
              -- The statement is dropped, which ends it.
              | some e => (.error e, deleted.finish)
              | none =>
                  match faults.commit with
                  -- Without an explicit transaction, the statement's own one is rolled back.
                  | some failure => (.error failure.error,
                      (if c.inTransaction then deleted.fail failure else deleted.rollBack).counted 0)
                  | none =>
                      match faults.decode with
                      | some e => (.error e, deleted.finish)
                      | none => (.ok (some invoice), deleted.finish)

/-- `update`. Every `?` and the return for an invoice that is not there leave the function between
`BEGIN` and the final `COMMIT`; the arm with the `ROLLBACK` is not reached. -/
def update (invoice : Invoice) (faults : Faults) (c : Sqlite) :
    Except SqliteStorageError (Option Invoice) × Sqlite :=
  match faults.encode with
  | some e => (.error e, c)
  | none =>
      -- `BEGIN` fails while a transaction is open.
      match faults.start, c.beginTransaction with
      | some failure, _ => (.error failure.error, c.fail failure)
      | none, none => (.error .database, c)
      | none, some c =>
          match faults.query with
          | some failure => (.error failure.error, c.fail failure)
          | none =>
              match c.working.getInvoice invoice.id with
              -- The early return: the transaction stays open.
              | none => (.ok none, c)
              | some old =>
                  match faults.prepare with
                  | some failure => (.error failure.error, c.fail failure)
                  | none =>
                      match faults.write with
                      | some failure => (.error failure.error, (c.failWrite failure).counted 0)
                      | none =>
                          let updated := (c.write fun store => store.updateInvoice invoice).counted 1
                          match faults.commit with
                          | some failure => (.error failure.error, updated.fail failure)
                          | none => (.ok (some old), updated.commit)

/-- `get` of an invoice. -/
def getInvoice (id : InvoiceId) := select fun store => store.getInvoice id

/-- What a statement steps to that reads a table: each of the rows once, in its order, or else what
`steps` says. -/
def rowResults {α : Type} (steps : Option (List (Except (Failure SqliteStorageError) ℕ)))
    (table inOrder : List α) : List (Except (Failure SqliteStorageError) α) :=
  match steps with
  | none => inOrder.map .ok
  | some steps => steps.filterMap fun step =>
      match step with
      | .error failure => some (.error failure)
      | .ok place => table[place]?.map .ok

/-- The rows that could be read. -/
def readRows {α : Type} (rows : List (Except (Failure SqliteStorageError) α)) : List α :=
  rows.flatMap fun row => row.toOption.toList

/-- What a row that cannot be read leaves. -/
def passRow {σ α : Type} (c : Connection σ) (row : Except (Failure SqliteStorageError) α) :
    Connection σ :=
  match row with
  | .error failure => c.fail failure
  | .ok _ => c

/-- The rows of `get_ids`. All its columns are in the index of the primary key, whose order they come
in. -/
def idRows (faults : Faults) (store : Store) : List (Except (Failure SqliteStorageError) InvoiceId) :=
  rowResults faults.rows store.getIds (store.getIds.mergeSort fun id id' => (id.cmp id').isLE)

/-- `get_ids`. An error of the database at a row is dropped by `flat_map`. -/
def getIds (faults : Faults) (c : Sqlite) : Except SqliteStorageError (List InvoiceId) × Sqlite :=
  match faults.query with
  | some failure => (.error failure.error, c.fail failure)
  | none =>
      let rows := idRows faults c.working
      (.ok (readRows rows), rows.foldl passRow c)

/-- `contains_sub_index`. -/
def containsSubIndex (index : SubIndex) :=
  select fun store => store.invoices.any fun invoice => decide (invoice.index = index)

/-- `try_for_each`, answered by the invoices over which the closure is run. -/
def tryForEach := select Store.invoices

/-- `is_empty`. -/
def isEmpty := select fun store => store.invoices.isEmpty

/-- `lowest_height`. -/
def lowestHeight := select Store.lowestHeight

/-! ## `OutputKeyStorage` and `HeightStorage` -/

/-- `insert` of an output key. -/
def insertOutputKey (key : OutputPubKey) (outputId : OutputId) :
    Faults → Sqlite → Except SqliteStorageError Unit × Sqlite :=
  insertRow .duplicateOutputKey fun store => store.insertOutputKey key outputId

/-- `get` of an output key. -/
def getOutputKey (key : OutputPubKey) := select fun store => store.outputKeys key

/-- `upsert` of the height. As in `update`, every `?` leaves the transaction open. -/
def upsert (height : ℕ) (faults : Faults) (c : Sqlite) :
    Except SqliteStorageError (Option ℕ) × Sqlite :=
  match faults.encode with
  | some e => (.error e, c)
  | none =>
      match faults.start, c.beginTransaction with
      | some failure, _ => (.error failure.error, c.fail failure)
      | none, none => (.error .database, c)
      | none, some c =>
          match faults.query with
          | some failure => (.error failure.error, c.fail failure)
          | none =>
              match faults.prepare with
              | some failure => (.error failure.error, c.fail failure)
              | none =>
                  match faults.write with
                  | some failure => (.error failure.error, (c.failWrite failure).counted 0)
                  | none =>
                      let updated := (c.write fun store => store.upsertHeight height).counted 1
                      match faults.commit with
                      | some failure => (.error failure.error, updated.fail failure)
                      -- The old height is read before the write.
                      | none => (.ok c.working.height, updated.commit)

/-- `get` of the height. -/
def getHeight := select Store.height

/-! ## Calls -/

/-- The calls of the three traits. -/
inductive Call where
  | insertInvoice (invoice : Invoice)
  | remove (id : InvoiceId)
  | update (invoice : Invoice)
  | getInvoice (id : InvoiceId)
  | getIds
  | containsSubIndex (index : SubIndex)
  | tryForEach
  | isEmpty
  | lowestHeight
  | insertOutputKey (key : OutputPubKey) (outputId : OutputId)
  | getOutputKey (key : OutputPubKey)
  | upsert (height : ℕ)
  | getHeight

/-- What a call returns. -/
@[reducible] def Call.Response : Call → Type
  | .insertInvoice _ => Unit
  | .remove _ => Option Invoice
  | .update _ => Option Invoice
  | .getInvoice _ => Option Invoice
  | .getIds => List InvoiceId
  | .containsSubIndex _ => Bool
  | .tryForEach => List Invoice
  | .isEmpty => Bool
  | .lowestHeight => Option ℕ
  | .insertOutputKey _ _ => Unit
  | .getOutputKey _ => Option OutputId
  | .upsert _ => Option ℕ
  | .getHeight => Option ℕ

/-- The call on the Sqlite store. -/
def Call.run : (call : Call) → Faults → Sqlite → Except SqliteStorageError call.Response × Sqlite
  | .insertInvoice invoice => Sqlite.insertInvoice invoice
  | .remove id => Sqlite.remove id
  | .update invoice => Sqlite.update invoice
  | .getInvoice id => Sqlite.getInvoice id
  | .getIds => Sqlite.getIds
  | .containsSubIndex index => Sqlite.containsSubIndex index
  | .tryForEach => Sqlite.tryForEach
  | .isEmpty => Sqlite.isEmpty
  | .lowestHeight => Sqlite.lowestHeight
  | .insertOutputKey key outputId => Sqlite.insertOutputKey key outputId
  | .getOutputKey key => Sqlite.getOutputKey key
  | .upsert height => Sqlite.upsert height
  | .getHeight => Sqlite.getHeight

/-- The call on a map: what a successful call returns and the tables afterwards; `none` if the map
refuses it. -/
def Call.onMap : (call : Call) → Store → Option (call.Response × Store)
  | .insertInvoice invoice, store => (store.insertInvoice invoice).toOption.map ((), ·)
  | .remove id, store => some (store.getInvoice id, store.removeInvoice id)
  | .update invoice, store => some (store.getInvoice invoice.id, store.updateInvoice invoice)
  | .getInvoice id, store => some (store.getInvoice id, store)
  | .getIds, store => some (store.getIds, store)
  | .containsSubIndex index, store =>
      some (store.invoices.any fun invoice => decide (invoice.index = index), store)
  | .tryForEach, store => some (store.invoices, store)
  | .isEmpty, store => some (store.invoices.isEmpty, store)
  | .lowestHeight, store => some (store.lowestHeight, store)
  | .insertOutputKey key outputId, store =>
      (store.insertOutputKey key outputId).toOption.map ((), ·)
  | .getOutputKey key, store => some (store.outputKeys key, store)
  | .upsert height, store => some (store.height, store.upsertHeight height)
  | .getHeight, store => some (store.height, store)

/-- Equal responses, where ids and invoices may come in any order. -/
def Same : (call : Call) → call.Response → call.Response → Prop
  | .getIds, ids, ids' => ids.Perm ids'
  | .tryForEach, invoices, invoices' => invoices.Perm invoices'
  | _, response, response' => response = response'

theorem same_refl (call : Call) (response : call.Response) : Same call response response := by
  cases call with
  | getIds => exact .refl _
  | tryForEach => exact .refl _
  | _ => rfl

theorem Same.trans {call : Call} {response response' response'' : call.Response}
    (h : Same call response response') (h' : Same call response' response'') :
    Same call response response'' := by
  cases call with
  | getIds => exact List.Perm.trans h h'
  | tryForEach => exact List.Perm.trans h h'
  | _ => exact Eq.trans h h'

/-- **A call that behaves**: no transaction is left open and nothing is left uncommitted; if the
call succeeds, it is the call on a map; if it fails, the tables are as they were. -/
structure Behaves (c : Sqlite) (call : Call) (faults : Faults) : Prop where
  settled : (call.run faults c).2.Settled
  succeeds : ∀ response, (call.run faults c).1 = .ok response →
    ∃ response', call.onMap c.committed = some (response', (call.run faults c).2.committed) ∧
      Same call response response'
  fails : ∀ e, (call.run faults c).1 = .error e →
    (call.run faults c).2.committed = c.committed

/-- The first statement that fails between `BEGIN` and the end of `COMMIT`, if any, makes the
database roll the transaction back. -/
def Faults.RollBack (faults : Faults) : Prop :=
  ∀ failure ∈ faults.query.or (faults.prepare.or (faults.write.or faults.commit)),
    failure.rollsBack = true

/-- The statement of an insertion is not kept from beginning by a lock, or else the statement before
it has changed no rows. -/
def Faults.Counts (faults : Faults) (c : Sqlite) : Prop :=
  c.changes = 0 ∨ ∀ failure ∈ faults.write, failure.locked = false

/-- **The discipline**, on the call, the connection before it and the statements that fail. -/
def Disciplined (c : Sqlite) : Call → Faults → Prop
  | .update invoice, faults => faults.encode ≠ none ∨ faults.start ≠ none ∨
      ((c.committed.getInvoice invoice.id ≠ none ∨ faults.query ≠ none) ∧ faults.RollBack)
  | .upsert _, faults => faults.encode ≠ none ∨ faults.start ≠ none ∨ faults.RollBack
  | .remove id, faults =>
      faults.prepare ≠ none ∨ faults.write ≠ none ∨ c.committed.getInvoice id = none ∨
        (faults.read = none ∧ (faults.commit ≠ none ∨ faults.decode = none))
  | .insertInvoice _, faults | .insertOutputKey _ _, faults =>
      faults.encode ≠ none ∨ faults.prepare ≠ none ∨ faults.Counts c
  | .getIds, faults => faults.query ≠ none ∨
      ∀ steps ∈ faults.rows,
        (readRows (rowResults (some steps) c.committed.getIds [])).Perm c.committed.getIds
  | _, _ => True

/-! ## One call -/

section Call

variable {s : Store} {n : ℕ} {faults : Faults}

/-- A call that has failed behaves if the connection is settled on the same tables. -/
theorem behaves_of_error {c : Sqlite} {call : Call} (e : SqliteStorageError) (changes : ℕ)
    (h : call.run faults c = (.error e, .ofTables c.committed changes)) : Behaves c call faults := by
  refine ⟨?_, fun response hr => ?_, fun e' _ => ?_⟩
  · rw [h]
    exact Connection.settled_ofTables _ _
  · rw [h] at hr
    cases hr
  · rw [h]
    rfl

/-- A call that has succeeded behaves if it has done what it does on a map. -/
theorem behaves_of_ok {c : Sqlite} {call : Call} (response : call.Response) (store : Store)
    (changes : ℕ) {response' : call.Response} (h : call.run faults c = (.ok response, .ofTables store changes))
    (hmap : call.onMap c.committed = some (response', store)) (hsame : Same call response response') :
    Behaves c call faults := by
  refine ⟨?_, fun response'' hr => ?_, fun e hr => ?_⟩
  · rw [h]
    exact Connection.settled_ofTables _ _
  · rw [h] at hr ⊢
    rw [hmap, ← Except.ok.inj hr]
    exact ⟨_, rfl, hsame⟩
  · rw [h] at hr
    cases hr

/-- Calls that only read behave. -/
theorem behaves_select {call : Call} (read : Store → call.Response)
    (hrun : call.run = select read) (hmap : call.onMap s = some (read s, s)) :
    Behaves (.ofTables s n) call faults := by
  cases hquery : faults.query with
  | some failure =>
      refine behaves_of_error failure.error n ?_
      simp only [hrun, select, hquery, Connection.fail_ofTables]
      rfl
  | none =>
      refine behaves_of_ok (read s) s n ?_ hmap (same_refl call _)
      simp only [hrun, select, hquery]
      rfl

@[simp] theorem readRows_map_ok {α : Type} (rows : List α) : readRows (rows.map .ok) = rows := by
  rw [readRows, List.flatMap_map]
  exact List.flatMap_singleton' rows

/-- Reading a part of each row. -/
theorem readRows_map {α β : Type} (f : α → β) (rows : List (Except (Failure SqliteStorageError) α)) :
    readRows (rows.map (Except.map f)) = (readRows rows).map f := by
  induction rows with
  | nil => rfl
  | cons row rows ih =>
      simp only [readRows, List.map_cons, List.flatMap_cons, List.map_append] at ih ⊢
      rw [ih]
      cases row <;> rfl

/-- The rows of a table that holds something of each value of a list. -/
theorem rowResults_map {α β : Type} (f : α → β)
    (steps : List (Except (Failure SqliteStorageError) ℕ)) (table inOrder : List α)
    (inOrder' : List β) : rowResults (some steps) (table.map f) inOrder'
      = (rowResults (some steps) table inOrder).map (Except.map f) := by
  simp only [rowResults, List.map_filterMap, List.getElem?_map]
  refine List.filterMap_congr fun step _ => ?_
  cases step with
  | error failure => rfl
  | ok place =>
      simp only [Option.map_map]
      rfl

/-- Only rows of the table are stepped to. -/
theorem mem_of_rowResults {α : Type} {steps : List (Except (Failure SqliteStorageError) ℕ)}
    {table inOrder : List α} {a : α} (h : .ok a ∈ rowResults (some steps) table inOrder) :
    a ∈ table := by
  obtain ⟨step, -, hstep⟩ := List.mem_filterMap.mp h
  cases step with
  | error failure => cases hstep
  | ok place =>
      obtain ⟨found, hfound, heq⟩ := Option.map_eq_some_iff.mp hstep
      cases heq
      exact List.mem_of_getElem? hfound

/-- Rows that cannot be read leave a settled connection as it is. -/
theorem foldl_passRow_ofTables {α : Type} (rows : List (Except (Failure SqliteStorageError) α)) :
    rows.foldl passRow (Connection.ofTables s n) = .ofTables s n := by
  induction rows with
  | nil => rfl
  | cons row rows ih =>
      rw [List.foldl_cons]
      cases row with
      | error failure => rw [passRow, Connection.fail_ofTables, ih]
      | ok id => exact ih

/-- **`get_ids` behaves** if what it reads are the stored ids, in any order. -/
theorem behaves_getIds_iff :
    Behaves (.ofTables s n) .getIds faults ↔ Disciplined (.ofTables s n) .getIds faults := by
  have hrun : Call.getIds.run faults (.ofTables s n) = getIds faults (.ofTables s n) := rfl
  have hworking : (Connection.ofTables s n).working = s := rfl
  have hcommitted : (Connection.ofTables s n).committed = s := rfl
  simp only [Disciplined, hcommitted]
  cases hquery : faults.query with
  | some failure =>
      refine iff_of_true (behaves_of_error failure.error n ?_) (.inl (by simp))
      simp only [hrun, getIds, hquery, Connection.fail_ofTables]
      rfl
  | none =>
      have hresult : Call.getIds.run faults (.ofTables s n)
          = (.ok (readRows (idRows faults s)), .ofTables s n) := by
        simp only [hrun, getIds, hquery, hworking, foldl_passRow_ofTables]
      cases hrows : faults.rows with
      | none =>
          have hids : readRows (idRows faults s)
              = s.getIds.mergeSort fun id id' => (id.cmp id').isLE := by
            rw [idRows, hrows]
            exact readRows_map_ok _
          refine iff_of_true (behaves_of_ok _ s n hresult rfl ?_) (.inr nofun)
          rw [hids]
          exact List.mergeSort_perm _ _
      | some steps =>
          have hids : readRows (idRows faults s) = readRows (rowResults (some steps) s.getIds []) := by
            rw [idRows, hrows]
            rfl
          rw [hids] at hresult
          constructor
          · intro hb
            obtain ⟨ids, hmap, hsame⟩ := hb.succeeds _ (congrArg Prod.fst hresult)
            cases (congrArg Prod.fst (Option.some.inj hmap) : s.getIds = ids)
            refine .inr ?_
            rintro _ ⟨⟩
            exact hsame
          · rintro (h | h)
            · exact absurd rfl h
            · exact behaves_of_ok _ s n hresult rfl (h steps rfl)

/-- A statement that fails inside the transaction of a call. -/
theorem behaves_failed_iff {call : Call} (failure : Failure SqliteStorageError) (working : Store)
    (changes : ℕ) (h : call.run faults (.ofTables s n)
      = (.error failure.error, Connection.fail failure ⟨s, working, true, changes⟩)) :
    Behaves (.ofTables s n) call faults ↔ failure.rollsBack = true := by
  refine ⟨fun hb => ?_, fun hback => behaves_of_error failure.error changes ?_⟩
  · have hsettled := hb.settled
    rw [h] at hsettled
    exact (Connection.settled_fail_iff rfl).mp hsettled
  · rw [h, Connection.fail, if_pos hback]
    rfl

/-- A call that has returned `Ok` with nothing inserted does not behave: the map would have the row. -/
theorem not_behaves_of_nothing_inserted {call : Call} {insert : Store → Except StoreError Store}
    {ok : Unit → call.Response} {response : call.Response} {changes : ℕ}
    (hmap : call.onMap s = (insert s).toOption.map (ok (), ·)) (hnew : insert s ≠ .ok s)
    (h : call.run faults (.ofTables s n) = (.ok response, .ofTables s changes)) :
    ¬ Behaves (.ofTables s n) call faults := by
  intro hb
  obtain ⟨response', hinserted, -⟩ := hb.succeeds response (congrArg Prod.fst h)
  have htables : (Connection.ofTables s n).committed = s := rfl
  rw [h, htables, hmap, Option.map_eq_some_iff] at hinserted
  obtain ⟨store, hstore, heq⟩ := hinserted
  cases (congrArg Prod.snd heq : store = s)
  cases hinsert : insert s with
  | error e =>
      rw [hinsert] at hstore
      cases hstore
  | ok store =>
      rw [hinsert] at hstore hnew
      exact hnew (congrArg Except.ok (Option.some.inj hstore))

/-- **Insertions behave** unless a lock keeps the statement from beginning while the count is that of
an earlier statement: then they return `Ok` with nothing inserted. -/
theorem behaves_insertRow_iff {call : Call} (duplicate : SqliteStorageError)
    (insert : Store → Except StoreError Store) (ok : Unit → call.Response)
    (hrun : ∀ c, call.run faults c
      = ((insertRow duplicate insert faults c).1.map ok, (insertRow duplicate insert faults c).2))
    (hmap : call.onMap s = (insert s).toOption.map (ok (), ·)) (hnew : insert s ≠ .ok s) :
    Behaves (.ofTables s n) call faults ↔
      (faults.encode ≠ none ∨ faults.prepare ≠ none ∨ faults.Counts (.ofTables s n)) := by
  have hchanges : (Connection.ofTables s n).changes = n := rfl
  -- The steps of an insertion in their order, each of which may fail.
  cases hencode : faults.encode with
  | some e =>
      refine iff_of_true (behaves_of_error e n ?_) (.inl (by simp))
      simp only [hrun, insertRow, hencode]
      rfl
  | none =>
      cases hprepare : faults.prepare with
      | some failure =>
          refine iff_of_true (behaves_of_error failure.error n ?_) (.inr (.inl (by simp)))
          simp only [hrun, insertRow, hencode, hprepare, Connection.fail_ofTables]
          rfl
      | none =>
          cases hwrite : faults.write with
          | some failure =>
              have hresult : call.run faults (.ofTables s n)
                  = (if failure.locked = true ∧ n ≠ 0 then .ok (ok ()) else .error duplicate,
                    .ofTables s 0) := by
                simp only [hrun, insertRow, hencode, hprepare, hwrite, Connection.changes_failWrite,
                  Connection.counted_failWrite, Connection.counted_ofTables, Connection.fail_ofTables,
                  hchanges]
                cases failure.locked <;> by_cases hn : n = 0 <;> simp [hn, Except.map]
              simp only [Faults.Counts, hwrite, hchanges, Option.mem_some_iff, forall_eq']
              by_cases hstale : failure.locked = true ∧ n ≠ 0
              · rw [if_pos hstale] at hresult
                exact iff_of_false (not_behaves_of_nothing_inserted hmap hnew hresult)
                  (by simp [hstale])
              · rw [if_neg hstale] at hresult
                refine iff_of_true (behaves_of_error duplicate 0 hresult) (.inr (.inr ?_))
                cases hlocked : failure.locked with
                | false => exact .inr rfl
                | true => exact .inl (by simpa [hlocked] using hstale)
          | none =>
              have hcounts : faults.Counts (.ofTables s n) := .inr (by simp [hwrite])
              refine iff_of_true ?_ (.inr (.inr hcounts))
              cases hinsert : insert s with
              | error e =>
                  refine behaves_of_error duplicate 0 ?_
                  have hworking : insert (Connection.ofTables s n).working = .error e := hinsert
                  simp only [hrun, insertRow, hencode, hprepare, hwrite, hworking]
                  rfl
              | ok store =>
                  rw [hinsert] at hmap
                  refine behaves_of_ok (ok ()) store 1 ?_ hmap (same_refl call _)
                  have hworking : insert (Connection.ofTables s n).working = .ok store := hinsert
                  simp only [hrun, insertRow, hencode, hprepare, hwrite, hworking]
                  rfl

/-- **`remove` behaves** unless the deleted row cannot be used. -/
theorem behaves_remove_iff (id : InvoiceId) :
    Behaves (.ofTables s n) (.remove id) faults ↔ Disciplined (.ofTables s n) (.remove id) faults := by
  have hrun : (Call.remove id).run faults (.ofTables s n) = remove id faults (.ofTables s n) := rfl
  have htables : (Connection.ofTables s n).working = s ∧ (Connection.ofTables s n).committed = s ∧
      (Connection.ofTables s n).inTransaction = false := ⟨rfl, rfl, rfl⟩
  obtain ⟨hworking, hcommitted, hclosed⟩ := htables
  -- The row is gone although the call has failed.
  have hlost : ∀ {old : Invoice} {e : SqliteStorageError}, s.getInvoice id = some old →
      (Call.remove id).run faults (.ofTables s n) = (.error e, .ofTables (s.removeInvoice id) 1) →
      ¬ Behaves (.ofTables s n) (.remove id) faults := by
    intro old e hget h hb
    have hsame := hb.fails e (by rw [h])
    rw [h] at hsame
    have hgone : old ∉ (s.removeInvoice id).invoices := by
      rw [Store.removeInvoice, List.mem_filter]
      simp [(Store.mem_of_getInvoice hget).2]
    exact hgone ((congrArg Store.invoices hsame) ▸ (Store.mem_of_getInvoice hget).1)
  simp only [Disciplined, hcommitted]
  cases hprepare : faults.prepare with
  | some failure =>
      refine iff_of_true (behaves_of_error failure.error n ?_) (.inl (by simp))
      simp only [hrun, remove, hprepare, Connection.fail_ofTables]
      rfl
  | none =>
      cases hwrite : faults.write with
      | some failure =>
          refine iff_of_true (behaves_of_error failure.error 0 ?_) (.inr (.inl (by simp)))
          simp only [hrun, remove, hprepare, hwrite, Connection.counted_failWrite, Connection.counted_ofTables,
            Connection.fail_ofTables]
          rfl
      | none =>
          cases hget : s.getInvoice id with
          | none =>
              refine iff_of_true (behaves_of_ok none s 0 ?_ ?_ rfl) (.inr (.inr (.inl rfl)))
              · simp only [hrun, remove, hprepare, hwrite, hworking, hget, Connection.counted_ofTables]
              · simp only [Call.onMap, hcommitted, hget, Store.removeInvoice_of_getInvoice hget]
          | some old =>
              cases hread : faults.read with
              | some e =>
                  refine iff_of_false (hlost (e := e) hget ?_) (by simp)
                  simp only [hrun, remove, hprepare, hwrite, hworking, hget, hread]
                  rfl
              | none =>
                  cases hcommit : faults.commit with
                  | some failure =>
                      refine iff_of_true (behaves_of_error failure.error 0 ?_) (by simp)
                      simp only [hrun, remove, hprepare, hwrite, hworking, hget, hread, hcommit, hclosed]
                      rfl
                  | none =>
                      cases hdecode : faults.decode with
                      | some e =>
                          refine iff_of_false (hlost (e := e) hget ?_) (by simp)
                          simp only [hrun, remove, hprepare, hwrite, hworking, hget, hread, hcommit, hdecode]
                          rfl
                      | none =>
                          refine iff_of_true
                            (behaves_of_ok (some old) (s.removeInvoice id) 1 ?_ ?_ rfl) (by simp)
                          · simp only [hrun, remove, hprepare, hwrite, hworking, hget, hread, hcommit, hdecode]
                            rfl
                          · simp only [Call.onMap, hcommitted, hget]

/-- What the discipline asks of the first failure inside a transaction. -/
theorem Faults.rollBack_iff (faults : Faults) :
    faults.RollBack ↔ match faults.query, faults.prepare, faults.write, faults.commit with
      | some failure, _, _, _ | none, some failure, _, _ | none, none, some failure, _
      | none, none, none, some failure => failure.rollsBack = true
      | none, none, none, none => True := by
  unfold Faults.RollBack
  cases faults.query <;> cases faults.prepare <;> cases faults.write <;> cases faults.commit <;> simp

/-- **`update` behaves** if the invoice is there and no failure leaves the transaction open. -/
theorem behaves_update_iff (invoice : Invoice) :
    Behaves (.ofTables s n) (.update invoice) faults
      ↔ Disciplined (.ofTables s n) (.update invoice) faults := by
  have hrun : (Call.update invoice).run faults (.ofTables s n) = update invoice faults (.ofTables s n) :=
    rfl
  have hcommitted : (Connection.ofTables s n).committed = s := rfl
  simp only [Disciplined, hcommitted, Faults.rollBack_iff]
  cases hencode : faults.encode with
  | some e =>
      refine iff_of_true (behaves_of_error e n ?_) (.inl (by simp))
      simp only [hrun, update, hencode]
      rfl
  | none =>
      cases hstart : faults.start with
      | some failure =>
          refine iff_of_true (behaves_of_error failure.error n ?_) (.inr (.inl (by simp)))
          simp only [hrun, update, hencode, hstart, Connection.fail_ofTables]
          rfl
      | none =>
          cases hquery : faults.query with
          | some failure =>
              refine (behaves_failed_iff failure s n ?_).trans (by simp)
              simp only [hrun, update, hencode, hstart, hquery, Connection.beginTransaction_ofTables]
          | none =>
              cases hget : s.getInvoice invoice.id with
              | none =>
                  -- `Ok(None)` is returned with the transaction still open.
                  refine iff_of_false (fun hb => ?_) (by simp)
                  have hclosed := hb.settled.closed
                  simp only [hrun, update, hencode, hstart, hquery, hget,
                    Connection.beginTransaction_ofTables] at hclosed
                  cases hclosed
              | some old =>
                  cases hprepare : faults.prepare with
                  | some failure =>
                      refine (behaves_failed_iff failure s n ?_).trans (by simp)
                      simp only [hrun, update, hencode, hstart, hquery, hget, hprepare,
                        Connection.beginTransaction_ofTables]
                  | none =>
                      cases hwrite : faults.write with
                      | some failure =>
                          refine (behaves_failed_iff failure s 0 ?_).trans (by simp)
                          simp only [hrun, update, hencode, hstart, hquery, hget, hprepare, hwrite,
                            Connection.beginTransaction_ofTables, Connection.counted_failWrite]
                          rfl
                      | none =>
                          cases hcommit : faults.commit with
                          | some failure =>
                              refine (behaves_failed_iff failure (s.updateInvoice invoice) 1 ?_).trans
                                (by simp)
                              simp only [hrun, update, hencode, hstart, hquery, hget, hprepare, hwrite, hcommit,
                                Connection.beginTransaction_ofTables]
                              rfl
                          | none =>
                              refine iff_of_true
                                (behaves_of_ok (some old) (s.updateInvoice invoice) 1 ?_ ?_ rfl) (by simp)
                              · simp only [hrun, update, hencode, hstart, hquery, hget, hprepare, hwrite,
                                  hcommit, Connection.beginTransaction_ofTables]
                                rfl
                              · simp only [Call.onMap, hcommitted, hget]

/-- **`upsert` behaves** if no failure leaves the transaction open. -/
theorem behaves_upsert_iff (height : ℕ) :
    Behaves (.ofTables s n) (.upsert height) faults
      ↔ Disciplined (.ofTables s n) (.upsert height) faults := by
  have hrun : (Call.upsert height).run faults (.ofTables s n) = upsert height faults (.ofTables s n) :=
    rfl
  have hcommitted : (Connection.ofTables s n).committed = s := rfl
  simp only [Disciplined, Faults.rollBack_iff]
  -- Failures before the transaction is opened are harmless.
  cases hencode : faults.encode with
  | some e =>
      refine iff_of_true (behaves_of_error e n ?_) (.inl (by simp))
      simp only [hrun, upsert, hencode]
      rfl
  | none =>
      cases hstart : faults.start with
      | some failure =>
          refine iff_of_true (behaves_of_error failure.error n ?_) (.inr (.inl (by simp)))
          simp only [hrun, upsert, hencode, hstart, Connection.fail_ofTables]
          rfl
      | none =>
          -- From here on, an error leaves the transaction open unless it is rolled back.
          cases hquery : faults.query with
          | some failure =>
              refine (behaves_failed_iff failure s n ?_).trans (by simp)
              simp only [hrun, upsert, hencode, hstart, hquery, Connection.beginTransaction_ofTables]
          | none =>
              cases hprepare : faults.prepare with
              | some failure =>
                  refine (behaves_failed_iff failure s n ?_).trans (by simp)
                  simp only [hrun, upsert, hencode, hstart, hquery, hprepare,
                    Connection.beginTransaction_ofTables]
              | none =>
                  cases hwrite : faults.write with
                  | some failure =>
                      refine (behaves_failed_iff failure s 0 ?_).trans (by simp)
                      simp only [hrun, upsert, hencode, hstart, hquery, hprepare, hwrite,
                        Connection.beginTransaction_ofTables, Connection.counted_failWrite]
                      rfl
                  | none =>
                      cases hcommit : faults.commit with
                      | some failure =>
                          refine (behaves_failed_iff failure (s.upsertHeight height) 1 ?_).trans (by simp)
                          simp only [hrun, upsert, hencode, hstart, hquery, hprepare, hwrite, hcommit,
                            Connection.beginTransaction_ofTables]
                          rfl
                      | none =>
                          refine iff_of_true (behaves_of_ok s.height (s.upsertHeight height) 1 ?_ ?_ rfl)
                            (by simp)
                          · simp only [hrun, upsert, hencode, hstart, hquery, hprepare, hwrite, hcommit,
                              Connection.beginTransaction_ofTables]
                            rfl
                          · simp only [Call.onMap, hcommitted]

/-- **When a call behaves** on a settled connection. -/
theorem behaves_iff {c : Sqlite} (hc : c.Settled) (call : Call) (faults : Faults) :
    Behaves c call faults ↔ Disciplined c call faults := by
  rw [hc.eq_ofTables]
  generalize c.committed = s, c.changes = n
  cases call with
  -- The three calls with a transaction of their own.
  | update invoice => exact behaves_update_iff invoice
  | upsert height => exact behaves_upsert_iff height
  | remove id => exact behaves_remove_iff id
  -- The call that passes over rows.
  | getIds => exact behaves_getIds_iff
  -- The calls that look at the count.
  | insertInvoice invoice =>
      refine behaves_insertRow_iff .duplicateInvoice (fun store => store.insertInvoice invoice) id
        (fun c => ?_) rfl (Store.insertInvoice_ne_self s invoice)
      rw [Except.map_id]
      rfl
  | insertOutputKey key outputId =>
      refine behaves_insertRow_iff .duplicateOutputKey (fun store => store.insertOutputKey key outputId)
        id (fun c => ?_) rfl (Store.insertOutputKey_ne_self s key outputId)
      rw [Except.map_id]
      rfl
  -- A single statement is its own transaction.
  | getInvoice id =>
      exact iff_of_true (behaves_select (fun store => store.getInvoice id) rfl rfl) trivial
  | containsSubIndex index =>
      exact iff_of_true (behaves_select (fun store =>
        store.invoices.any fun invoice => decide (invoice.index = index)) rfl rfl) trivial
  | tryForEach => exact iff_of_true (behaves_select Store.invoices rfl rfl) trivial
  | isEmpty => exact iff_of_true (behaves_select (fun store => store.invoices.isEmpty) rfl rfl) trivial
  | lowestHeight => exact iff_of_true (behaves_select Store.lowestHeight rfl rfl) trivial
  | getOutputKey key =>
      exact iff_of_true (behaves_select (fun store => store.outputKeys key) rfl rfl) trivial
  | getHeight => exact iff_of_true (behaves_select Store.height rfl rfl) trivial

end Call

/-! ## Runs -/

/-- The connection after a call. -/
def after (c : Sqlite) (call : Call × Faults) : Sqlite := (call.1.run call.2 c).2

/-- **Transaction discipline.** All calls of a run on a settled connection behave, each on the map
that the calls before it have left, exactly if each of them is disciplined where it is made. -/
theorem run_behaves_iff {c : Sqlite} (hc : c.Settled) (calls : List (Call × Faults)) :
    Along after (fun c call => Behaves c call.1 call.2) c calls
      ↔ Along after (fun c call => Disciplined c call.1 call.2) c calls :=
  along_iff (G := Connection.Settled) (fun _ _ _ hb => hb.settled)
    (fun _ call hc => behaves_iff hc call.1 call.2) hc calls

/-- An invoice for index 1 over 10 piconeros. -/
def someInvoice (description : String) : Invoice := Invoice.new "" ⟨0, 1⟩ 1 10 1 100 description

/-- A new database. -/
def newDatabase : Sqlite := .ofTables .empty 0

/-- Inserting an invoice, updating it with a failing commit that is rolled back, updating it again, and
listing the ids once the lock of another connection is gone. -/
theorem run_behaves_iff_inserted :
    Along after (fun c call => Behaves c call.1 call.2) newDatabase
      [(.insertInvoice (someInvoice "new"), {}),
        (.update (someInvoice "failed"),
          { commit := some { error := .database, rollsBack := true } }),
        (.update (someInvoice "updated"), {}), (.upsert 7, {}),
        (.getIds, { rows := some [.error { error := .database, locked := true }, .ok 0] })] := by
  refine (run_behaves_iff (Connection.settled_ofTables _ _) _).mpr
    ⟨.inr (.inr (.inl rfl)), .inr (.inr ⟨.inl ?_, ?_⟩), .inr (.inr ⟨.inl ?_, ?_⟩), .inr (.inr ?_),
      .inr ?_, trivial⟩
  · exact Option.isSome_iff_ne_none.mp rfl
  · exact (Faults.rollBack_iff _).mpr rfl
  · exact Option.isSome_iff_ne_none.mp rfl
  · exact (Faults.rollBack_iff _).mpr trivial
  · exact (Faults.rollBack_iff _).mpr trivial
  · rintro _ ⟨⟩
    exact .of_eq rfl

/-- An insertion that another connection keeps from beginning returns `Ok` after one that has
inserted its row, and nothing is inserted. -/
example :
    let c := after newDatabase (.upsert 7, {})
    let r := insertInvoice (someInvoice "") { write := some { error := .database, locked := true } } c
    r.1 = .ok () ∧ r.2.committed.invoices = [] :=
  ⟨rfl, rfl⟩

/-- **Updating an invoice that is not there breaks the next upsert**: the update returns `Ok(None)`
with the transaction open, and the upsert cannot begin its own. -/
theorem update_missing_leaves_transaction :
    (update (someInvoice "") {} newDatabase).1 = .ok none ∧
    (update (someInvoice "") {} newDatabase).2.inTransaction = true ∧
    (upsert 7 {} (after newDatabase (.update (someInvoice ""), {}))).1 = .error .database ∧
    ¬ Along after (fun c call => Behaves c call.1 call.2) newDatabase
      [(.update (someInvoice ""), {}), (.upsert 7, {})] := by
  refine ⟨rfl, rfl, rfl, fun h => ?_⟩
  cases h.1.settled.closed

end Sqlite

end AcceptXmr
