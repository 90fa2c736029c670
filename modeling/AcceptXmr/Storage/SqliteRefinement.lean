import AcceptXmr.Storage.SqliteTables

/-! # The Sqlite store refines a map

Two steps down from the storage traits: the calls on the tables against the same calls on a
connection to a store, whatever fails in them, and these against a map.

* **`simulates`** — a call on the tables answers as it does on the store, and leaves the connections
  in step.
* **`tables_refine_map`** — so does every call after any others, and if these were disciplined it
  answers what a map answers. -/

namespace AcceptXmr

namespace SqliteTables

open Connection (Related)

open Sqlite (boundValues Same rowResults readRows passRow)

open scoped List

/-! ## Calls -/

/-- What the arguments of a call have to fit in. -/
def CallFits : Sqlite.Call → Prop
  | .insertInvoice invoice => Invoice.codec.Fits invoice
  | .remove id => id.Fits
  | .update invoice => Invoice.codec.Fits invoice
  | .getInvoice id => id.Fits
  | .insertOutputKey _ outputId => OutputId.codec.Fits outputId
  | .upsert height => Codec.u64.Fits height
  | _ => True

/-- A call, the order in which it scans, and where the database fails in it. -/
structure Request where
  call : Sqlite.Call
  /-- The arguments are values of the source's machine types. -/
  fits : CallFits call
  scan : ScanOrder := .stored _
  faults : Faults := {}

/-- What a call yields that does not panic. -/
def returns {α : Type} (r : Except SqliteStorageError α × Connection SqliteTables) :
    Option (Except SqliteStorageError α) × Connection SqliteTables :=
  (some r.1, r.2)

/-- The call on the tables. A full scan is answered by the invoices over which the closure is run. -/
def run (scan : ScanOrder) : (call : Sqlite.Call) → Faults → Connection SqliteTables →
    Option (Except SqliteStorageError call.Response) × Connection SqliteTables
  | .insertInvoice invoice, faults, c => returns (insertInvoice invoice faults c)
  | .remove id, faults, c => returns (remove id faults c)
  | .update invoice, faults, c => returns (update invoice faults c)
  | .getInvoice id, faults, c => returns (getInvoice id faults c)
  | .getIds, faults, c => getIds scan faults c
  | .containsSubIndex index, faults, c => returns (containsSubIndex index faults c)
  | .tryForEach, faults, c => returns <| tryForEach
      (fun invoices invoiceOrErr => return invoices ++ [← invoiceOrErr]) [] scan faults c
  | .isEmpty, faults, c => returns (isEmpty faults c)
  | .lowestHeight, faults, c => returns (lowestHeight scan faults c)
  | .insertOutputKey key outputId, faults, c => returns (insertOutputKey key outputId faults c)
  | .getOutputKey key, faults, c => returns (getOutputKey key faults c)
  | .upsert height, faults, c => returns (upsert height faults c)
  | .getHeight, faults, c => returns (getHeight faults c)

/-- The answer of the tables is that of the store, and no panic. -/
inductive AnswersAs (call : Sqlite.Call) : Option (Except SqliteStorageError call.Response) →
    Except SqliteStorageError call.Response → Prop
  | ok {response response' : call.Response} (h : Same call response response') :
      AnswersAs call (some (.ok response)) (.ok response')
  | error (e : SqliteStorageError) : AnswersAs call (some (.error e)) (.error e)

/-- **A call on the tables simulates one on the store**: its answer is the same, and the connections
are in step afterwards. -/
structure Simulates (call : Sqlite.Call)
    (r : Option (Except SqliteStorageError call.Response) × Connection SqliteTables)
    (r' : Except SqliteStorageError call.Response × Sqlite) : Prop where
  answer : AnswersAs call r.1 r'.1
  related : Related Represents r.2 r'.2

/-! ## One call -/

/-- Equal answers that leave the connections in step. -/
structure Agrees {α : Type} (r : Except SqliteStorageError α × Connection SqliteTables)
    (r' : Except SqliteStorageError α × Sqlite) : Prop where
  answer : r.1 = r'.1
  related : Related Represents r.2 r'.2

/-- Calls with the same answer simulate one another. -/
theorem Agrees.simulates {call : Sqlite.Call}
    {r : Except SqliteStorageError call.Response × Connection SqliteTables}
    {r' : Except SqliteStorageError call.Response × Sqlite} (h : Agrees r r') :
    Simulates call (returns r) r' := by
  refine ⟨?_, h.related⟩
  rw [returns, h.answer]
  cases r'.1 with
  | error e => exact .error e
  | ok response => exact .ok (Sqlite.same_refl call response)

variable {c : Connection SqliteTables} {d : Sqlite} {faults : Faults}

/-- A failing statement. -/
theorem agrees_fail {α : Type} (h : Related Represents c d) (failure : Failure SqliteStorageError)
    (e : SqliteStorageError) :
    Agrees ((.error e : Except SqliteStorageError α), c.fail failure) (.error e, d.fail failure) :=
  ⟨rfl, h.fail failure⟩

/-- A failing statement that writes, which is dropped at the end of the call. -/
theorem agrees_failWrite {α : Type} (h : Related Represents c d) (failure : Failure SqliteStorageError) :
    Agrees ((.error failure.error : Except SqliteStorageError α), (c.failWrite failure).counted 0)
      (.error failure.error, (d.failWrite failure).counted 0) :=
  ⟨rfl, (h.failWrite failure).counted 0⟩

/-- A call that only reads, of tables that hold the store, gives what the store gives. -/
theorem select_agrees {α : Type} {read : SqliteTables → Except SqliteStorageError α}
    {readStore : Store → α} (h : Related Represents c d)
    (hread : ∀ {tables store}, Represents tables store → read tables = .ok (readStore store)) :
    Agrees (select read faults c) (Sqlite.select readStore faults.onStore d) := by
  rw [select, Sqlite.select, Faults.onStore]
  cases faults.query with
  | some failure => exact agrees_fail h failure failure.error
  | none => exact ⟨hread h.working, h⟩

/-- An insertion of a row agrees with that into the store, whichever statement fails. -/
theorem insertRow_agrees {duplicate : SqliteStorageError} {insert : SqliteTables → Option SqliteTables}
    {insertStore : Store → Except StoreError Store} (h : Related Represents c d)
    (hinsert : ∀ {tables store}, Represents tables store →
      match insertStore store with
      | .ok store' => ∃ tables', insert tables = some tables' ∧ Represents tables' store'
      | .error _ => insert tables = none) :
    Agrees (insertRow duplicate insert faults c)
      (Sqlite.insertRow duplicate insertStore faults.onStore d) := by
  rw [insertRow, Sqlite.insertRow, Faults.onStore]
  cases faults.prepare with
  | some failure => exact agrees_fail h failure failure.error
  | none =>
      cases faults.write with
      | some failure =>
          have hfailed := h.failWrite failure
          refine ⟨?_, hfailed.counted 0⟩
          dsimp only
          rw [hfailed.changes]
      | none =>
          have hworking := hinsert h.working
          cases hstore : insertStore d.working with
          | error e =>
              rw [hstore] at hworking
              simp only [hworking]
              exact ⟨rfl, h.counted 0⟩
          | ok store' =>
              rw [hstore] at hworking
              obtain ⟨tables', hrow, hrepresents⟩ := hworking
              simp only [hrow]
              exact ⟨rfl, ((h.write hrepresents).counted 1).finish⟩

/-- `get` of an invoice. -/
theorem getInvoice_agrees (h : Related Represents c d) {id : InvoiceId} (hid : id.Fits) :
    Agrees (getInvoice id faults c) (Sqlite.getInvoice id faults.onStore d) := by
  refine select_agrees h fun {tables store} hrepresents => ?_
  rw [hrepresents.find?_invoices hid]
  exact hrepresents.decode_invoice id

/-- `get` of the height. -/
theorem getHeight_agrees (h : Related Represents c d) :
    Agrees (getHeight faults c) (Sqlite.getHeight faults.onStore d) := by
  refine select_agrees h fun {tables store} hrepresents => ?_
  rw [hrepresents.height]
  exact decodeOption_map Codec.u64 hrepresents.fitsHeight

/-- `get` of an output key. -/
theorem getOutputKey_agrees (h : Related Represents c d) (key : OutputPubKey) :
    Agrees (getOutputKey key faults c) (Sqlite.getOutputKey key faults.onStore d) := by
  refine select_agrees h fun {tables store} hrepresents => ?_
  rw [hrepresents.outputKeys]
  exact decodeOption_map OutputId.codec (hrepresents.fitsOutputIds key)

/-- **`remove`** deletes the row of the invoice, and decodes what it held. -/
theorem remove_agrees (h : Related Represents c d) {id : InvoiceId} (hid : id.Fits) :
    Agrees (remove id faults c) (Sqlite.remove id faults.onStore d) := by
  rw [remove, Sqlite.remove, Faults.onStore]
  cases faults.prepare with
  | some failure => exact agrees_fail h failure failure.error
  | none =>
      cases faults.write with
      | some failure => exact agrees_failWrite h failure
      | none =>
          have hfind := h.working.find?_invoices hid
          have hdecode := h.working.decode_invoice id
          cases hget : d.working.getInvoice id with
          | none =>
              rw [hget, Option.map_none] at hfind
              simp only [hfind]
              exact ⟨rfl, h.counted 0⟩
          | some invoice =>
              rw [hget, Option.map_some] at hfind hdecode
              simp only [hfind]
              have hdeleted := (h.write (f := fun tables =>
                { tables with invoices := tables.invoices.delete (boundValues id) })
                (g := fun store => store.removeInvoice id) (h.working.removeInvoice hid)).counted 1
              cases faults.read with
              | some e => exact ⟨rfl, hdeleted.finish⟩
              | none =>
                  cases faults.commit with
                  | none => exact ⟨hdecode, hdeleted.finish⟩
                  | some failure =>
                      refine ⟨rfl, Related.counted ?_ 0⟩
                      rw [h.inTransaction]
                      split
                      · exact hdeleted.fail failure
                      · exact hdeleted.rollBack

/-- **`update`** reads, overwrites and commits as on the store, and leaves its transaction open where
it does there. -/
theorem update_agrees (h : Related Represents c d) {invoice : Invoice}
    (hfits : Invoice.codec.Fits invoice) :
    Agrees (update invoice faults c) (Sqlite.update invoice faults.onStore d) := by
  have hid := fits_id hfits
  rw [update, Sqlite.update]
  simp only [getInvoice, select, Faults.onStore]
  cases faults.start with
  | some failure => exact agrees_fail h failure failure.error
  | none =>
      rcases h.beginTransaction with ⟨hc, hd⟩ | ⟨c', d', hc, hd, h'⟩
      · simp only [hc, hd]
        exact ⟨rfl, h⟩
      · simp only [hc, hd]
        cases faults.query with
        | some failure => exact agrees_fail h' failure failure.error
        | none =>
            have hdecode := h'.working.decode_invoice invoice.id
            rw [← h'.working.find?_invoices hid] at hdecode
            simp only [hdecode]
            cases d'.working.getInvoice invoice.id with
            | none => exact ⟨rfl, h'⟩
            | some old =>
                cases faults.prepare with
                | some failure => exact agrees_fail h' failure failure.error
                | none =>
                    cases faults.write with
                    | some failure => exact agrees_failWrite h' failure
                    | none =>
                        have hupdated := (h'.write (f := fun tables =>
                          { tables with invoices :=
                              tables.invoices.set (boundValues invoice.id) (Invoice.codec.encode invoice) })
                          (g := fun store => store.updateInvoice invoice)
                          (h'.working.updateInvoice hfits)).counted 1
                        cases faults.commit with
                        | some failure => exact agrees_fail hupdated failure failure.error
                        | none => exact ⟨rfl, hupdated.commit⟩

/-- **`upsert`** reads, writes and commits as on the store. -/
theorem upsert_agrees (h : Related Represents c d) {height : ℕ} (hfits : Codec.u64.Fits height) :
    Agrees (upsert height faults c) (Sqlite.upsert height faults.onStore d) := by
  rw [upsert, Sqlite.upsert]
  simp only [getHeight, select, Faults.onStore]
  cases faults.start with
  | some failure => exact agrees_fail h failure failure.error
  | none =>
      rcases h.beginTransaction with ⟨hc, hd⟩ | ⟨c', d', hc, hd, h'⟩
      · simp only [hc, hd]
        exact ⟨rfl, h⟩
      · simp only [hc, hd]
        cases faults.query with
        | some failure => exact agrees_fail h' failure failure.error
        | none =>
            have hdecode := decodeOption_map Codec.u64 h'.working.fitsHeight
            rw [← h'.working.height] at hdecode
            simp only [hdecode]
            cases faults.prepare with
            | some failure => exact agrees_fail h' failure failure.error
            | none =>
                cases faults.write with
                | some failure => exact agrees_failWrite h' failure
                | none =>
                    have hupdated := (h'.write (f := fun tables =>
                      { tables with height := tables.height.upsert 0 (Codec.u64.encode height) })
                      (g := fun store => store.upsertHeight height) (h'.working.upsertHeight hfits)).counted 1
                    cases faults.commit with
                    | some failure => exact agrees_fail hupdated failure failure.error
                    | none => exact ⟨rfl, hupdated.commit⟩

/-- A row is inserted in one of the tables. -/
theorem insert_in_table {τ : Type} {inserted : Option τ} {put : τ → SqliteTables}
    {result : Except StoreError Store} :
    (match result with
      | .ok store' => ∃ table, inserted = some table ∧ Represents (put table) store'
      | .error _ => inserted = none) →
    match result with
      | .ok store' => ∃ tables', inserted.map put = some tables' ∧ Represents tables' store'
      | .error _ => inserted.map put = none := by
  intro h
  cases result with
  | error e => exact Option.map_eq_none_iff.mpr h
  | ok store' =>
      obtain ⟨table, hinserted, hrepresents⟩ := h
      exact ⟨put table, Option.map_eq_some_iff.mpr ⟨table, hinserted, rfl⟩, hrepresents⟩

/-- `insert` of an invoice. -/
theorem insertInvoice_agrees (h : Related Represents c d) {invoice : Invoice}
    (hfits : Invoice.codec.Fits invoice) :
    Agrees (insertInvoice invoice faults c) (Sqlite.insertInvoice invoice faults.onStore d) :=
  insertRow_agrees h fun {_ _} hrepresents => insert_in_table (hrepresents.insertInvoice hfits)

/-- `insert` of an output key. -/
theorem insertOutputKey_agrees (h : Related Represents c d) (key : OutputPubKey) {outputId : OutputId}
    (hfits : OutputId.codec.Fits outputId) :
    Agrees (insertOutputKey key outputId faults c)
      (Sqlite.insertOutputKey key outputId faults.onStore d) :=
  insertRow_agrees h fun {_ _} hrepresents => insert_in_table (hrepresents.insertOutputKey key hfits)

/-- `contains_sub_index`, which counts rows. -/
theorem containsSubIndex_agrees (h : Related Represents c d) (index : SubIndex) :
    Agrees (containsSubIndex index faults c) (Sqlite.containsSubIndex index faults.onStore d) := by
  refine select_agrees h fun {tables store} hrepresents => congrArg Except.ok ?_
  rw [Bool.eq_iff_iff, decide_eq_true_iff]
  exact hrepresents.countP_pos_iff index

/-- `is_empty`, which asks whether there is a row. -/
theorem isEmpty_agrees (h : Related Represents c d) :
    Agrees (isEmpty faults c) (Sqlite.isEmpty faults.onStore d) := by
  refine select_agrees h fun {tables store} hrepresents => congrArg Except.ok ?_
  rw [hrepresents.invoices.rows_eq]
  cases store.invoices with
  | nil => rfl
  | cons invoice invoices => rfl

/-- The order of the scan does not matter to the lowest height. -/
theorem lowestHeight_agrees (h : Related Represents c d) (scan : ScanOrder) :
    Agrees (lowestHeight scan faults c) (Sqlite.lowestHeight faults.onStore d) := by
  unfold lowestHeight tryForEach
  refine select_agrees h fun {tables store} hrepresents => ?_
  obtain ⟨invoices, hperm, hfold⟩ := hrepresents.foldlM_scan scan Sled.lower none
  exact hfold.trans (congrArg Except.ok (hperm.foldl_eq none))

/-- Rows that cannot be read leave the connections in step. -/
theorem related_passRows {α β γ : Type} (f : α → β) (g : α → γ) (h : Related Represents c d)
    (rows : List (Except (Failure SqliteStorageError) α)) :
    Related Represents ((rows.map (Except.map f)).foldl passRow c)
      ((rows.map (Except.map g)).foldl passRow d) := by
  induction rows generalizing c d with
  | nil => exact h
  | cons row rows ih =>
      cases row with
      | error failure => exact ih (h.fail failure)
      | ok a => exact ih h

/-- Rows that are all read leave a connection as it is. -/
theorem foldl_passRow_ok {σ α : Type} (rows : List α) (c : Connection σ) :
    (rows.map .ok).foldl passRow c = c := by
  induction rows with
  | nil => rfl
  | cons row rows ih => exact ih

/-- **`get_ids`** lists the same ids, whichever rows it steps to and whichever of them cannot be
read. -/
theorem getIds_simulates (h : Related Represents c d) (scan : ScanOrder) :
    Simulates .getIds (getIds scan faults c) (Sqlite.getIds faults.onStore d) := by
  rw [getIds, Sqlite.getIds, Faults.onStore]
  cases faults.query with
  | some failure => exact ⟨.error failure.error, h.fail failure⟩
  | none =>
      dsimp only [Sqlite.idRows]
      cases faults.rows with
      | none =>
          -- Every row once, in the order of the scan or in that of the primary key.
          obtain ⟨invoices, hperm, hrows⟩ := h.working.scan_eq scan
          have hids := h.working.getIdsOf_rows (invoices.map .ok) fun invoice hmem => by
            obtain ⟨invoice', hmem', heq⟩ := List.mem_map.mp hmem
            cases heq
            exact hperm.mem_iff.mp hmem'
          have hmap : (invoices.map Except.ok).map (Except.map row)
              = ((invoices.map row).map .ok : List (Except (Failure SqliteStorageError) _)) := by
            rw [List.map_map, List.map_map]
            rfl
          rw [hmap, Sqlite.readRows_map_ok] at hids
          simp only [rowResults, hrows, hids, foldl_passRow_ok, Sqlite.readRows_map_ok]
          exact ⟨.ok ((hperm.map _).trans (List.mergeSort_perm _ _).symm), h⟩
      | some steps =>
          have hids := h.working.getIdsOf_rows (rowResults (some steps) d.working.invoices [])
            fun invoice => Sqlite.mem_of_rowResults
          rw [h.working.invoices.rows_eq, Sqlite.rowResults_map row steps _ [], hids, Store.getIds,
            Sqlite.rowResults_map Invoice.id steps _ [], Sqlite.readRows_map]
          exact ⟨.ok (.refl _), related_passRows row Invoice.id h _⟩

/-- **One call** on the tables simulates it on the store. -/
theorem simulates (h : Related Represents c d) (scan : ScanOrder) {call : Sqlite.Call}
    (hfits : CallFits call) (faults : Faults) :
    Simulates call (run scan call faults c) (call.run faults.onStore d) := by
  cases call with
  | insertInvoice invoice => exact (insertInvoice_agrees h hfits).simulates
  | remove id => exact (remove_agrees h hfits).simulates
  | update invoice => exact (update_agrees h hfits).simulates
  | getInvoice id => exact (getInvoice_agrees h hfits).simulates
  | getIds => exact getIds_simulates h scan
  | containsSubIndex index => exact (containsSubIndex_agrees h index).simulates
  | tryForEach =>
      rw [run, Sqlite.Call.run, tryForEach, Sqlite.tryForEach, select, Sqlite.select, Faults.onStore]
      cases faults.query with
      | some failure => exact ⟨.error failure.error, h.fail failure⟩
      | none =>
          obtain ⟨invoices, hperm, hfold⟩ :=
            h.working.foldlM_scan scan (fun invoices invoice => invoices ++ [invoice]) []
          have hcollect : invoices.foldl (fun l a => l ++ [a]) [] = invoices := by
            rw [List.foldl_append_eq_append, List.nil_append, ← List.flatMap_def]
            exact List.flatMap_singleton' invoices
          rw [hcollect] at hfold
          dsimp only
          rw [hfold]
          exact ⟨.ok hperm, h⟩
  | isEmpty => exact (isEmpty_agrees h).simulates
  | lowestHeight => exact (lowestHeight_agrees h scan).simulates
  | insertOutputKey key outputId => exact (insertOutputKey_agrees h key hfits).simulates
  | getOutputKey key => exact (getOutputKey_agrees h key).simulates
  | upsert height => exact (upsert_agrees h hfits).simulates
  | getHeight => exact (getHeight_agrees h).simulates

/-! ## Runs -/

/-- The request to a connection to a store. -/
def Request.onStore (self : Request) : Sqlite.Call × Sqlite.Faults :=
  (self.call, self.faults.onStore)

/-- The answer to a request. -/
def Request.answer (self : Request) (c : Connection SqliteTables) :
    Option (Except SqliteStorageError self.call.Response) :=
  (run self.scan self.call self.faults c).1

/-- The connection after a request. -/
def after (c : Connection SqliteTables) (request : Request) : Connection SqliteTables :=
  (run request.scan request.call request.faults c).2

/-- A new database. -/
def newTables : Connection SqliteTables := .ofTables empty 0

/-- Requests keep connections in step. -/
theorem related_after (h : Related Represents c d) (requests : List Request) :
    Related Represents (requests.foldl after c)
      ((requests.map Request.onStore).foldl Sqlite.after d) := by
  induction requests generalizing c d with
  | nil => exact h
  | cons request requests ih => exact ih (simulates h request.scan request.fits request.faults).related

/-- **Tables that hold a store**, with everything committed and no transaction open. -/
def Stores (c : Connection SqliteTables) (store : Store) : Prop :=
  Related Represents c (.ofTables store c.changes)

/-- Tables in step with a settled connection to a store. -/
theorem stores_of_related {store : Store} {changes : ℕ}
    (h : Related Represents c (.ofTables store changes)) : Stores c store := by
  have hchanges : c.changes = changes := h.changes
  rw [Stores, hchanges]
  exact h

/-- **A request acts as on a map**: without a panic, and if it succeeds, it answers as the map does
and leaves tables with what is then in the map, all committed; if it fails, the tables are still those
of the map. -/
structure ActsAsMap (store : Store) (c : Connection SqliteTables) (request : Request) : Prop where
  answers : request.answer c ≠ none
  succeeds : ∀ response, request.answer c = some (.ok response) →
    ∃ response' store', request.call.onMap store = some (response', store') ∧
      Same request.call response response' ∧ Stores (after c request) store'
  fails : ∀ e, request.answer c = some (.error e) → Stores (after c request) store

/-- A request that simulates a call which behaves acts as on a map. -/
theorem actsAsMap {store : Store} {changes : ℕ} {request : Request}
    (h : Simulates request.call (run request.scan request.call request.faults c)
      (request.call.run request.faults.onStore (.ofTables store changes)))
    (hb : Sqlite.Behaves (.ofTables store changes) request.call request.faults.onStore) :
    ActsAsMap store c request := by
  obtain ⟨hanswer, hrelated⟩ := h
  rw [hb.settled.eq_ofTables] at hrelated
  have hstores := stores_of_related hrelated
  have hsucceeds := hb.succeeds
  have hfails := hb.fails
  constructor
  · intro hnone
    rw [Request.answer] at hnone
    rw [hnone] at hanswer
    cases hanswer
  · intro response hresponse
    rw [Request.answer] at hresponse
    rw [hresponse] at hanswer
    generalize hr : (request.call.run request.faults.onStore (.ofTables store changes)).1 = r at hanswer
    cases hanswer with
    | ok hsame =>
        obtain ⟨response', hmap, hsame'⟩ := hsucceeds _ hr
        exact ⟨response', _, hmap, hsame.trans hsame', hstores⟩
  · intro e he
    rw [Request.answer] at he
    rw [he] at hanswer
    generalize hr : (request.call.run request.faults.onStore (.ofTables store changes)).1 = r at hanswer
    cases hanswer with
    | error =>
        rw [hfails e hr] at hstores
        exact hstores

/-- The database that the calls of some requests leave. -/
def storeAfter (requests : List Request) : Sqlite :=
  (requests.map Request.onStore).foldl Sqlite.after Sqlite.newDatabase

/-- **The tables refine a map.** Whatever has failed before, a request answers as the call on the
store does, and leaves the tables in step with it. If all requests have been disciplined, then it acts
as on a map. -/
theorem tables_refine_map (requests : List Request) (request : Request) :
    Simulates request.call (run request.scan request.call request.faults (requests.foldl after newTables))
        (request.call.run request.faults.onStore (storeAfter requests)) ∧
      (Along Sqlite.after (fun d call => Sqlite.Disciplined d call.1 call.2) Sqlite.newDatabase
          ((requests ++ [request]).map Request.onStore) →
        ∃ store, Stores (requests.foldl after newTables) store ∧
          ActsAsMap store (requests.foldl after newTables) request) := by
  have hnew : Related Represents newTables Sqlite.newDatabase :=
    Connection.related_ofTables Represents.empty 0
  have hrelated := related_after hnew requests
  have hsimulates := simulates hrelated request.scan request.fits request.faults
  refine ⟨hsimulates, fun hdisciplined => ?_⟩
  have hsettled : Sqlite.newDatabase.Settled := Connection.settled_ofTables _ _
  have hbehave := (Sqlite.run_behaves_iff hsettled _).mpr hdisciplined
  rw [List.map_append, along_append_iff] at hbehave
  obtain ⟨hbefore, hlast, -⟩ := hbehave
  -- The calls so far have left the store settled.
  have hnow := (hbefore.good (G := Connection.Settled) (fun _ _ _ hb => hb.settled) hsettled).eq_ofTables
  rw [hnow] at hrelated hsimulates hlast
  exact ⟨_, stores_of_related hrelated, actsAsMap hsimulates hlast⟩

/-- An invoice with a short description fits. -/
theorem fits_someInvoice {description : String} (h : (Codec.stringBytes description).length < 2 ^ 64) :
    Invoice.codec.Fits (Sqlite.someInvoice description) := by
  have hsmall : ∀ n < 256, Codec.u64.Fits n := fun n hn => Nat.lt_trans hn (by decide)
  refine ⟨hsmall 0 ?_, ⟨trivial, trivial⟩, hsmall 1 ?_, hsmall 10 ?_, hsmall 0 ?_, nofun, hsmall 1 ?_,
    hsmall 0 ?_, hsmall 101 ?_, ⟨hsmall 0 ?_, nofun⟩, h⟩
  all_goals decide

/-- Ids are listed after an invoice has been inserted and an update of it has failed and has been
rolled back, and a lock of another connection does not lose any. -/
theorem tables_refine_map_inserted :
    let insertion : Request :=
      { call := .insertInvoice (Sqlite.someInvoice "new"), fits := fits_someInvoice (by decide) }
    let failing : Request :=
      { call := .update (Sqlite.someInvoice "failed"), fits := fits_someInvoice (by decide)
        faults := { commit := some { error := .database, rollsBack := true } } }
    let listing : Request :=
      { call := .getIds, fits := trivial
        faults := { rows := some [.error { error := .database, locked := true }, .ok 0] } }
    ∃ store, Stores ([insertion, failing].foldl after newTables) store ∧
      ActsAsMap store ([insertion, failing].foldl after newTables) listing := by
  intro insertion failing listing
  refine (tables_refine_map [insertion, failing] listing).2
    ⟨.inr (.inr (.inl rfl)), .inr (.inr ⟨.inl ?_, ?_⟩), .inr ?_, trivial⟩
  · exact Option.isSome_iff_ne_none.mp rfl
  · exact (Sqlite.Faults.rollBack_iff _).mpr rfl
  · rintro _ ⟨⟩
    exact .of_eq rfl

end SqliteTables

end AcceptXmr
