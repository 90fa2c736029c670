import AcceptXmr.Library.ParIter
import AcceptXmr.Scanner.ScanTransactions

/-! # Scanning in parallel

`Scanner::scan_transactions` checks the outputs of many transactions in parallel and then goes over
the owned ones in order, since an output whose key has been seen before does not count. This file
compares it with the definition one would write down: one transaction after the other, one output
after the other, with a record of the keys seen so far.

* **`scanTransactionsSplit_eq`** — the result does not depend on how the work is split.
* **`run_scanOutputs`** — the loop over the owned outputs, run alone.
* **`parallel_scan_is_sequential`** — what `scan_transactions` returns and records. -/

namespace AcceptXmr

open AssocMap

/-! ## The source's order of work -/

/-- `check_outputs_with`, which may fail. -/
def checkOutputs (checkFails : Transaction → Bool) (checker : SubKeyChecker) (tx : Transaction) :
    Except ScannerError (Hash × List OwnedTxOut) :=
  if checkFails tx then .error .ownedOutputCheck else .ok (tx.hash, tx.checkOutputsWith checker)

/-- `scan_transactions`, with the split of its transactions that the thread pool makes. -/
def scanTransactionsSplit (checkFails : Transaction → Bool) (transactions : Split Transaction)
    (checker : SubKeyChecker) : Program (List (Hash × List OwnedAmount)) :=
  match transactions.collect (fun tx => tx.unlockTime = 0) (checkOutputs checkFails checker) with
  | .error e => .done (.error e)
  | .ok ownedOutputsPerTx =>
      scanOutputs (ownedOutputsPerTx.flatMap fun e => e.2.map fun output => (e.1, output)) []

/-- Checking transactions one after the other. -/
theorem mapM_checkOutputs_eq_ok_iff {checkFails : Transaction → Bool} {checker : SubKeyChecker}
    {txs : List Transaction} {owned : List (Hash × List OwnedTxOut)} :
    txs.mapM (checkOutputs checkFails checker) = .ok owned ↔
      txs.any checkFails = false ∧
        owned = txs.map fun tx => (tx.hash, tx.checkOutputsWith checker) := by
  induction txs generalizing owned with
  | nil =>
      rw [List.mapM_nil]
      exact ⟨fun h => ⟨rfl, (Except.ok.inj h).symm⟩, fun h => congrArg Except.ok h.2.symm⟩
  | cons tx txs ih =>
      rw [List.mapM_cons, Split.bind_eq_ok_iff]
      simp only [Split.bind_eq_ok_iff, ih, List.any_cons, Bool.or_eq_false_iff, checkOutputs]
      constructor
      · rintro ⟨e, he, rest, ⟨hany, rfl⟩, howned⟩
        split at he
        · cases he
        · rename_i hcheck
          cases he
          exact ⟨⟨Bool.eq_false_iff.mpr hcheck, hany⟩, (Except.ok.inj howned).symm⟩
      · rintro ⟨⟨hcheck, hany⟩, rfl⟩
        exact ⟨_, by rw [if_neg (Bool.eq_false_iff.mp hcheck)], _, ⟨hany, rfl⟩, rfl⟩

/-- **The split does not matter.** -/
theorem scanTransactionsSplit_eq (checkFails : Transaction → Bool) (transactions : Split Transaction)
    (checker : SubKeyChecker) : scanTransactionsSplit checkFails transactions checker
      = scanTransactions checkFails transactions.items checker := by
  rw [scanTransactionsSplit, scanTransactions]
  cases hcollect : transactions.collect (fun tx => tx.unlockTime = 0)
      (checkOutputs checkFails checker) with
  | error e =>
      obtain ⟨tx, htx⟩ := Split.error_of_collect hcollect
      have he : e = .ownedOutputCheck := by
        rw [checkOutputs] at htx
        split at htx
        · exact (Except.error.inj htx).symm
        · cases htx
      have hany : (transactions.items.filter fun tx => decide (tx.unlockTime = 0)).any checkFails
          = true := by
        by_contra hnone
        have hok := Split.collect_eq_ok_iff.mpr ((@mapM_checkOutputs_eq_ok_iff checkFails checker _ _).mpr
          ⟨Bool.eq_false_iff.mpr hnone, rfl⟩)
        rw [hcollect] at hok
        cases hok
      rw [if_pos hany, he]
  | ok owned =>
      obtain ⟨hany, rfl⟩ := mapM_checkOutputs_eq_ok_iff.mp (Split.collect_eq_ok_iff.mp hcollect)
      rw [if_neg (Bool.eq_false_iff.mp hany)]
      simp only [ownedOutputs, List.flatMap_map]

/-! ## One output after the other -/

/-- A record of output keys. -/
abbrev KeyRecord := OutputPubKey → Option OutputId

/-- Whether the key of an output is recorded for another output. -/
def isDuplicate (keys : KeyRecord) (txHash : Hash) (output : OwnedTxOut) : Bool :=
  match keys output.key with
  | some id => decide (id ≠ ⟨txHash, output.index⟩)
  | none => false

/-- The record after an output has been seen. -/
def recordKey (keys : KeyRecord) (txHash : Hash) (output : OwnedTxOut) : KeyRecord :=
  match keys output.key with
  | some _ => keys
  | none => Function.update keys output.key (some ⟨txHash, output.index⟩)

/-- **The outputs of one transaction that count**, and the record after it: those to a tracked index
whose key is not recorded for another output. Every key is recorded. -/
def creditOutputs (tracks : SubIndex → Bool) (txHash : Hash) :
    List OwnedTxOut → KeyRecord → List OwnedTxOut × KeyRecord
  | [], keys => ([], keys)
  | output :: outputs, keys =>
      let rest := creditOutputs tracks txHash outputs (recordKey keys txHash output)
      (if !isDuplicate keys txHash output && tracks output.subIndex then output :: rest.1
        else rest.1, rest.2)

/-- **The sequential definition**: one transaction after the other, those with a time lock skipped.
A transaction without outputs that count is absent. -/
def scanSequentially (tracks : SubIndex → Bool) (checker : SubKeyChecker) :
    List Transaction → KeyRecord → List (Hash × List OwnedTxOut) × KeyRecord
  | [], keys => ([], keys)
  | tx :: txs, keys =>
      -- Transactions with a time lock are passed over, and their keys are not recorded.
      if tx.unlockTime = 0 then
        let credited := creditOutputs tracks tx.hash (tx.checkOutputsWith checker) keys
        let rest := scanSequentially tracks checker txs credited.2
        (if credited.1 = [] then rest.1 else (tx.hash, credited.1) :: rest.1, rest.2)
      else scanSequentially tracks checker txs keys

/-! ## The loop over the owned outputs, run alone -/

section Run

variable {S : Backend} {s t : Shared}

/-- Taking the next fault leaves the store alone. -/
theorem store_nextFault (s : Shared) : s.nextFault.2.store = s.store := by
  unfold Shared.nextFault
  split <;> rfl

/-- Looking up a key, if it succeeds. -/
theorem handle_getOutputKeyId_eq {key : OutputPubKey} {found : Option OutputId}
    (h : (handle S (.getOutputKeyId key) s).1 = .ok found) :
    found = s.store.outputKeys key ∧ (handle S (.getOutputKeyId key) s).2.store = s.store := by
  simp only [handle, serve] at h ⊢
  split at h
  · cases h
  · cases h
    exact ⟨by rw [store_nextFault], store_nextFault s⟩

/-- Recording a key, if it succeeds. -/
theorem handle_insertOutputKey_eq {key : OutputPubKey} {outputId : OutputId}
    (h : (handle S (.insertOutputKey key outputId) s).1 = .ok ()) :
    (handle S (.insertOutputKey key outputId) s).2.store.outputKeys
      = Function.update s.store.outputKeys key (some outputId) := by
  simp only [handle, serve] at h ⊢
  split at h
  · cases h
  · simp only [Store.insertOutputKey] at h ⊢
    cases hk : s.nextFault.2.store.outputKeys key with
    | some id =>
        rw [hk] at h
        cases h
    | none => simp only [store_nextFault]

/-- **The uniqueness check**, run alone: it tells whether the key is recorded for another output, and
records it if it is not recorded. -/
theorem run_outputKeyIsUnique {output : OwnedTxOut} {txHash : Hash} {found : Bool}
    (h : (outputKeyIsUnique output txHash).run (handle S) s = (.ok found, t)) :
    found = !isDuplicate s.store.outputKeys txHash output ∧
      t.store.outputKeys = recordKey s.store.outputKeys txHash output := by
  unfold outputKeyIsUnique at h
  split at h
  · cases h
  · change Resumption.run _ (Resumption.bind _ _) s = _ at h
    -- First request: the id under which the key is recorded.
    rw [Resumption.run_bind, StorageClient.getOutputKeyId, Resumption.run_call,
      Resumption.run_done] at h
    cases hget : (handle S (.getOutputKeyId output.key) s).1 with
    | error e =>
        rw [hget] at h
        cases h
    | ok stored =>
        rw [hget] at h
        obtain ⟨rfl, hstore⟩ := handle_getOutputKeyId_eq hget
        cases hk : s.store.outputKeys output.key with
        -- A recorded key: nothing is inserted, and the ids are compared.
        | some id =>
            simp only [hk] at h
            cases h
            simp only [isDuplicate, recordKey, hk, hstore, decide_not, Bool.not_not, and_self]
        -- Second request, for a new key only: record it under the id of this output.
        | none =>
            simp only [hk] at h
            change Resumption.run _ (Resumption.bind _ _) _ = _ at h
            rw [Resumption.run_bind, StorageClient.insertOutputKey, Resumption.run_call,
              Resumption.run_done] at h
            cases hins : (handle S (.insertOutputKey output.key ⟨txHash, output.index⟩)
                (handle S (.getOutputKeyId output.key) s).2).1 with
            | error e =>
                rw [hins] at h
                cases h
            | ok _ =>
                rw [hins] at h
                cases h
                rw [handle_insertOutputKey_eq hins, hstore]
                simp only [isDuplicate, recordKey, hk, Bool.not_false, and_self]

/-- Asking for an index leaves the store. -/
theorem store_handle_containsSubIndex (index : SubIndex) :
    (handle S (.containsSubIndex index) s).2.store = s.store := by
  simp only [handle, serve]
  split <;> exact store_nextFault s

/-- **One output**, run alone: it is received if it counts. -/
theorem run_scanOutput {txHash : Hash} {output : OwnedTxOut} {got : Option OwnedAmount}
    (h : (scanOutput txHash output).run (handle S) s = (.ok got, t)) :
    t.store.invoices = s.store.invoices ∧
      t.store.outputKeys = recordKey s.store.outputKeys txHash output ∧
      if !isDuplicate s.store.outputKeys txHash output &&
          S.containsSubIndex s.store.invoices output.subIndex
        then ∃ a, got = some a ∧ receivedWith (txHash, output) = some (txHash, a)
        else got = none := by
  change Resumption.run _ (Resumption.bind _ _) s = _ at h
  rw [Resumption.run_bind] at h
  -- The key is checked and recorded before anything is asked about invoices.
  cases hcheck : (outputKeyIsUnique output txHash).run (handle S) s with
  | mk checked u =>
      rw [hcheck] at h
      cases checked with
      | error e => cases h
      | ok unique =>
          -- What is left to decide the result: whether the key is a duplicate, and whether its
          -- index is tracked.
          obtain ⟨hunique, hkeys⟩ := run_outputKeyIsUnique hcheck
          have hinvoices : u.store.invoices = s.store.invoices := by
            have hgrows := (outputKeyIsUnique_sat (S := S) Grows.refl (fun _ _ h => h.keysKept)
              output txHash s).run_guarantee Grows.refl Grows.refl (fun _ _ _ => Grows.trans)
              (fun _ _ h => h)
            rw [hcheck] at hgrows
            exact hgrows.invoices
          rw [← hunique]
          cases unique with
          | false =>
              cases h
              exact ⟨hinvoices, hkeys, rfl⟩
          | true =>
              simp only [if_true] at h
              change Resumption.run _ (Resumption.bind _ _) _ = _ at h
              rw [Resumption.run_bind, StorageClient.containsSubIndex, Resumption.run_call,
                Resumption.run_done] at h
              have hstore := store_handle_containsSubIndex (S := S) (s := u) output.subIndex
              cases hans : (handle S (.containsSubIndex output.subIndex) u).1 with
              | error e =>
                  rw [hans] at h
                  cases h
              | ok tracked =>
                  rw [hans] at h
                  have htracked := handle_containsSubIndex_ok hans
                  rw [hinvoices] at htracked
                  rw [← htracked]
                  cases tracked with
                  | false =>
                      cases h
                      rw [hstore]
                      exact ⟨hinvoices, hkeys, rfl⟩
                  | true =>
                      -- An output without a known amount ends the scan with an error.
                      cases hamount : output.amount with
                      | none =>
                          simp only [hamount] at h
                          cases h
                      | some amount =>
                          simp only [hamount] at h
                          cases h
                          rw [hstore]
                          refine ⟨hinvoices, hkeys, _, rfl, ?_⟩
                          rw [receivedWith, hamount]
                          rfl

/-- The outputs of several transactions that count, and the record after them. -/
def creditAll (tracks : SubIndex → Bool) :
    List (Hash × OwnedTxOut) → KeyRecord → List (Hash × OwnedTxOut) × KeyRecord
  | [], keys => ([], keys)
  | (txHash, output) :: outputs, keys =>
      let rest := creditAll tracks outputs (recordKey keys txHash output)
      (if !isDuplicate keys txHash output && tracks output.subIndex then (txHash, output) :: rest.1
        else rest.1, rest.2)

/-- **All outputs**, run alone: what is pushed are the amounts of those that count. -/
theorem run_scanOutputs {outputs : List (Hash × OwnedTxOut)}
    {amountsReceived m : List (Hash × List OwnedAmount)}
    (h : (scanOutputs outputs amountsReceived).run (handle S) s = (.ok m, t)) :
    t.store.outputKeys = (creditAll (S.containsSubIndex s.store.invoices) outputs
        s.store.outputKeys).2 ∧
      ∃ amounts, m = pushEntries amountsReceived amounts ∧
        (creditAll (S.containsSubIndex s.store.invoices) outputs s.store.outputKeys).1.map
          receivedWith = amounts.map some := by
  induction outputs generalizing amountsReceived s with
  | nil =>
      cases h
      exact ⟨rfl, [], rfl, rfl⟩
  | cons p outputs ih =>
      obtain ⟨txHash, output⟩ := p
      rw [scanOutputs] at h
      change Resumption.run _ (Resumption.bind _ _) s = _ at h
      rw [Resumption.run_bind] at h
      -- One output after the other; what it records is seen by those behind it.
      cases hone : (scanOutput txHash output).run (handle S) s with
      | mk result u =>
          rw [hone] at h
          cases result with
          | error e => cases h
          | ok got =>
              obtain ⟨hinvoices, hkeys, hgot⟩ := run_scanOutput hone
              rw [creditAll]
              simp only
              split at hgot
              · rename_i hcounts
                obtain ⟨a, rfl, hreceived⟩ := hgot
                obtain ⟨hrecord, amounts, rfl, hamounts⟩ := ih h
                rw [hinvoices, hkeys] at hrecord hamounts
                refine ⟨hrecord, (txHash, a) :: amounts, rfl, ?_⟩
                rw [if_pos hcounts, List.map_cons, List.map_cons, hreceived, hamounts]
              · rename_i hnot
                subst hgot
                obtain ⟨hrecord, amounts, rfl, hamounts⟩ := ih h
                rw [hinvoices, hkeys] at hrecord hamounts
                refine ⟨hrecord, amounts, rfl, ?_⟩
                rw [if_neg hnot, hamounts]

end Run

/-! ## From outputs to transactions -/

/-- Outputs are credited one after the other, the later ones with the keys that the earlier ones have
recorded. -/
theorem creditAll_append (tracks : SubIndex → Bool) (outputs outputs' : List (Hash × OwnedTxOut))
    (keys : KeyRecord) :
    creditAll tracks (outputs ++ outputs') keys =
      ((creditAll tracks outputs keys).1
          ++ (creditAll tracks outputs' (creditAll tracks outputs keys).2).1,
        (creditAll tracks outputs' (creditAll tracks outputs keys).2).2) := by
  induction outputs generalizing keys with
  | nil => rfl
  | cons p outputs ih =>
      simp only [List.cons_append, creditAll, ih]
      split <;> rfl

/-- The outputs of one transaction are credited as `creditOutputs` does. -/
theorem creditAll_map (tracks : SubIndex → Bool) (txHash : Hash) (outputs : List OwnedTxOut)
    (keys : KeyRecord) :
    creditAll tracks (outputs.map fun output => (txHash, output)) keys =
      ((creditOutputs tracks txHash outputs keys).1.map fun output => (txHash, output),
        (creditOutputs tracks txHash outputs keys).2) := by
  induction outputs generalizing keys with
  | nil => rfl
  | cons output outputs ih =>
      simp only [List.map_cons, creditAll, creditOutputs, ih]
      split <;> rfl

/-- **One transaction after the other** is one output after the other. -/
theorem creditAll_ownedOutputs (tracks : SubIndex → Bool) (checker : SubKeyChecker)
    (txs : List Transaction) (keys : KeyRecord) :
    creditAll tracks (ownedOutputs checker txs) keys =
      ((scanSequentially tracks checker txs keys).1.flatMap
          fun e => e.2.map fun output => (e.1, output),
        (scanSequentially tracks checker txs keys).2) := by
  induction txs generalizing keys with
  | nil => rfl
  | cons tx txs ih =>
      rw [scanSequentially, ownedOutputs, List.filter_cons]
      by_cases hlock : tx.unlockTime = 0
      · rw [if_pos (by simpa using hlock), if_pos hlock, List.flatMap_cons, creditAll_append,
          creditAll_map, ← ownedOutputs, ih]
        simp only
        split
        · rename_i hnone
          rw [hnone]
          rfl
        · rw [List.flatMap_cons]
      · rw [if_neg (by simpa using hlock), if_neg hlock, ← ownedOutputs, ih]

/-- The hashes in the result are hashes of transactions without a time lock, each at most once, and
none has an empty list. -/
theorem scanSequentially_keys (tracks : SubIndex → Bool) (checker : SubKeyChecker)
    (txs : List Transaction) (keys : KeyRecord) :
    (AssocMap.keys (scanSequentially tracks checker txs keys).1).Sublist
        ((txs.filter fun tx => tx.unlockTime = 0).map (·.hash)) ∧
      ∀ e ∈ (scanSequentially tracks checker txs keys).1, e.2 ≠ [] := by
  induction txs generalizing keys with
  | nil => exact ⟨.slnil, nofun⟩
  | cons tx txs ih =>
      rw [scanSequentially, List.filter_cons]
      by_cases hlock : tx.unlockTime = 0
      · rw [if_pos hlock, if_pos (by simpa using hlock), List.map_cons]
        obtain ⟨hsub, hne⟩ := ih (creditOutputs tracks tx.hash (tx.checkOutputsWith checker) keys).2
        simp only
        split
        · exact ⟨hsub.cons _, hne⟩
        · rename_i hsome
          refine ⟨hsub.cons_cons _, fun e he => ?_⟩
          rcases List.mem_cons.mp he with rfl | he
          · exact hsome
          · exact hne e he
      · rw [if_neg hlock, if_neg (by simpa using hlock)]
        exact ih keys

/-! ## What is recorded -/

/-- A key that has been met is recorded. -/
theorem recordKey_ne_none (keys : KeyRecord) (txHash : Hash) (output : OwnedTxOut) :
    recordKey keys txHash output output.key ≠ none := by
  cases hk : keys output.key with
  | some id => simp [recordKey, hk]
  | none => simp [recordKey, hk]

/-- No other key is. -/
theorem recordKey_of_ne (keys : KeyRecord) (txHash : Hash) (output : OwnedTxOut) {key : OutputPubKey}
    (h : output.key ≠ key) : recordKey keys txHash output key = keys key := by
  cases hk : keys output.key with
  | some id => simp only [recordKey, hk]
  | none =>
      simp only [recordKey, hk]
      exact Function.update_of_ne h.symm _ _

/-- A key that was recorded stays so. -/
theorem recordKey_kept {keys : KeyRecord} {key : OutputPubKey} (h : keys key ≠ none) (txHash : Hash)
    (output : OwnedTxOut) : recordKey keys txHash output key ≠ none := by
  by_cases heq : output.key = key
  · rw [← heq]
    exact recordKey_ne_none keys txHash output
  · rw [recordKey_of_ne keys txHash output heq]
    exact h

/-- **The record after some outputs**: their keys are recorded, and about other keys nothing has
changed. -/
theorem creditAll_record (tracks : SubIndex → Bool) (outputs : List (Hash × OwnedTxOut))
    (keys : KeyRecord) (key : OutputPubKey) :
    ((∃ p ∈ outputs, p.2.key = key) ∨ keys key ≠ none →
        (creditAll tracks outputs keys).2 key ≠ none) ∧
      ((∀ p ∈ outputs, p.2.key ≠ key) → (creditAll tracks outputs keys).2 key = keys key) := by
  induction outputs generalizing keys with
  | nil => exact ⟨fun h => h.resolve_left nofun, fun _ => rfl⟩
  | cons p outputs ih =>
      obtain ⟨txHash, output⟩ := p
      obtain ⟨hrecorded, hkept⟩ := ih (recordKey keys txHash output)
      rw [creditAll]
      refine ⟨fun h => hrecorded ?_, fun h => ?_⟩
      · rcases h with ⟨p, hp, rfl⟩ | h
        · rcases List.mem_cons.mp hp with rfl | hp
          · exact .inr (recordKey_ne_none keys txHash output)
          · exact .inl ⟨p, hp, rfl⟩
        · exact .inr (recordKey_kept h txHash output)
      · rw [List.forall_mem_cons] at h
        exact (hkept h.2).trans (recordKey_of_ne keys txHash output h.1)

/-! ## The whole scan -/

/-- What the result says of a received amount. -/
def OwnedAmount.entry (a : OwnedAmount) : SubIndex × Option ℕ := (a.subIndex, some a.amount)

/-- What the sequential definition says of an output that counts. -/
def OwnedTxOut.entry (output : OwnedTxOut) : SubIndex × Option ℕ := (output.subIndex, output.amount)

/-- The amounts received are those of the outputs. -/
theorem map_entry_of_receivedWith {outputs : List (Hash × OwnedTxOut)}
    {amounts : List (Hash × OwnedAmount)} (h : outputs.map receivedWith = amounts.map some) :
    amounts.map (fun e => (e.1, e.2.entry)) = outputs.map fun p => (p.1, p.2.entry) := by
  induction outputs generalizing amounts with
  | nil =>
      rw [List.map_eq_nil_iff.mp h.symm]
      rfl
  | cons p outputs ih =>
      cases amounts with
      | nil => cases h
      | cons e amounts =>
          obtain ⟨hp, hrest⟩ := List.cons.inj h
          obtain ⟨hhash, hindex, hamount, -⟩ := receivedWith_eq_some hp
          rw [List.map_cons, List.map_cons, ih hrest, hhash, OwnedAmount.entry, OwnedTxOut.entry,
            hindex, hamount]

/-- An owned output of a transaction without a time lock is among the owned outputs. -/
theorem mem_ownedOutputs {checker : SubKeyChecker} {txs : List Transaction} {tx : Transaction}
    {output : OwnedTxOut} (htx : tx ∈ txs) (hlock : tx.unlockTime = 0)
    (hout : output ∈ tx.checkOutputsWith checker) :
    (tx.hash, output) ∈ ownedOutputs checker txs :=
  List.mem_flatMap.mpr ⟨tx, List.mem_filter.mpr ⟨htx, by simpa using hlock⟩,
    List.mem_map.mpr ⟨output, hout, rfl⟩⟩

/-- **Parallel scanning is sequential scanning.** However the transactions are split, if a scan of
transactions with distinct hashes that runs alone succeeds, it returns for every hash the amounts, in
output order, of the outputs that the sequential definition counts, and no other hashes. It leaves
the record of that definition. Transactions with a time lock have no entry; the key of every owned
output of the others is recorded, and no other key is. -/
theorem parallel_scan_is_sequential {S : Backend} {checkFails : Transaction → Bool}
    {transactions : Split Transaction} {checker : SubKeyChecker} {s t : Shared}
    {m : List (Hash × List OwnedAmount)} (hdistinct : (transactions.items.map (·.hash)).Nodup)
    (h : (scanTransactionsSplit checkFails transactions checker).run (handle S) s = (.ok m, t)) :
    m.map (fun e => (e.1, e.2.map OwnedAmount.entry))
        = (scanSequentially (S.containsSubIndex s.store.invoices) checker transactions.items
            s.store.outputKeys).1.map (fun e => (e.1, e.2.map OwnedTxOut.entry)) ∧
      t.store.outputKeys = (scanSequentially (S.containsSubIndex s.store.invoices) checker
        transactions.items s.store.outputKeys).2 ∧
      (∀ tx ∈ transactions.items, tx.unlockTime ≠ 0 → tx.hash ∉ keys m) ∧
      (∀ tx ∈ transactions.items, tx.unlockTime = 0 → ∀ output ∈ tx.checkOutputsWith checker,
        t.store.outputKeys output.key ≠ none) ∧
      ∀ key, (∀ tx ∈ transactions.items, tx.unlockTime = 0 →
          ∀ output ∈ tx.checkOutputsWith checker, output.key ≠ key) →
        t.store.outputKeys key = s.store.outputKeys key := by
  rw [scanTransactionsSplit_eq, scanTransactions] at h
  split at h
  · cases h
  · obtain ⟨hrecord, amounts, rfl, hamounts⟩ := run_scanOutputs h
    have hall := creditAll_ownedOutputs (S.containsSubIndex s.store.invoices) checker
      transactions.items s.store.outputKeys
    have hrecords := creditAll_record (S.containsSubIndex s.store.invoices)
      (ownedOutputs checker transactions.items) s.store.outputKeys
    obtain ⟨hkeys, hne⟩ := scanSequentially_keys (S.containsSubIndex s.store.invoices) checker
      transactions.items s.store.outputKeys
    set sequential := scanSequentially (S.containsSubIndex s.store.invoices) checker
      transactions.items s.store.outputKeys
    -- The hashes in the result are some of the distinct hashes, so that every list is one entry.
    have hnodup : (AssocMap.keys sequential.1).Nodup :=
      hdistinct.sublist (hkeys.trans (List.filter_sublist.map _))
    have hresult : (pushEntries [] amounts).map (fun e => (e.1, e.2.map OwnedAmount.entry))
        = sequential.1.map fun e => (e.1, e.2.map OwnedTxOut.entry) := by
      rw [hall] at hamounts
      have hrebuild : pushEntries [] (sequential.1.flatMap
          fun e => e.2.map fun output => (e.1, output)) = sequential.1 :=
        pushEntries_flatMap hnodup hne
      calc (pushEntries [] amounts).map (fun e => (e.1, e.2.map OwnedAmount.entry))
          = pushEntries [] (amounts.map fun e => (e.1, e.2.entry)) :=
            (pushEntries_map OwnedAmount.entry [] amounts).symm
        _ = pushEntries [] ((sequential.1.flatMap fun e => e.2.map fun output => (e.1, output)).map
              fun p => (p.1, p.2.entry)) := by rw [map_entry_of_receivedWith hamounts]
        _ = (pushEntries [] (sequential.1.flatMap fun e => e.2.map fun output => (e.1, output))).map
              (fun e => (e.1, e.2.map OwnedTxOut.entry)) := pushEntries_map OwnedTxOut.entry [] _
        _ = sequential.1.map (fun e => (e.1, e.2.map OwnedTxOut.entry)) := by rw [hrebuild]
    have hhashes : AssocMap.keys (pushEntries [] amounts) = AssocMap.keys sequential.1 := by
      rw [← keys_map (List.map OwnedAmount.entry), hresult, keys_map]
    refine ⟨hresult, ?_, fun tx htx hlock hmem => ?_, fun tx htx hlock output hout => ?_,
      fun key hkey => ?_⟩
    · rw [hrecord, hall]
    · -- Its hash would be that of a transaction without a time lock, hence of another one.
      rw [hhashes] at hmem
      obtain ⟨tx', htx', hhash⟩ := List.mem_map.mp (hkeys.subset hmem)
      rw [List.mem_filter, decide_eq_true_iff] at htx'
      rw [List.inj_on_of_nodup_map hdistinct htx'.1 htx hhash] at htx'
      exact hlock htx'.2
    · rw [hrecord]
      exact (hrecords output.key).1 (.inl ⟨(tx.hash, output), mem_ownedOutputs htx hlock hout, rfl⟩)
    · rw [hrecord]
      refine (hrecords key).2 fun p hp => ?_
      obtain ⟨tx, htx, hp⟩ := List.mem_flatMap.mp hp
      obtain ⟨output, hout, rfl⟩ := List.mem_map.mp hp
      rw [List.mem_filter, decide_eq_true_iff] at htx
      exact hkey tx htx.1 htx.2 output hout

/-- Three transactions, split: one with two outputs, one with a time lock, and one whose first output
has a key of the first transaction. -/
def splitTransactions : Split Transaction :=
  .halves true (.piece [⟨1, 0, [⟨0, ⟨7⟩, ⟨0, 1⟩, some 5⟩, ⟨1, ⟨8⟩, ⟨0, 1⟩, some 6⟩]⟩])
    (.halves false (.piece [⟨2, 60, [⟨0, ⟨9⟩, ⟨0, 1⟩, some 9⟩]⟩])
      (.piece [⟨3, 0, [⟨0, ⟨7⟩, ⟨0, 1⟩, some 5⟩, ⟨1, ⟨10⟩, ⟨0, 1⟩, some 4⟩]⟩]))

/-- A store that tracks the index of all outputs. -/
def trackingStore : Shared where
  store := ⟨[Invoice.new "" ⟨0, 1⟩ 1 10 1 10 ""], fun _ => none, none, List.nodup_singleton _⟩

/-- Both outputs of the first transaction count, nothing of the second and the second output of the
third. -/
theorem parallel_scan_is_sequential_three :
    (scanSequentially (Backend.exact.containsSubIndex trackingStore.store.invoices) ⟨(0, 1), (0, 2)⟩
      splitTransactions.items trackingStore.store.outputKeys).1.map
        (fun e => (e.1, e.2.map OwnedTxOut.entry))
      = [(1, [(⟨0, 1⟩, some 5), (⟨0, 1⟩, some 6)]), (3, [(⟨0, 1⟩, some 4)])] := by
  have hok : ((scanTransactionsSplit (fun _ => false) splitTransactions ⟨(0, 1), (0, 2)⟩).run
      (handle .exact) trackingStore).1
        = .ok [(1, [⟨⟨0, 1⟩, 5, ⟨7⟩, ⟨1, 0⟩⟩, ⟨⟨0, 1⟩, 6, ⟨8⟩, ⟨1, 1⟩⟩]),
          (3, [⟨⟨0, 1⟩, 4, ⟨10⟩, ⟨3, 1⟩⟩])] := by decide
  have hdistinct : (splitTransactions.items.map (·.hash)).Nodup := by decide
  exact (parallel_scan_is_sequential hdistinct (Prod.ext hok rfl)).1.symm

end AcceptXmr
