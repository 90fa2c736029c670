import AcceptXmr.Library.AssocMap
import AcceptXmr.Storage.Manager

/-! # Scanning transactions for owned outputs

`Scanner::output_key_is_unique` and `Scanner::scan_transactions` of `library/src/scanner.rs`, as
programs that talk to the storage manager. Two of them run at the same time during a scan, so
everything is specified under interference.

* **`outputKeyIsUnique_sat`** — an output that passes the check has its key recorded under its own
  id, one that fails has it recorded under another id.
* **`scanTransactions_sat`** — the amounts returned are those of the owned outputs to tracked
  indexes whose key is recorded under their own id at the end. -/

namespace AcceptXmr

open AssocMap

/-- Errors specific to the blockchain scanner. -/
inductive ScannerError where
  | unblind (index : SubIndex)
  | storage (cause : StorageError)
  | ownedOutputCheck
  | outputIndex
  | rpc (cause : RpcError)
  | blockCache (cause : RpcError)
  | txpoolCache (cause : RpcError)
  /-- The scanning task cannot be joined because it panicked. -/
  | threading
  deriving DecidableEq, Repr

/-- A part of the scanner that sends requests to the storage manager. -/
abbrev Program (α : Type) := Resumption Request Request.Response ScannerError α

/-! ## Requests, with the error conversion of the `?` operator -/

namespace StorageClient

/-- `Client::get_output_key_id`. -/
def getOutputKeyId (key : OutputPubKey) : Program (Option OutputId) :=
  .call (.getOutputKeyId key) fun r => .done (Except.mapError .storage r)

/-- `Client::insert_output_key`. -/
def insertOutputKey (key : OutputPubKey) (outputId : OutputId) : Program Unit :=
  .call (.insertOutputKey key outputId) fun r => .done (Except.mapError .storage r)

/-- `Client::contains_sub_index`. -/
def containsSubIndex (index : SubIndex) : Program Bool :=
  .call (.containsSubIndex index) fun r => .done (Except.mapError .storage r)

/-- `Client::try_for_each_invoice`: what the closure is called with. -/
def forEachInvoice : Program (List (Except StoreError Invoice)) :=
  .call .forEachInvoice fun r => .done (Except.mapError .storage r)

/-- `Client::upsert_height`. -/
def upsertHeight (height : ℕ) : Program (Option ℕ) :=
  .call (.upsertHeight height) fun r => .done (Except.mapError .storage r)

/-- `Client::flush`. -/
def flush : Program Unit := .call .flush fun r => .done (Except.mapError .storage r)

end StorageClient

/-- A received amount. `key` and `outputId` identify the output it was received with: the source
drops them, and nothing computes with them here. -/
structure OwnedAmount where
  subIndex : SubIndex
  amount : ℕ
  key : OutputPubKey
  outputId : OutputId
  deriving DecidableEq, Repr

/-- `output_key_is_unique`: whether the output's key is unique to it, recording the key if it has
not been seen before. Output ids hold the index in a `u8`. -/
def outputKeyIsUnique (output : OwnedTxOut) (txHash : Hash) : Program Bool :=
  if 256 ≤ output.index then .done (.error .outputIndex)
  else do
    match ← StorageClient.getOutputKeyId output.key with
    | some storedOutputId => pure (decide (storedOutputId = ⟨txHash, output.index⟩))
    | none =>
        StorageClient.insertOutputKey output.key ⟨txHash, output.index⟩
        pure true

/-- The loop body of `scan_transactions`: what is received with one owned output, if its index is
tracked. -/
def scanOutput (txHash : Hash) (output : OwnedTxOut) : Program (Option OwnedAmount) := do
  if ← outputKeyIsUnique output txHash then
    if ← StorageClient.containsSubIndex output.subIndex then
      match output.amount with
      | none => .done (.error (.unblind output.subIndex))
      | some amount => pure (some ⟨output.subIndex, amount, output.key, ⟨txHash, output.index⟩⟩)
    else pure none
  else pure none

/-- The nested loops of `scan_transactions` over all owned outputs, each with the hash of its
transaction. -/
def scanOutputs : List (Hash × OwnedTxOut) → List (Hash × List OwnedAmount) →
    Program (List (Hash × List OwnedAmount))
  | [], amountsReceived => pure amountsReceived
  | (txHash, output) :: rest, amountsReceived => do
      match ← scanOutput txHash output with
      | some amount => scanOutputs rest (pushEntry amountsReceived txHash amount)
      | none => scanOutputs rest amountsReceived

/-- The owned outputs of the transactions without a time lock. -/
def ownedOutputs (checker : SubKeyChecker) (transactions : List Transaction) :
    List (Hash × OwnedTxOut) :=
  (transactions.filter fun tx => tx.unlockTime = 0).flatMap fun tx =>
    (tx.checkOutputsWith checker).map fun output => (tx.hash, output)

/-- `scan_transactions`: the amounts received by tracked invoices, per transaction. `checkFails`
tells which transactions make the output check fail. -/
def scanTransactions (checkFails : Transaction → Bool) (transactions : List Transaction)
    (checker : SubKeyChecker) : Program (List (Hash × List OwnedAmount)) :=
  if (transactions.filter fun tx => tx.unlockTime = 0).any checkFails then
    .done (.error .ownedOutputCheck)
  else scanOutputs (ownedOutputs checker transactions) []

/-! ## What is accepted -/

/-- All amounts in the result of `scan_transactions`. -/
def amountsIn (amountsReceived : List (Hash × List OwnedAmount)) : List OwnedAmount :=
  amountsReceived.flatMap Prod.snd

/-- An output is **accepted** by a record of output keys if its key stands there under its own
id. -/
def Accepted (keys : OutputPubKey → Option OutputId) (p : Hash × OwnedTxOut) : Prop :=
  keys p.2.key = some ⟨p.1, p.2.index⟩

instance (keys : OutputPubKey → Option OutputId) (p : Hash × OwnedTxOut) :
    Decidable (Accepted keys p) := inferInstanceAs (Decidable (_ = _))

/-- An output counts as accepted if its key is recorded under its own id or not recorded yet. -/
def Acceptable (keys : OutputPubKey → Option OutputId) (p : Hash × OwnedTxOut) : Prop :=
  keys p.2.key = none ∨ Accepted keys p

instance (keys : OutputPubKey → Option OutputId) (p : Hash × OwnedTxOut) :
    Decidable (Acceptable keys p) := inferInstanceAs (Decidable (_ ∨ _))

/-- The amount received with an output, none if it cannot be unblinded. -/
def receivedWith (p : Hash × OwnedTxOut) : Option (Hash × OwnedAmount) :=
  p.2.amount.map fun amount => (p.1, ⟨p.2.subIndex, amount, p.2.key, ⟨p.1, p.2.index⟩⟩)

/-- The amount received with an output is the output's own. -/
theorem receivedWith_eq_some {p : Hash × OwnedTxOut} {h : Hash} {a : OwnedAmount}
    (hp : receivedWith p = some (h, a)) : h = p.1 ∧ a.subIndex = p.2.subIndex ∧
      p.2.amount = some a.amount ∧ a.key = p.2.key ∧ a.outputId = ⟨p.1, p.2.index⟩ := by
  obtain ⟨amount, hamount, heq⟩ := Option.map_eq_some_iff.mp hp
  cases heq
  exact ⟨rfl, rfl, hamount, rfl, rfl⟩

/-- The amounts received with the accepted ones among some outputs, for the indexes that the store
`tracks`. -/
def received (keys : OutputPubKey → Option OutputId) (tracks : SubIndex → Bool)
    (outputs : List (Hash × OwnedTxOut)) : List (Hash × OwnedAmount) :=
  outputs.filterMap fun p =>
    if Accepted keys p ∧ tracks p.2.subIndex = true then receivedWith p else none

/-- The amounts of the accepted outputs to one index. -/
def acceptedAmounts (keys : OutputPubKey → Option OutputId) (index : SubIndex)
    (outputs : List (Hash × OwnedTxOut)) : List ℕ :=
  outputs.filterMap fun p =>
    if Accepted keys p ∧ p.2.subIndex = index then p.2.amount else none

/-- Every output's key is recorded, under its own or another id. -/
def Recorded (keys : OutputPubKey → Option OutputId) (outputs : List (Hash × OwnedTxOut)) : Prop :=
  ∀ p ∈ outputs, keys p.2.key ≠ none

/-- Recorded keys stay as they are. -/
def KeysKept (s s' : Shared) : Prop :=
  ∀ key id, s.store.outputKeys key = some id → s'.store.outputKeys key = some id

/-- Nothing done keeps all keys. -/
theorem KeysKept.refl (s : Shared) : KeysKept s s := fun _ _ h => h

/-- Steps that keep recorded keys do so together. -/
theorem KeysKept.trans {s s' s'' : Shared} (h : KeysKept s s') (h' : KeysKept s' s'') :
    KeysKept s s'' := fun key id hk => h' key id (h key id hk)

/-- Once recorded, a key has one id for good. -/
theorem KeysKept.eq_of_ne_none {s s' : Shared} (h : KeysKept s s') {key : OutputPubKey}
    (hk : s.store.outputKeys key ≠ none) : s'.store.outputKeys key = s.store.outputKeys key := by
  obtain ⟨id, hid⟩ := Option.ne_none_iff_exists'.mp hk
  rw [h key id hid, hid]

/-- What is recorded stays so. -/
theorem KeysKept.recorded {s s' : Shared} (h : KeysKept s s')
    {outputs : List (Hash × OwnedTxOut)} (hr : Recorded s.store.outputKeys outputs) :
    Recorded s'.store.outputKeys outputs := by
  intro p hp
  rw [h.eq_of_ne_none (hr p hp)]
  exact hr p hp

/-- **Acceptance is stable**: for recorded outputs it does not change any more. -/
theorem KeysKept.accepted_iff {s s' : Shared} (h : KeysKept s s') {p : Hash × OwnedTxOut}
    (hr : s.store.outputKeys p.2.key ≠ none) :
    Accepted s'.store.outputKeys p ↔ Accepted s.store.outputKeys p := by
  rw [Accepted, Accepted, h.eq_of_ne_none hr]

/-- Outputs whose keys are recorded are received as before. -/
theorem KeysKept.received_eq {s s' : Shared} (h : KeysKept s s')
    {outputs : List (Hash × OwnedTxOut)} (hr : Recorded s.store.outputKeys outputs)
    (tracks : SubIndex → Bool) :
    received s'.store.outputKeys tracks outputs = received s.store.outputKeys tracks outputs :=
  List.filterMap_congr fun p hp => by simp only [h.accepted_iff (hr p hp)]

/-- Growth keeps the recorded keys. -/
theorem Grows.keysKept {s s' : Shared} (h : Grows s s') : KeysKept s s' := h.keys

/-! ## Specifications under interference -/

section Interference

variable {S : Backend} {R : Shared → Shared → Prop}

/-- **The uniqueness check.** However the surroundings record keys meanwhile, an answer tells
whether the output is accepted from now on. -/
theorem outputKeyIsUnique_sat (hrefl : ∀ s, R s s) (hR : ∀ s t, R s t → KeysKept s t)
    (output : OwnedTxOut) (txHash : Hash) (s : Shared) :
    (outputKeyIsUnique output txHash).Sat (handle S) R Grows (fun r t => ∀ found, r = .ok found →
      output.index < 256 ∧ t.store.outputKeys output.key ≠ none ∧
        (found = true ↔ Accepted t.store.outputKeys (txHash, output))) s := by
  unfold outputKeyIsUnique
  split
  · intro t _ found h
    cases h
  · rename_i hindex
    refine Resumption.Sat.bind hrefl fun t ht => ⟨handle_getOutputKeyId_grows S _ t, ?_⟩
    cases hget : (handle S (.getOutputKeyId output.key) t).1 with
    | error e => exact fun u hu found h => by cases h
    | ok found =>
        intro u hu
        have hkey := handle_getOutputKeyId_ok hget
        cases found with
        -- The key is recorded, and stays so: the answer does not get old.
        | some stored =>
            intro v hv found h
            cases h
            have hkept := (hR _ _ hu).trans (hR _ _ hv) _ _ hkey
            refine ⟨by omega, by simp [hkept], ?_⟩
            simp [Accepted, hkept]
        | none =>
            -- Between the two requests the key may be recorded by others; then inserting fails.
            refine Resumption.Sat.bind hrefl fun v hv =>
              ⟨handle_insertOutputKey_grows S _ _ v, ?_⟩
            cases hins : (handle S (.insertOutputKey output.key ⟨txHash, output.index⟩) v).1 with
            | error e => exact fun w hw found h => by cases h
            | ok _ =>
                intro w hw x hx found h
                cases h
                have hkept := (hR _ _ hw).trans (hR _ _ hx) _ _ (handle_insertOutputKey_ok hins)
                exact ⟨by omega, by simp [hkept], by simp [Accepted, hkept]⟩

/-- **One output.** An output is received exactly if it is accepted and its index was tracked when
the store was asked. -/
theorem scanOutput_sat (hrefl : ∀ s, R s s) (htrans : ∀ a b c, R a b → R b c → R a c)
    (hgrows : ∀ s t, Grows s t → R s t) (hR : ∀ s t, R s t → KeysKept s t)
    (txHash : Hash) (output : OwnedTxOut) (s : Shared) :
    (scanOutput txHash output).Sat (handle S) R Grows (fun r t => ∀ got, r = .ok got →
      output.index < 256 ∧ t.store.outputKeys output.key ≠ none ∧
        ∃ u, R s u ∧ R u t ∧
          if Accepted t.store.outputKeys (txHash, output) ∧
              S.containsSubIndex u.store.invoices output.subIndex = true
            then ∃ a, got = some a ∧ receivedWith (txHash, output) = some (txHash, a)
            else got = none) s := by
  refine Resumption.Sat.bind hrefl ?_
  have hcheck := (outputKeyIsUnique_sat (S := S) hrefl hR output txHash s).track htrans
    (fun _ _ h => h) hgrows (hrefl s)
  refine hcheck.mono (fun _ _ h => h) (fun _ _ h => h) ?_
  rintro (e | found) t ⟨hunique, hst⟩
  · intro got h
    cases h
  · obtain ⟨hindex, hrec, hfound⟩ := hunique found rfl
    cases found with
    | false =>
        intro u hu got h
        cases h
        have hrej : ¬ Accepted u.store.outputKeys (txHash, output) := by
          rw [(hR _ _ hu).accepted_iff hrec]
          simpa using hfound
        refine ⟨hindex, ?_, t, hst, hu, by rw [if_neg fun h => hrej h.1]⟩
        rw [(hR _ _ hu).eq_of_ne_none hrec]
        exact hrec
    | true =>
        refine Resumption.Sat.bind hrefl fun u hu => ⟨handle_containsSubIndex_grows S _ u, ?_⟩
        have hgu := handle_containsSubIndex_grows S output.subIndex u
        cases hans : (handle S (.containsSubIndex output.subIndex) u).1 with
        | error e => exact fun v hv got h => by cases h
        | ok tracked =>
            intro v hv
            have htracked := handle_containsSubIndex_ok hans
            -- The key stays recorded, whatever happens after the check.
            have hacc : ∀ w, R v w → w.store.outputKeys output.key ≠ none ∧
                Accepted w.store.outputKeys (txHash, output) := by
              intro w hw
              have htw := hR _ _ (htrans _ _ _ hu (htrans _ _ _ (hgrows _ _ hgu)
                (htrans _ _ _ hv hw)))
              rw [htw.accepted_iff hrec, htw.eq_of_ne_none hrec]
              exact ⟨hrec, hfound.mp rfl⟩
            have huw : ∀ w, R v w → R u w := fun w hw =>
              htrans _ _ _ (hgrows _ _ hgu) (htrans _ _ _ hv hw)
            cases tracked with
            | false =>
                intro w hw got h
                cases h
                exact ⟨hindex, (hacc w hw).1, u, htrans _ _ _ hst hu, huw w hw,
                  by rw [if_neg (by simp [← htracked])]⟩
            | true =>
                cases hamount : output.amount with
                | none =>
                    intro w hw got h
                    cases h
                | some amount =>
                    intro w hw got h
                    cases h
                    exact ⟨hindex, (hacc w hw).1, u, htrans _ _ _ hst hu, huw w hw,
                      by rw [if_pos ⟨(hacc w hw).2, htracked.symm⟩]; simp [receivedWith, hamount]⟩

end Interference

/-- **All outputs.** While the surroundings only record keys, the result is what is received with
the outputs, judged by the keys recorded at the end. -/
theorem scanOutputs_sat (S : Backend) (outputs : List (Hash × OwnedTxOut))
    (amountsReceived : List (Hash × List OwnedAmount)) (s : Shared) :
    (scanOutputs outputs amountsReceived).Sat (handle S) Grows Grows
      (fun r t => ∀ m, r = .ok m → Recorded t.store.outputKeys outputs ∧
        m = pushEntries amountsReceived (received t.store.outputKeys
          (S.containsSubIndex t.store.invoices) outputs)) s := by
  induction outputs generalizing amountsReceived s with
  | nil =>
      intro t _ m h
      cases h
      exact ⟨fun p hp => absurd hp (by simp), rfl⟩
  | cons p rest ih =>
      obtain ⟨txHash, output⟩ := p
      refine Resumption.Sat.bind Grows.refl ?_
      refine (scanOutput_sat Grows.refl (fun _ _ _ => Grows.trans) (fun _ _ h => h)
        (fun _ _ h => h.keysKept) txHash output s).mono (fun _ _ h => h) (fun _ _ h => h) ?_
      rintro (e | got) t hgot
      · intro m h
        cases h
      · obtain ⟨-, hrec, u, -, hut, hgot⟩ := hgot got rfl
        -- The other outputs, with what the first has added to the accumulator.
        have hstep : ∀ acc, (scanOutputs rest acc).Sat (handle S) Grows Grows
            (fun r v => ∀ m, r = .ok m → Recorded v.store.outputKeys ((txHash, output) :: rest) ∧
              ∃ tail, m = pushEntries acc tail ∧
              received v.store.outputKeys (S.containsSubIndex v.store.invoices)
                ((txHash, output) :: rest) = (got.map (Prod.mk txHash)).toList ++ tail) t := by
          intro acc
          refine ((ih acc t).track (M := Grows) (fun _ _ _ => Grows.trans) (fun _ _ h => h)
            (fun _ _ h => h) (Grows.refl t)).mono (fun _ _ h => h) (fun _ _ h => h) ?_
          rintro r v ⟨hrest, htv⟩ m hm
          obtain ⟨hrecs, rfl⟩ := hrest m hm
          refine ⟨?_, _, rfl, ?_⟩
          · intro q hq
            rcases List.mem_cons.mp hq with rfl | hq
            · rw [htv.keysKept.eq_of_ne_none hrec]
              exact hrec
            · exact hrecs q hq
          · rw [received, List.filterMap_cons, ← received]
            simp only [htv.keysKept.accepted_iff (p := (txHash, output)) hrec, htv.invoices,
              hut.invoices]
            split at hgot
            · rename_i hreceived
              obtain ⟨a, rfl, ha⟩ := hgot
              simp [if_pos hreceived, ha]
            · rename_i hnot
              subst hgot
              simp [if_neg hnot]
        cases got with
        | none =>
            refine (hstep amountsReceived).mono (fun _ _ h => h) (fun _ _ h => h) ?_
            intro r v hv m hm
            obtain ⟨hrecs, tail, rfl, htail⟩ := hv m hm
            exact ⟨hrecs, by rw [htail]; rfl⟩
        | some amount =>
            refine (hstep (pushEntry amountsReceived txHash amount)).mono (fun _ _ h => h)
              (fun _ _ h => h) ?_
            intro r v hv m hm
            obtain ⟨hrecs, tail, rfl, htail⟩ := hv m hm
            exact ⟨hrecs, by rw [htail]; rfl⟩

/-- **`scan_transactions`.** While the surroundings only record keys, the amounts returned are
those received with the owned outputs of the transactions. -/
theorem scanTransactions_sat (S : Backend) (checkFails : Transaction → Bool)
    (transactions : List Transaction) (checker : SubKeyChecker) (s : Shared) :
    (scanTransactions checkFails transactions checker).Sat (handle S) Grows Grows
      (fun r t => ∀ m, r = .ok m →
        Recorded t.store.outputKeys (ownedOutputs checker transactions) ∧
        m = pushEntries [] (received t.store.outputKeys (S.containsSubIndex t.store.invoices)
          (ownedOutputs checker transactions))) s := by
  unfold scanTransactions
  split
  · intro t _ m h
    cases h
  · exact scanOutputs_sat S _ [] s

end AcceptXmr
