import AcceptXmr.Gateway

/-! # Scans that fail over what they read

A scan whose calls are all answered can still fail, over the transactions that it goes through: the
output check fails on one of them, an output that is received cannot be unblinded, or an output's
index does not fit into a `u8`. The caches have been updated by then.

* **`scanTransactions_error`** — on readable outputs `scan_transactions` fails with its calls only.
* **`scan_ok_of_readable`** — a scan that finds readable outputs only, and whose calls are all
  answered, succeeds. -/

namespace AcceptXmr

open AssocMap

/-- **Readable outputs.** The output check fails on none of the transactions without a time lock, and
of the wallet's outputs in them each has an index that fits into a `u8` and can be unblinded, unless
its key belongs to another output or its subaddress to no stored invoice. -/
structure Readable (S : Backend) (env : ScanEnv) (s : Shared) (transactions : List Transaction) :
    Prop where
  checked : ∀ tx ∈ transactions, tx.unlockTime = 0 → env.checkFails tx = false
  index : ∀ p ∈ ownedOutputs env.checker transactions, p.2.index < 256
  unblinds : ∀ p ∈ ownedOutputs env.checker transactions, Acceptable s.store.outputKeys p →
    S.containsSubIndex s.store.invoices p.2.subIndex = true → p.2.amount ≠ none

instance (S : Backend) (env : ScanEnv) (s : Shared) (transactions : List Transaction) :
    Decidable (Readable S env s transactions) :=
  decidable_of_iff ((∀ tx ∈ transactions, tx.unlockTime = 0 → env.checkFails tx = false) ∧
    (∀ p ∈ ownedOutputs env.checker transactions, p.2.index < 256) ∧
    ∀ p ∈ ownedOutputs env.checker transactions, Acceptable s.store.outputKeys p →
      S.containsSubIndex s.store.invoices p.2.subIndex = true → p.2.amount ≠ none)
    ⟨fun h => ⟨h.1, h.2.1, h.2.2⟩, fun h => ⟨h.checked, h.index, h.unblinds⟩⟩

/-- The error of a storage call, passed on. -/
def StorageOnly {α : Type} (result : Except ScannerError α) : Prop :=
  ∀ e, result = .error e → ∃ cause, e = .storage cause

/-- An output that counts as accepted after some keys have been recorded did so before. -/
theorem KeysKept.acceptable {s t : Shared} (h : KeysKept s t) {p : Hash × OwnedTxOut}
    (hp : Acceptable t.store.outputKeys p) : Acceptable s.store.outputKeys p := by
  cases hs : s.store.outputKeys p.2.key with
  | none => exact .inl hs
  | some id =>
      have ht := h _ _ hs
      rcases hp with hnone | hacc
      · rw [ht] at hnone
        cases hnone
      · exact .inr (hs.trans (ht.symm.trans hacc))

section Errors

variable {S : Backend} {s : Shared}

/-- The uniqueness check of an output whose index fits fails with its calls only. -/
theorem outputKeyIsUnique_error {R : Shared → Shared → Prop} (hrefl : ∀ s, R s s)
    {output : OwnedTxOut} (hindex : output.index < 256) (txHash : Hash) :
    (outputKeyIsUnique output txHash).Sat (handle S) R Grows (fun r _ => StorageOnly r) s := by
  unfold outputKeyIsUnique
  rw [if_neg (Nat.not_le.mpr hindex)]
  refine Resumption.Sat.bind hrefl fun t _ => ⟨handle_getOutputKeyId_grows S _ t, ?_⟩
  cases (handle S (.getOutputKeyId output.key) t).1 with
  | error cause =>
      rintro u _ e ⟨⟩
      exact ⟨cause, rfl⟩
  | ok found =>
      intro u _
      cases found with
      | some stored =>
          rintro v _ e ⟨⟩
      | none =>
          refine Resumption.Sat.bind hrefl fun v _ => ⟨handle_insertOutputKey_grows S _ _ v, ?_⟩
          cases (handle S (.insertOutputKey output.key ⟨txHash, output.index⟩) v).1 with
          | error cause =>
              rintro w _ e ⟨⟩
              exact ⟨cause, rfl⟩
          | ok _ =>
              rintro w _ x _ e ⟨⟩

/-- An output that can be unblinded if it is received fails with its calls only. -/
theorem scanOutput_error {txHash : Hash} {output : OwnedTxOut} (hindex : output.index < 256)
    (hunblinds : Acceptable s.store.outputKeys (txHash, output) →
      S.containsSubIndex s.store.invoices output.subIndex = true → output.amount ≠ none) :
    (scanOutput txHash output).Sat (handle S) Grows Grows (fun r _ => StorageOnly r) s := by
  refine Resumption.Sat.bind Grows.refl ?_
  have hcheck := ((outputKeyIsUnique_sat (S := S) Grows.refl (fun _ _ h => h.keysKept) output txHash
    s).and (outputKeyIsUnique_error Grows.refl hindex txHash)).track (M := Grows)
    (fun _ _ _ => Grows.trans) (fun _ _ h => h) (fun _ _ h => h) (Grows.refl s)
  refine hcheck.mono (fun _ _ h => h) (fun _ _ h => h) ?_
  rintro (e | found) t ⟨⟨hunique, herror⟩, hst⟩
  · rintro e' ⟨⟩
    exact herror e rfl
  · cases found with
    | false =>
        rintro u _ e ⟨⟩
    | true =>
        refine Resumption.Sat.bind Grows.refl fun u hu => ⟨handle_containsSubIndex_grows S _ u, ?_⟩
        cases hans : (handle S (.containsSubIndex output.subIndex) u).1 with
        | error cause =>
            rintro v _ e ⟨⟩
            exact ⟨cause, rfl⟩
        | ok tracked =>
            cases tracked with
            | false =>
                rintro v _ w _ e ⟨⟩
            | true =>
                -- It is accepted and tracked now, and so it was when the scan began.
                have hacc : Acceptable s.store.outputKeys (txHash, output) :=
                  hst.keysKept.acceptable (.inr ((hunique true rfl).2.2.mp rfl))
                have htracked := (handle_containsSubIndex_ok hans).symm
                rw [(hst.trans hu).invoices] at htracked
                obtain ⟨amount, hamount⟩ :=
                  Option.ne_none_iff_exists'.mp (hunblinds hacc htracked)
                rw [hamount]
                rintro v _ w _ e ⟨⟩

/-- Readable outputs one after the other. -/
theorem scanOutputs_error (outputs : List (Hash × OwnedTxOut))
    (amountsReceived : List (Hash × List OwnedAmount)) (hindex : ∀ p ∈ outputs, p.2.index < 256)
    (hunblinds : ∀ p ∈ outputs, Acceptable s.store.outputKeys p →
      S.containsSubIndex s.store.invoices p.2.subIndex = true → p.2.amount ≠ none) :
    (scanOutputs outputs amountsReceived).Sat (handle S) Grows Grows
      (fun r _ => StorageOnly r) s := by
  induction outputs generalizing amountsReceived s with
  | nil =>
      rintro t _ e ⟨⟩
  | cons p rest ih =>
      obtain ⟨txHash, output⟩ := p
      refine Resumption.Sat.bind Grows.refl ?_
      refine ((scanOutput_error (hindex _ List.mem_cons_self)
        (hunblinds _ List.mem_cons_self)).track (M := Grows) (fun _ _ _ => Grows.trans)
        (fun _ _ h => h) (fun _ _ h => h) (Grows.refl s)).mono (fun _ _ h => h) (fun _ _ h => h) ?_
      rintro (e | got) t ⟨herror, hst⟩
      · rintro e' ⟨⟩
        exact herror e rfl
      · -- The keys recorded meanwhile make no other output acceptable.
        have hrest : ∀ acc, (scanOutputs rest acc).Sat (handle S) Grows Grows
            (fun r _ => StorageOnly r) t := fun acc => by
          refine ih acc (fun q hq => hindex q (List.mem_cons_of_mem _ hq)) fun q hq hacc htracked => ?_
          rw [hst.invoices] at htracked
          exact hunblinds q (List.mem_cons_of_mem _ hq) (hst.keysKept.acceptable hacc) htracked
        cases got with
        | none => exact hrest amountsReceived
        | some amount => exact hrest (pushEntry amountsReceived txHash amount)

/-- **`scan_transactions` on readable outputs** fails with its calls only. -/
theorem scanTransactions_error {env : ScanEnv} {transactions : List Transaction}
    (h : Readable S env s transactions) :
    (scanTransactions env.checkFails transactions env.checker).Sat (handle S) Grows Grows
      (fun r _ => StorageOnly r) s := by
  unfold scanTransactions
  rw [if_neg]
  · exact scanOutputs_error _ [] h.index h.unblinds
  · rw [List.any_eq_true]
    rintro ⟨tx, hmem, hfails⟩
    rw [List.mem_filter, decide_eq_true_iff] at hmem
    rw [h.checked tx hmem.1 hmem.2] at hfails
    cases hfails

/-- What is readable stays so while the caches are scanned. -/
theorem Readable.grows {env : ScanEnv} {t : Shared} {transactions : List Transaction}
    (h : Readable S env s transactions) (hgrows : Grows s t) : Readable S env t transactions where
  checked := h.checked
  index := h.index
  unblinds p hp hacc htracked :=
    h.unblinds p hp (hgrows.keysKept.acceptable hacc) (hgrows.invoices ▸ htracked)

namespace Scanner

theorem scanBlocksFrom_error {env : ScanEnv} {cache : BlockCache} (count : ℕ)
    (transfers : List (SubIndex × Transfer))
    (h : ∀ i < count, Readable S env s (cachedTransactions cache i)) :
    (scanBlocksFrom env cache count transfers).Sat (handle S) Grows Grows
      (fun r _ => StorageOnly r) s := by
  induction count generalizing transfers s with
  | zero =>
      rintro t _ e ⟨⟩
  | succ i ih =>
      refine Resumption.Sat.bind Grows.refl ?_
      refine ((scanTransactions_error (h i (Nat.lt_succ_self i))).track (M := Grows)
        (fun _ _ _ => Grows.trans) (fun _ _ h => h) (fun _ _ h => h) (Grows.refl s)).mono
        (fun _ _ h => h) (fun _ _ h => h) ?_
      rintro (e | amountsReceived) t ⟨herror, hst⟩
      · rintro e' ⟨⟩
        exact herror e rfl
      · exact ih _ fun j hj => (h j (Nat.lt_succ_of_lt hj)).grows hst

theorem scanTxpool_error {env : ScanEnv} (cache : TxpoolCache)
    {newTransactions : List Transaction} (h : Readable S env s newTransactions) :
    (scanTxpool env cache newTransactions).Sat (handle S) Grows Grows
      (fun r _ => StorageOnly r) s := by
  refine Resumption.Sat.bind Grows.refl ?_
  refine (scanTransactions_error h).mono (fun _ _ h => h) (fun _ _ h => h) ?_
  rintro (e | amountsReceived) t herror
  · rintro e' ⟨⟩
    exact herror e rfl
  · rintro u _ e ⟨⟩

/-- Both halves of a scan that finds readable outputs only fail with their calls only. -/
theorem scanCaches_error {env : ScanEnv} {self : Scanner} {blocksUpdated : ℕ}
    {newTransactions : List Transaction} {u : Shared}
    {blocks : Except ScannerError (List (SubIndex × Transfer))}
    {txpool : Except ScannerError (List (SubIndex × Transfer) × TxpoolCache)}
    (hblocks : ∀ i < (if self.firstScan then self.blockCache.blocks.length else blocksUpdated),
      Readable S env s (cachedTransactions self.blockCache i))
    (htxpool : Readable S env s newTransactions)
    (hrun : (scanCaches env self blocksUpdated newTransactions).run (handle S) s
      = (.ok (blocks, txpool), u)) : StorageOnly blocks ∧ StorageOnly txpool := by
  have hmerge := Resumption.Sat.merge (R := Eq) (M := Grows) (δ := ScannerError)
    (fun _ _ _ => Grows.trans) (fun a b h => h ▸ Grows.refl a) env.schedule
    (scanBlocksFrom_error _ [] hblocks) (scanTxpool_error self.txpoolCache htxpool)
  obtain ⟨blocks', txpool', hresult, hb, ht⟩ := hmerge.run fun _ => rfl
  cases hresult.symm.trans (congrArg Prod.fst hrun)
  exact ⟨hb, ht⟩

end Scanner

end Errors

namespace Gateway

/-- No RPC call and no storage call of a scan with this result has failed. -/
structure Answered (result : Except ScannerError Unit) : Prop where
  blockCache : ∀ cause, result ≠ .error (.blockCache cause)
  txpoolCache : ∀ cause, result ≠ .error (.txpoolCache cause)
  storage : ∀ cause, result ≠ .error (.storage cause)

/-- **A scan finds readable outputs only**, in the blocks that it goes over once the caches have been
updated and in the transactions that are new to the pool. -/
def FindsReadable (S : Backend) (env : ScanEnv) (g : Gateway) : Prop :=
  ∀ blocksUpdated newTransactions mid,
    g.scanner.updateCaches env.client = (.ok (blocksUpdated, newTransactions), mid) →
      (∀ i < (if mid.firstScan then mid.blockCache.blocks.length else blocksUpdated),
        Readable S env g.shared (Scanner.cachedTransactions mid.blockCache i)) ∧
      Readable S env g.shared newTransactions

/-- One way of updating the caches decides it. -/
theorem FindsReadable.of_updateCaches {S : Backend} {env : ScanEnv} {g : Gateway}
    {blocksUpdated : ℕ} {newTransactions : List Transaction} {mid : Scanner}
    (hcaches : g.scanner.updateCaches env.client = (.ok (blocksUpdated, newTransactions), mid))
    (hblocks : ∀ i < (if mid.firstScan then mid.blockCache.blocks.length else blocksUpdated),
      Readable S env g.shared (Scanner.cachedTransactions mid.blockCache i))
    (htxpool : Readable S env g.shared newTransactions) : g.FindsReadable S env := by
  intro _ _ _ hcaches'
  rw [hcaches] at hcaches'
  cases hcaches'
  exact ⟨hblocks, htxpool⟩

/-- **A scan that finds readable outputs only succeeds**, if its calls are answered. -/
theorem scan_ok_of_readable {S : Backend} {env : ScanEnv} {g g' : Gateway}
    {result : Except ScannerError Unit} (hf : env.faults = {}) (hanswered : Answered result)
    (hreadable : g.FindsReadable S env) (hscan : g.scan S env = (result, g')) :
    result = .ok () := by
  cases hcaches : g.scanner.updateCaches env.client with
  | mk updated mid =>
      cases updated with
      | error e =>
          -- The caches are updated by RPC calls alone.
          simp only [Gateway.scan, Scanner.scan, hcaches, Resumption.pure_eq,
            Resumption.run_done] at hscan
          obtain ⟨rfl, -⟩ := Prod.mk.inj hscan
          unfold Scanner.updateCaches at hcaches
          split at hcaches
          · cases hcaches
            exact absurd rfl (hanswered.blockCache _)
          · split at hcaches
            · cases hcaches
              exact absurd rfl (hanswered.txpoolCache _)
            · cases hcaches
      | ok updated =>
          obtain ⟨blocksUpdated, newTransactions⟩ := updated
          obtain ⟨hblocks, htxpool⟩ := hreadable _ _ _ hcaches
          obtain ⟨blocks, txpool, u, hrun, hgrows, -, -⟩ := Scanner.run_scanCaches S env mid
            blocksUpdated newTransactions { g.shared with faults := env.faults }
          have hread : ∀ transactions, Readable S env g.shared transactions →
              Readable S env { g.shared with faults := env.faults } transactions :=
            fun _ h => ⟨h.checked, h.index, h.unblinds⟩
          obtain ⟨hb, ht⟩ := Scanner.scanCaches_error (fun i hi => hread _ (hblocks i hi))
            (hread _ htxpool) hrun
          simp only [Gateway.scan, Scanner.scan, hcaches, Resumption.bind_eq, Resumption.run_bind,
            hrun] at hscan
          cases blocks with
          | error e =>
              obtain ⟨cause, rfl⟩ := hb e rfl
              cases txpool <;>
              · obtain ⟨rfl, -⟩ := Prod.mk.inj hscan
                exact absurd rfl (hanswered.storage cause)
          | ok blocksAmounts =>
              cases txpool with
              | error e =>
                  obtain ⟨cause, rfl⟩ := ht e rfl
                  obtain ⟨rfl, -⟩ := Prod.mk.inj hscan
                  exact absurd rfl (hanswered.storage cause)
              | ok found =>
                  obtain ⟨txpoolAmounts, cache⟩ := found
                  simp only [Resumption.run_bind, Resumption.run_attempt, Resumption.pure_eq,
                    Resumption.run_done] at hscan
                  -- No request of the rest is due to fail.
                  have hfaults : u.faults.forEach = none ∧ u.faults.upsertHeight = none ∧
                      u.faults.flush = none := by
                    rw [hgrows.faults, hf]
                    exact ⟨rfl, rfl, rfl⟩
                  obtain ⟨rfl, -⟩ := Prod.mk.inj hscan
                  obtain ⟨hfails, -⟩ | ⟨-, -, hok⟩ := Scanner.run_finishScan (Prod.ext rfl rfl)
                  · exact absurd hfaults.1 hfails
                  · exact hok.mpr hfaults.2

end Gateway

end AcceptXmr
