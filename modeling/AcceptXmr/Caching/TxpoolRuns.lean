import AcceptXmr.Caching.TxpoolCache

/-! # Runs of the txpool cache

`TxpoolCache::update` asks for the hashes in the pool, drops what has left it and requests what it
does not have. Either request may fail; if the second one does, what has left is dropped all the
same. The cached hashes are thus those that have been handed out and not been seen gone since.

* **`mem_keys_update`**, **`times_update`** — what an update does about one hash.
* **`results_out`**, **`results_stays`** — what a run does while a transaction is out of the pool,
  and while it is in it.
* **`pool_transactions_handed_out_once`** — each stay in the pool is reported once. -/

namespace AcceptXmr

open AssocMap

namespace TxpoolCache

/-- **One update**, together with the pool that the daemon has at that time: the list of hashes and
the requested transactions are served, or a request fails. After it, transfers may be inserted. -/
structure Round where
  pool : List Hash
  client : MonerodClient
  transfers : List (Hash × List (SubIndex × Transfer))
  /-- The pool is a set. -/
  nodup : pool.Nodup
  list : client.txpoolHashes = .ok pool ∨ ∃ e, client.txpoolHashes = .error e
  /-- Requested transactions are returned, and no others. -/
  byHashes : ∀ hashes txs, client.transactionsByHashes hashes = .ok txs →
    (txs.map (·.hash)).Perm hashes

/-- Whether the update got the list of hashes. -/
def Round.GotList (round : Round) : Prop := round.client.txpoolHashes = .ok round.pool

/-- Whether both requests of the update succeed: the one for the hashes in the pool, and the one for
the transactions that the cache does not have. -/
def Round.Succeeds (round : Round) (c : TxpoolCache) : Prop :=
  round.GotList ∧ ∃ txs, round.client.transactionsByHashes
    (round.pool.filter fun hash => decide (hash ∉ keys c.transactions)) = .ok txs

/-- The cache after a round. -/
def Round.step (round : Round) (c : TxpoolCache) : TxpoolCache :=
  (c.update round.client).2.insertTransfers round.transfers

/-- What the updates of a run return. -/
def results : List Round → TxpoolCache → List (Except RpcError (List Transaction))
  | [], _ => []
  | round :: rounds, c =>
      (c.update round.client).1 :: results rounds (round.step c)

/-- The cache after a run. -/
def after : List Round → TxpoolCache → TxpoolCache
  | [], c => c
  | round :: rounds, c => after rounds (round.step c)

/-- How often a transaction is returned. -/
def times (hash : Hash) : Except RpcError (List Transaction) → ℕ
  | .ok txs => (txs.map (·.hash)).count hash
  | .error _ => 0

/-- One for the first success, zero for everything else. -/
def firstSuccess {ε α : Type} : List (Except ε α) → List ℕ
  | [] => []
  | .error _ :: results => 0 :: firstSuccess results
  | .ok _ :: results => 1 :: results.map fun _ => 0

/-! ## One update -/

/-- **An update succeeds if both of its requests do**, and then only. -/
theorem update_ok_iff (round : Round) (c : TxpoolCache) :
    (∃ txs, (c.update round.client).1 = .ok txs) ↔ round.Succeeds c := by
  rcases round.list with hlist | ⟨e, hlist⟩
  · simp only [Round.Succeeds, Round.GotList, update, hlist, true_and]
    cases round.client.transactionsByHashes
        (round.pool.filter fun hash => decide (hash ∉ keys c.transactions)) with
    | error e => simp
    | ok txs => simp
  · simp [Round.Succeeds, Round.GotList, update, hlist]

/-- **What an update does**: without a list nothing; with a list it drops what is not in the pool,
and if the new transactions can be fetched it returns each of them once. -/
theorem update_cases (round : Round) (c : TxpoolCache) :
    (¬ round.GotList ∧ ∃ e, c.update round.client = (.error e, c)) ∨
    (round.GotList ∧ (∃ e, (c.update round.client).1 = .error e) ∧
      ∀ hash, hash ∈ keys (c.update round.client).2.transactions ↔
        hash ∈ keys c.transactions ∧ hash ∈ round.pool) ∨
    (round.GotList ∧ (∃ txs, (c.update round.client).1 = .ok txs ∧
        ∀ hash, (txs.map (·.hash)).count hash =
          if hash ∈ round.pool ∧ hash ∉ keys c.transactions then 1 else 0) ∧
      ∀ hash, hash ∈ keys (c.update round.client).2.transactions ↔ hash ∈ round.pool) := by
  rcases round.list with hlist | ⟨e, hlist⟩
  · right
    simp only [Round.GotList, update, hlist, true_and]
    -- Requested is what the pool has and the cache has not.
    set newHashes := round.pool.filter fun hash => decide (hash ∉ keys c.transactions)
    have hnew : ∀ hash, hash ∈ newHashes ↔ hash ∈ round.pool ∧ hash ∉ keys c.transactions := by
      intro hash
      rw [List.mem_filter, decide_eq_true_iff]
    cases hfetch : round.client.transactionsByHashes newHashes with
    | error e =>
        left
        -- The fetch fails after the maps have been cut down.
        refine ⟨⟨e, rfl⟩, fun hash => ?_⟩
        rw [mem_keys_retain, decide_eq_true_iff]
    | ok txs =>
        right
        have hperm := round.byHashes newHashes txs hfetch
        refine ⟨⟨txs, rfl, fun hash => ?_⟩, fun hash => ?_⟩
        · -- The pool is a set, so that nothing is requested twice.
          have hnodup : newHashes.Nodup := round.nodup.filter _
          rw [hperm.count_eq, hnodup.count]
          exact if_congr (hnew hash) rfl rfl
        · rw [mem_keys_extend, mem_keys_retain, decide_eq_true_iff, keys_byHash, hperm.mem_iff, hnew]
          tauto
  · left
    have hnot : ¬ round.GotList := by
      rw [Round.GotList, hlist]
      exact nofun
    exact ⟨hnot, e, by rw [update, hlist]⟩

/-- **Both maps are cut down to the pool** by an update that gets the list. -/
theorem keys_update_subset {round : Round} (h : round.GotList) (c : TxpoolCache) :
    (∀ hash ∈ keys (c.update round.client).2.transactions, hash ∈ round.pool) ∧
      ∀ hash ∈ keys (c.update round.client).2.discoveredTransfers, hash ∈ round.pool := by
  constructor
  · intro hash hmem
    rcases update_cases round c with ⟨hnot, -⟩ | ⟨-, -, hkeys⟩ | ⟨-, -, hkeys⟩
    · exact absurd h hnot
    · exact ((hkeys hash).mp hmem).2
    · exact (hkeys hash).mp hmem
  · intro hash hmem
    have hretain : keys (c.update round.client).2.discoveredTransfers
        = keys (retain (fun hash => decide (hash ∈ round.pool)) c.discoveredTransfers) := by
      have hlist : round.client.txpoolHashes = .ok round.pool := h
      simp only [update, hlist]
      split <;> rfl
    rw [hretain, mem_keys_retain, decide_eq_true_iff] at hmem
    exact hmem.2

/-! ## One hash over a run -/

/-- Inserting transfers leaves the cached transactions. -/
theorem transactions_step (round : Round) (c : TxpoolCache) :
    (round.step c).transactions = (c.update round.client).2.transactions := rfl

/-- The results of some rounds and of further ones. -/
theorem results_append (rounds rounds' : List Round) (c : TxpoolCache) :
    results (rounds ++ rounds') c = results rounds c ++ results rounds' (after rounds c) := by
  induction rounds generalizing c with
  | nil => rfl
  | cons round rounds ih => simp only [List.cons_append, results, after, ih]

/-- The cache after some rounds and further ones. -/
theorem after_append (rounds rounds' : List Round) (c : TxpoolCache) :
    after (rounds ++ rounds') c = after rounds' (after rounds c) := by
  induction rounds generalizing c with
  | nil => rfl
  | cons round rounds ih => simp only [List.cons_append, after, ih]

variable {hash : Hash}

/-- **Out of the pool**: a transaction that is not cached is not returned and not cached. -/
theorem results_out {rounds : List Round} (hout : ∀ round ∈ rounds, hash ∉ round.pool)
    (c : TxpoolCache) (hc : hash ∉ keys c.transactions) :
    (results rounds c).map (times hash) = rounds.map (fun _ => 0) ∧
      hash ∉ keys (after rounds c).transactions := by
  induction rounds generalizing c with
  | nil => exact ⟨rfl, hc⟩
  | cons round rounds ih =>
      rw [List.forall_mem_cons] at hout
      have hstep : times hash (c.update round.client).1 = 0 ∧
          hash ∉ keys (round.step c).transactions := by
        rw [transactions_step]
        rcases update_cases round c with
          ⟨-, e, heq⟩ | ⟨-, ⟨e, heq⟩, hkeys⟩ | ⟨-, ⟨txs, heq, hcount⟩, hkeys⟩
        · rw [heq]
          exact ⟨rfl, hc⟩
        · rw [heq, hkeys]
          exact ⟨rfl, fun h => hout.1 h.2⟩
        · rw [heq, hkeys, times, hcount, if_neg fun h => hout.1 h.1]
          exact ⟨rfl, hout.1⟩
      obtain ⟨hresults, hafter⟩ := ih hout.2 (round.step c) hstep.2
      rw [results, List.map_cons, List.map_cons, hstep.1, hresults]
      exact ⟨rfl, hafter⟩

/-- In the pool and cached, a transaction is not returned again. -/
theorem results_cached {rounds : List Round} (hin : ∀ round ∈ rounds, hash ∈ round.pool)
    (c : TxpoolCache) (hc : hash ∈ keys c.transactions) :
    (results rounds c).map (times hash) = (results rounds c).map fun _ => 0 := by
  induction rounds generalizing c with
  | nil => rfl
  | cons round rounds ih =>
      rw [List.forall_mem_cons] at hin
      have hstep : times hash (c.update round.client).1 = 0 ∧
          hash ∈ keys (round.step c).transactions := by
        rw [transactions_step]
        rcases update_cases round c with
          ⟨-, e, heq⟩ | ⟨-, ⟨e, heq⟩, hkeys⟩ | ⟨-, ⟨txs, heq, hcount⟩, hkeys⟩
        · rw [heq]
          exact ⟨rfl, hc⟩
        · rw [heq, hkeys]
          exact ⟨rfl, hc, hin.1⟩
        · rw [heq, hkeys, times, hcount, if_neg fun h => h.2 hc]
          exact ⟨rfl, hin.1⟩
      rw [results, List.map_cons, List.map_cons, hstep.1, ih hin.2 (round.step c) hstep.2]

/-- **In the pool**: a transaction that is not cached is returned by the first successful update,
once, and by no other. -/
theorem results_stays {rounds : List Round} (hin : ∀ round ∈ rounds, hash ∈ round.pool)
    (c : TxpoolCache) (hc : hash ∉ keys c.transactions) :
    (results rounds c).map (times hash) = firstSuccess (results rounds c) := by
  induction rounds generalizing c with
  | nil => rfl
  | cons round rounds ih =>
      rw [List.forall_mem_cons] at hin
      rw [results, List.map_cons]
      rcases update_cases round c with
        ⟨-, e, heq⟩ | ⟨-, ⟨e, heq⟩, hkeys⟩ | ⟨-, ⟨txs, heq, hcount⟩, hkeys⟩
      · have hstep : hash ∉ keys (round.step c).transactions := by
          rw [transactions_step, heq]
          exact hc
        rw [ih hin.2 _ hstep, heq]
        rfl
      · have hstep : hash ∉ keys (round.step c).transactions := by
          rw [transactions_step, hkeys]
          exact fun h => hc h.1
        rw [ih hin.2 _ hstep, heq]
        rfl
      · -- Here it is handed out, and it is cached from now on.
        have hstep : hash ∈ keys (round.step c).transactions := by
          rw [transactions_step, hkeys]
          exact hin.1
        rw [results_cached hin.2 _ hstep, heq, firstSuccess, times, hcount, if_pos ⟨hin.1, hc⟩]

/-! ## Runs -/

/-- **A stay in the pool is reported once**: first the transaction is out of the pool and no update
returns it, then it is in the pool, and of those updates the first successful one returns it, once,
and no other does. -/
def HandedOutOnce (hash : Hash) (c : TxpoolCache) : Prop :=
  ∀ out stays : List Round, (∀ round ∈ out, hash ∉ round.pool) →
    (∀ round ∈ stays, hash ∈ round.pool) →
    (results (out ++ stays) c).map (times hash)
      = out.map (fun _ => 0) ++ firstSuccess (results stays (after out c))

/-- A transaction that is not cached will be handed out once when it enters the pool. -/
theorem handedOutOnce_of_not_mem {c : TxpoolCache} (h : hash ∉ keys c.transactions) :
    HandedOutOnce hash c := by
  intro out stays hout hstays
  obtain ⟨hresults, hafter⟩ := results_out hout c h
  rw [results_append, List.map_append, hresults, results_stays hstays _ hafter]

/-- **Each pool transaction is handed out once.** After `init`, an update succeeds if and only if both
of its requests do; a transaction that was not in the pool is handed out once when it comes; so it is
again after an update that has seen it gone; and an update that gets the list of hashes leaves only
those hashes in both maps. -/
theorem pool_transactions_handed_out_once {client : MonerodClient} {c : TxpoolCache}
    {txs : List Transaction} (htxpool : client.txpool = .ok txs) (hinit : init client = .ok c) :
    (∀ (rounds : List Round) (round : Round),
      (∃ txs, ((after rounds c).update round.client).1 = .ok txs) ↔
        round.Succeeds (after rounds c)) ∧
    (∀ hash ∉ txs.map (·.hash), HandedOutOnce hash c) ∧
    (∀ (rounds : List Round) (gone : Round), gone.GotList → ∀ hash ∉ gone.pool,
      HandedOutOnce hash (after (rounds ++ [gone]) c)) ∧
    ∀ (rounds : List Round) (round : Round), round.GotList →
      (∀ hash ∈ keys ((after rounds c).update round.client).2.transactions, hash ∈ round.pool) ∧
      ∀ hash ∈ keys ((after rounds c).update round.client).2.discoveredTransfers,
        hash ∈ round.pool := by
  refine ⟨fun rounds round => update_ok_iff round (after rounds c), fun hash hnot => ?_,
    fun rounds gone hlist hash hnot => ?_, fun rounds round hlist => ?_⟩
  · rw [init, htxpool] at hinit
    obtain rfl := Except.ok.inj hinit
    refine handedOutOnce_of_not_mem ?_
    rwa [keys_byHash]
  · refine handedOutOnce_of_not_mem fun hmem => hnot ?_
    rw [after_append] at hmem
    exact (keys_update_subset hlist (after rounds c)).1 hash hmem
  · exact keys_update_subset hlist (after rounds c)

/-- A daemon that lists some hashes, and whose second request may fail. -/
def poolClient (pool : List Hash) (fails : Bool) : MonerodClient where
  block _ := .error .request
  blockTransactions _ := .error .request
  txpool := .ok (pool.map fun hash => ⟨hash, 0, []⟩)
  txpoolHashes := .ok pool
  transactionsByHashes hashes :=
    if fails then .error .timeout else .ok (hashes.map fun hash => ⟨hash, 0, []⟩)
  daemonHeight := .error .request

/-- A round with such a daemon. -/
def poolRound (pool : List Hash) (fails : Bool) (h : pool.Nodup) : Round where
  pool := pool
  client := poolClient pool fails
  transfers := []
  nodup := h
  list := .inl rfl
  byHashes hashes txs htxs := by
    simp only [poolClient] at htxs
    split at htxs
    · cases htxs
    · cases htxs
      simp [Function.comp_def]

/-- A transaction that enters the pool when the second request fails: the next update returns it,
and the one after that does not. -/
theorem handed_out_after_failure :
    (results [poolRound [1] true (by decide), poolRound [1] false (by decide),
      poolRound [1] false (by decide)] ⟨[], []⟩).map (times 1) = [0, 1, 0] := by
  have honce := (@pool_transactions_handed_out_once (poolClient [] false) ⟨[], []⟩ [] rfl rfl).2.1 1
    (by decide)
  exact honce [] [poolRound [1] true (by decide), poolRound [1] false (by decide),
    poolRound [1] false (by decide)] (by decide) (by simp [poolRound])

end TxpoolCache

end AcceptXmr
