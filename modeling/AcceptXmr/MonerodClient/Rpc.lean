import AcceptXmr.Caching.BlockCache
import AcceptXmr.Library.Collect
import AcceptXmr.Library.InStep

/-! # Fetching transactions over RPC

`RpcClient::transactions_by_hashes` and `block_transactions` of `library/src/monerod_client/mod.rs`:
the hashes are requested in chunks of at most 100, and what the daemon answers is decoded and put
together. The program sends one request at a time; a run of it is given the daemon's answers in
order. What the crates `hex`, `serde_json` and `monero` do with a text is a parameter, `wire`.

A request that is answered with another number of transactions than asked for is only logged.

* **`requests_partition_hashes`** — the chunks that are requested, and what is returned.
* **`blocks_complete_iff`** — when all requested transactions are returned, and what that means for
  the block cache. -/

namespace AcceptXmr

/-- `serde_json::Value`. -/
inductive Value where
  | null
  | bool (b : Bool)
  | number (text : String)
  | string (text : String)
  | array (items : List Value)
  | object (fields : List (String × Value))

/-- `value[key]`: null if there is no such field. -/
def Value.get (key : String) : Value → Value
  | .object fields => (fields.lookup key).getD .null
  | _ => .null

/-- `as_array`. -/
def Value.asArray : Value → Option (List Value)
  | .array items => some items
  | _ => none

/-- `as_str`. -/
def Value.asStr : Value → Option String
  | .string text => some text
  | _ => none

/-- What other crates do with the texts on the wire. -/
structure Wire where
  /-- `hex::encode` of a hash's bytes. -/
  hexEncode : Hash → String
  /-- `hex::decode`. -/
  hexDecode : String → Option (List UInt8)
  /-- `Value::to_string`. -/
  render : Value → String
  /-- `monero::consensus::deserialize`. -/
  deserialize : List UInt8 → Option Transaction

/-- A request to the daemon. -/
structure RpcRequest where
  body : String
  endpoint : String
  deriving DecidableEq, Repr

/-- A program that sends requests to the daemon. -/
abbrev RpcProgram := Resumption RpcRequest (fun _ => Except RpcError Value) RpcError

/-- `RpcClient::request`. -/
def RpcRequest.send (req : RpcRequest) : RpcProgram Value := .call req .done

namespace RpcClient

/-- Maximum number of transactions to request at once. -/
def maxRequestedTransactions : ℕ := 100

/-- The request for the transactions of some hashes. -/
def getTransactions (wire : Wire) (hashes : List Hash) : RpcRequest where
  body := "\x7b\"txs_hashes\":" ++
    wire.render (.array (hashes.map fun hash => .string (wire.hexEncode hash))) ++ "\x7d"
  endpoint := "get_transactions"

/-- The transaction of one entry of an answer. -/
def decodeTransaction (wire : Wire) (txJson : Value) : Except RpcError Transaction :=
  match txJson.asStr with
  | none => .error (.dataType "&str")
  | some txStr =>
      match wire.hexDecode txStr with
      | none => .error .hexDecode
      | some txHex =>
          match wire.deserialize txHex with
          | none => .error .serialization
          | some tx => .ok tx

/-- The transactions of an answer. Their number is compared with the number of hashes for the log
only. -/
def decodeTransactions (wire : Wire) (res : Value) : Except RpcError (List Transaction) :=
  match (res.get "txs_as_hex").asArray with
  | none => .error (.missingData "\x7b\x7b txs_as_hex: [...] \x7d\x7d")
  | some hexes => hexes.mapM (decodeTransaction wire)

/-- The loop of `transactions_by_hashes` over the indexes `i` that are left. -/
def requestChunks (wire : Wire) (hashes : List Hash) :
    List ℕ → List Transaction → RpcProgram (List Transaction)
  | [], transactions => pure transactions
  | i :: rest, transactions =>
      let startingIndex := i * maxRequestedTransactions
      let endingIndex := min (maxRequestedTransactions * (i + 1)) hashes.length
      -- Nothing is left: an empty list is not requested.
      if endingIndex = startingIndex then pure transactions
      else
        (getTransactions wire ((hashes.take endingIndex).drop startingIndex)).send.bind fun res =>
          match decodeTransactions wire res with
          | .error e => .done (.error e)
          | .ok received => requestChunks wire hashes rest (transactions ++ received)

/-- `transactions_by_hashes`. -/
def transactionsByHashes (wire : Wire) (hashes : List Hash) : RpcProgram (List Transaction) :=
  requestChunks wire hashes (List.range (hashes.length / maxRequestedTransactions + 1)) []

/-- `block_transactions`. -/
def blockTransactions (wire : Wire) (block : MoneroBlock) : RpcProgram (List Transaction) :=
  transactionsByHashes wire block.txHashes

/-! ## Runs against a sequence of answers -/

/-- The daemon's answers, in the order in which they are asked for. -/
abbrev Answers := ℕ → Except RpcError Value

/-- A daemon that gives the answers one after the other, whatever it is asked. -/
def answering (answers : Answers) (_ : RpcRequest) (asked : ℕ) : Except RpcError Value × ℕ :=
  (answers asked, asked + 1)

/-- What `transactions_by_hashes` returns. -/
def fetched (wire : Wire) (answers : Answers) (hashes : List Hash) :
    Except RpcError (List Transaction) :=
  ((transactionsByHashes wire hashes).run (answering answers) 0).1

/-- What `transactions_by_hashes` asks for. -/
def requests (wire : Wire) (answers : Answers) (hashes : List Hash) : List RpcRequest :=
  (transactionsByHashes wire hashes).sent (answering answers) 0

/-! ## The chunks -/

section Chunks

variable {hashes : List Hash} {i : ℕ}

/-- The number of chunks that `hashes` are requested in. -/
def chunkCount (hashes : List Hash) : ℕ :=
  (hashes.length + maxRequestedTransactions - 1) / maxRequestedTransactions

/-- The hashes of the `i`-th request. -/
def chunk (hashes : List Hash) (i : ℕ) : List Hash :=
  (hashes.take (min (maxRequestedTransactions * (i + 1)) hashes.length)).drop
    (i * maxRequestedTransactions)

/-- The indexes that the loop has left from `i` on. -/
def indexesFrom (hashes : List Hash) (i : ℕ) : List ℕ :=
  List.range' i (hashes.length / maxRequestedTransactions + 1 - i)

theorem lt_chunkCount : i < chunkCount hashes ↔ i * maxRequestedTransactions < hashes.length := by
  simp only [chunkCount, maxRequestedTransactions]
  omega

/-- The first `n` chunks are the beginning of the list. -/
theorem flatten_chunks (hashes : List Hash) (n : ℕ) :
    ((List.range n).map (chunk hashes)).flatten = hashes.take (n * maxRequestedTransactions) := by
  induction n with
  | zero => simp
  | succ n ih =>
      have hend : hashes.take (min (maxRequestedTransactions * (n + 1)) hashes.length)
          = hashes.take ((n + 1) * maxRequestedTransactions) := by
        rw [Nat.mul_comm, ← List.take_take, List.take_length]
      have hstart : n * maxRequestedTransactions ≤ (n + 1) * maxRequestedTransactions :=
        Nat.mul_le_mul_right _ (Nat.le_succ n)
      rw [List.range_succ, List.map_append, List.flatten_append, ih, List.map_singleton,
        List.flatten_singleton, chunk, hend]
      calc hashes.take (n * maxRequestedTransactions)
            ++ (hashes.take ((n + 1) * maxRequestedTransactions)).drop (n * maxRequestedTransactions)
          = (hashes.take ((n + 1) * maxRequestedTransactions)).take (n * maxRequestedTransactions)
            ++ (hashes.take ((n + 1) * maxRequestedTransactions)).drop
              (n * maxRequestedTransactions) := by
              rw [List.take_take, Nat.min_eq_left hstart]
        _ = hashes.take ((n + 1) * maxRequestedTransactions) := List.take_append_drop _ _

/-- **All chunks together** are the list. -/
theorem flatten_all_chunks (hashes : List Hash) :
    ((List.range (chunkCount hashes)).map (chunk hashes)).flatten = hashes := by
  have hall : hashes.length ≤ chunkCount hashes * maxRequestedTransactions :=
    Nat.le_of_not_lt fun h => absurd (lt_chunkCount.mpr h) (Nat.lt_irrefl _)
  rw [flatten_chunks, List.take_of_length_le hall]

/-- After the last chunk the loop ends: it has used up its indexes, or comes to an empty chunk. -/
theorem requestChunks_end (wire : Wire) (hi : i = chunkCount hashes)
    (transactions : List Transaction) :
    requestChunks wire hashes (indexesFrom hashes i) transactions = pure transactions := by
  by_cases hrest : hashes.length / maxRequestedTransactions < i
  · rw [indexesFrom, Nat.sub_eq_zero_of_le hrest]
    rfl
  · simp only [chunkCount, maxRequestedTransactions] at hi hrest
    have hexact : hashes.length = i * maxRequestedTransactions := by
      simp only [maxRequestedTransactions]
      omega
    have hleft : hashes.length / maxRequestedTransactions + 1 - i = 0 + 1 := by
      simp only [maxRequestedTransactions]
      omega
    have hend : min (maxRequestedTransactions * (i + 1)) hashes.length
        = i * maxRequestedTransactions := by
      rw [hexact]
      exact Nat.min_eq_right (by simp only [maxRequestedTransactions]; omega)
    rw [indexesFrom, hleft, List.range'_succ, requestChunks]
    exact if_pos hend

/-- Before, the loop requests a chunk and goes on with the next index. -/
theorem requestChunks_next (wire : Wire) (hi : i < chunkCount hashes)
    (transactions : List Transaction) :
    requestChunks wire hashes (indexesFrom hashes i) transactions =
      (getTransactions wire (chunk hashes i)).send.bind fun res =>
        match decodeTransactions wire res with
        | .error e => .done (.error e)
        | .ok received =>
            requestChunks wire hashes (indexesFrom hashes (i + 1)) (transactions ++ received) := by
  rw [lt_chunkCount] at hi
  simp only [maxRequestedTransactions] at hi
  have hleft : hashes.length / maxRequestedTransactions + 1 - i
      = hashes.length / maxRequestedTransactions + 1 - (i + 1) + 1 := by
    simp only [maxRequestedTransactions]
    omega
  have hend : min (maxRequestedTransactions * (i + 1)) hashes.length
      ≠ i * maxRequestedTransactions := by
    simp only [maxRequestedTransactions]
    omega
  rw [indexesFrom, hleft, List.range'_succ, requestChunks]
  exact if_neg hend

end Chunks

/-! ## What a run returns and asks for -/

section Runs

variable {wire : Wire} {answers : Answers} {hashes : List Hash} {i n : ℕ}

/-- What one request yields. -/
def received (wire : Wire) (answer : Except RpcError Value) : Except RpcError (List Transaction) :=
  match answer with
  | .error e => .error e
  | .ok res => decodeTransactions wire res

/-- What `n` requests yield from the `i`-th on: all their transactions, or the first error. -/
def collected (wire : Wire) (answers : Answers) : ℕ → ℕ → Except RpcError (List Transaction)
  | 0, _ => .ok []
  | n + 1, i =>
      match received wire (answers i) with
      | .error e => .error e
      | .ok transactions =>
          match collected wire answers n (i + 1) with
          | .error e => .error e
          | .ok rest => .ok (transactions ++ rest)

/-- The loop adds what its requests yield to what it has. -/
theorem run_requestChunks (hn : i + n = chunkCount hashes) (transactions : List Transaction) :
    ((requestChunks wire hashes (indexesFrom hashes i) transactions).run (answering answers) i).1 =
      match collected wire answers n i with
      | .error e => .error e
      | .ok rest => .ok (transactions ++ rest) := by
  induction n generalizing i transactions with
  | zero =>
      rw [requestChunks_end wire (i := i) hn]
      simp [collected]
  | succ n ih =>
      rw [requestChunks_next wire (by omega), RpcRequest.send, Resumption.bind, Resumption.run_call]
      simp only [answering, collected, received]
      cases answers i with
      | error e => rfl
      | ok res =>
          simp only [Resumption.bind]
          cases decodeTransactions wire res with
          | error e => rfl
          | ok txs =>
              simp only
              rw [ih (by omega)]
              cases collected wire answers n (i + 1) with
              | error e => rfl
              | ok rest =>
                  simp only
                  rw [List.append_assoc]

/-- **What is returned**: all transactions of the answers, or the first error. -/
theorem fetched_eq (wire : Wire) (answers : Answers) (hashes : List Hash) :
    fetched wire answers hashes = collected wire answers (chunkCount hashes) 0 := by
  have hall : List.range (hashes.length / maxRequestedTransactions + 1) = indexesFrom hashes 0 :=
    List.range_eq_range'
  rw [fetched, transactionsByHashes, hall, run_requestChunks (Nat.zero_add _)]
  cases collected wire answers (chunkCount hashes) 0 with
  | error e => rfl
  | ok rest => rfl

/-- If every request yields transactions, all of them are collected. -/
theorem collected_ok {decoded : ℕ → List Transaction}
    (h : ∀ j, i ≤ j → j < i + n → received wire (answers j) = .ok (decoded j)) :
    collected wire answers n i = .ok ((List.range' i n).flatMap decoded) := by
  induction n generalizing i with
  | zero => rfl
  | succ n ih =>
      rw [collected, h i (Nat.le_refl i) (by omega)]
      simp only
      rw [ih fun j hj hlt => h j (by omega) (by omega), List.range'_succ, List.flatMap_cons]

/-- Something is collected only if every request yields transactions. -/
theorem received_of_collected {transactions : List Transaction}
    (h : collected wire answers n i = .ok transactions) :
    ∀ j, i ≤ j → j < i + n → ∃ txs, received wire (answers j) = .ok txs := by
  induction n generalizing i transactions with
  | zero =>
      intro j hj hlt
      omega
  | succ n ih =>
      intro j hj hlt
      rw [collected] at h
      cases hfirst : received wire (answers i) with
      | error e =>
          rw [hfirst] at h
          cases h
      | ok txs =>
          rw [hfirst] at h
          rcases Nat.eq_or_lt_of_le hj with rfl | hj
          · exact ⟨txs, hfirst⟩
          · cases hrest : collected wire answers n (i + 1) with
            | error e =>
                rw [hrest] at h
                cases h
            | ok rest => exact ih hrest j hj (by omega)

end Runs

/-! ## The chunks that are requested -/

/-- Texts with hashes in hexadecimal digits and lists of strings; nothing is decoded. -/
def hexWire : Wire where
  hexEncode := BitVec.toHex
  hexDecode _ := none
  render
    | .array items => "[" ++ ",".intercalate (items.map fun item =>
        "\"" ++ item.asStr.getD "" ++ "\"") ++ "]"
    | _ => "null"
  deserialize _ := none

/-- A daemon that answers with a list of no transactions, whatever is asked for. -/
def emptyAnswers : Answers := fun _ => .ok (.object [("txs_as_hex", .array [])])

/-- **What a call is to return**: one transaction for every hash, in the order of the hashes, and an
error if some answer has fewer or more transactions than were asked for. -/
structure AllOrError (wire : Wire) (answers : Answers) (hashes : List Hash) : Prop where
  complete : ∀ transactions, fetched wire answers hashes = .ok transactions →
    transactions.map Transaction.hash = hashes
  mismatch : ∀ i < chunkCount hashes, ∀ res hexes, answers i = .ok res →
    (res.get "txs_as_hex").asArray = some hexes → hexes.length ≠ (chunk hashes i).length →
      ∃ e, fetched wire answers hashes = .error e

/-- **Answers that can be relied on**: a request fails or is answered by something that cannot be
decoded, or every answer has exactly the transactions that were asked for. -/
def FullOrFailing (wire : Wire) (answers : Answers) (hashes : List Hash) : Prop :=
  (∃ i < chunkCount hashes, ∃ e, received wire (answers i) = .error e) ∨
    ∀ i < chunkCount hashes, ∃ transactions, received wire (answers i) = .ok transactions ∧
      transactions.map Transaction.hash = chunk hashes i

/-- Of an answer that is decoded, every entry is a transaction. -/
theorem entries_of_received {wire : Wire} {answer : Except RpcError Value}
    {transactions : List Transaction} (h : received wire answer = .ok transactions) :
    ∃ res hexes, answer = .ok res ∧ (res.get "txs_as_hex").asArray = some hexes ∧
      hexes.length = transactions.length := by
  unfold received at h
  split at h
  · cases h
  · rename_i res
    unfold decodeTransactions at h
    split at h
    · cases h
    · rename_i hexes hhexes
      exact ⟨res, hexes, rfl, hhexes, Collect.length_of_mapM h⟩

/-- Lists that are put together from pieces of the same lengths are equal piece by piece. -/
theorem eq_of_flatMap_range_eq {α : Type} {f g : ℕ → List α} {n : ℕ}
    (hlength : ∀ i < n, (f i).length = (g i).length)
    (h : (List.range n).flatMap f = (List.range n).flatMap g) : ∀ i < n, f i = g i := by
  induction n with
  | zero => nofun
  | succ n ih =>
      rw [List.range_succ, List.flatMap_append, List.flatMap_append, List.flatMap_singleton,
        List.flatMap_singleton] at h
      obtain ⟨hinit, hlast⟩ := List.append_inj' h (hlength n (Nat.lt_succ_self n))
      intro i hi
      rcases Nat.lt_succ_iff_lt_or_eq.mp hi with hi | hi
      · exact ih (fun j hj => hlength j (Nat.lt_succ_of_lt hj)) hinit i hi
      · rw [hi]
        exact hlast

/-- If no request fails, the run returns all that the answers hold. -/
theorem decoded_of_none_fails {wire : Wire} {answers : Answers} {hashes : List Hash}
    (h : ¬ ∃ i < chunkCount hashes, ∃ e, received wire (answers i) = .error e) :
    ∃ decoded : ℕ → List Transaction,
      (∀ i < chunkCount hashes, received wire (answers i) = .ok (decoded i)) ∧
      fetched wire answers hashes = .ok ((List.range (chunkCount hashes)).flatMap decoded) := by
  have hok : ∀ i, ∃ transactions, i < chunkCount hashes →
      received wire (answers i) = .ok transactions := by
    intro i
    cases hanswer : received wire (answers i) with
    | error e => exact ⟨[], fun hi => absurd ⟨i, hi, e, hanswer⟩ h⟩
    | ok transactions => exact ⟨transactions, fun _ => rfl⟩
  choose decoded hdecoded using hok
  refine ⟨decoded, hdecoded, ?_⟩
  rw [fetched_eq, collected_ok fun j _ hj => hdecoded j (by omega), List.range_eq_range']

/-- **All transactions or an error** are returned exactly if the answers can be relied on. -/
theorem allOrError_iff (wire : Wire) (answers : Answers) (hashes : List Hash) :
    AllOrError wire answers hashes ↔ FullOrFailing wire answers hashes := by
  by_cases hfails : ∃ i < chunkCount hashes, ∃ e, received wire (answers i) = .error e
  · refine iff_of_true ?_ (.inl hfails)
    obtain ⟨i, hi, e, he⟩ := hfails
    have hnone : ∀ transactions, fetched wire answers hashes ≠ .ok transactions := by
      intro transactions hok
      rw [fetched_eq] at hok
      obtain ⟨txs, htxs⟩ := received_of_collected hok i (Nat.zero_le i) (by omega)
      rw [he] at htxs
      cases htxs
    refine ⟨fun transactions hok => absurd hok (hnone transactions), fun _ _ _ _ _ _ _ => ?_⟩
    cases hresult : fetched wire answers hashes with
    | error e => exact ⟨e, rfl⟩
    | ok transactions => exact absurd hresult (hnone transactions)
  · obtain ⟨decoded, hdecoded, hfetched⟩ := decoded_of_none_fails hfails
    have hhashes : ((List.range (chunkCount hashes)).flatMap decoded).map Transaction.hash
        = (List.range (chunkCount hashes)).flatMap fun i => (decoded i).map Transaction.hash :=
      List.map_flatMap
    have hchunks : (List.range (chunkCount hashes)).flatMap (chunk hashes) = hashes := by
      rw [List.flatMap_def, flatten_all_chunks]
    constructor
    · rintro ⟨hcomplete, hmismatch⟩
      -- As no answer is refused, each has as many entries as were asked for.
      have hlength : ∀ i < chunkCount hashes,
          ((decoded i).map Transaction.hash).length = (chunk hashes i).length := by
        intro i hi
        obtain ⟨res, hexes, hanswer, hhexes, hcount⟩ := entries_of_received (hdecoded i hi)
        by_contra hne
        rw [List.length_map, ← hcount] at hne
        obtain ⟨e, he⟩ := hmismatch i hi res hexes hanswer hhexes hne
        rw [hfetched] at he
        cases he
      have hall := hcomplete _ hfetched
      rw [hhashes] at hall
      have hpieces := eq_of_flatMap_range_eq hlength (hall.trans hchunks.symm)
      exact .inr fun i hi => ⟨decoded i, hdecoded i hi, hpieces i hi⟩
    · intro hrely
      have hfull := hrely.resolve_left hfails
      have hpieces : ∀ i < chunkCount hashes, (decoded i).map Transaction.hash = chunk hashes i := by
        intro i hi
        obtain ⟨transactions, hok, hhash⟩ := hfull i hi
        rw [hdecoded i hi] at hok
        cases hok
        exact hhash
      refine ⟨fun transactions hok => ?_, fun i hi res hexes hanswer hhexes hne => ?_⟩
      · rw [hfetched] at hok
        cases hok
        rw [hhashes]
        exact (List.flatMap_congr fun i hi => hpieces i (List.mem_range.mp hi)).trans hchunks
      · obtain ⟨res', hexes', hanswer', hhexes', hcount⟩ := entries_of_received (hdecoded i hi)
        rw [hanswer] at hanswer'
        cases hanswer'
        rw [hhexes] at hhexes'
        cases hhexes'
        refine absurd ?_ hne
        rw [hcount, ← hpieces i hi, List.length_map]

/-! ## The block cache over RPC -/

/-- A client that fetches transactions over RPC. `answers hashes` are the answers to a call with these
hashes, and `other` those to the other calls. -/
def client (wire : Wire) (answers : List Hash → Answers) (other : MonerodClient) : MonerodClient :=
  { other with
    blockTransactions := fun block =>
      ((blockTransactions wire block).run (answering (answers block.txHashes)) 0).1
    transactionsByHashes := fun hashes => fetched wire (answers hashes) hashes }

/-- A daemon whose answers can be relied on in every call. -/
def Reliable (wire : Wire) (c : MonerodClient) : Prop :=
  ∃ answers other, (∀ hashes, FullOrFailing wire (answers hashes) hashes) ∧
    c = client wire answers other

/-- **The caches of a run**: a cache is fetched by `init` and then updated again and again, each time
with other answers. An update may fail. -/
inductive Cached (P : MonerodClient → Prop) : BlockCache → Prop where
  | init {c : MonerodClient} {cacheSize initialHeight daemonHeight : ℕ} {cache : BlockCache}
      (hc : P c) (h : BlockCache.init c cacheSize initialHeight daemonHeight = .ok cache) :
      Cached P cache
  | update {c : MonerodClient} {cache : BlockCache} (hc : P c) (h : Cached P cache) :
      Cached P (BlockCache.update c cache).2

/-- Every block is cached with all its transactions, in order. -/
def Complete (cache : BlockCache) : Prop :=
  ∀ block ∈ cache.blocks, block.transactions.map Transaction.hash = block.inner.txHashes

/-- What is fetched from a daemon that can be relied on. -/
theorem complete_of_fetched {wire : Wire} {c : MonerodClient} (hc : Reliable wire c) {block : Block}
    (h : BlockCache.FetchedFrom c block) :
    block.transactions.map Transaction.hash = block.inner.txHashes := by
  obtain ⟨answers, other, hrely, rfl⟩ := hc
  obtain ⟨height, h⟩ := h
  unfold MonerodClient.fetch at h
  split at h
  · cases h
  · split at h
    · cases h
    · rename_i transactions htransactions
      cases h
      exact ((allOrError_iff wire _ _).mpr (hrely _)).complete transactions htransactions

/-- **A run keeps the cache complete.** -/
theorem Cached.complete {wire : Wire} {cache : BlockCache} (h : Cached (Reliable wire) cache) :
    Complete cache := by
  induction h with
  | init hc h =>
      intro block hblock
      unfold BlockCache.init at h
      split at h
      · cases h
      · rename_i blocks hblocks
        cases h
        exact complete_of_fetched hc (BlockCache.fetchDown_fetched hblocks block hblock)
  | @update c cache hc _ ih =>
      intro block hblock
      exact (BlockCache.update_fetched c cache block hblock).elim (ih block) (complete_of_fetched hc)

/-- **When transactions are missing.** A call returns one transaction for every hash or an error, and
an error for an answer of another length, exactly if some request yields nothing or all answers have
what was asked for. As long as that is so, every cached block has all its transactions. -/
theorem blocks_complete_iff (wire : Wire) :
    (∀ answers hashes, AllOrError wire answers hashes ↔ FullOrFailing wire answers hashes) ∧
      ∀ cache, Cached (Reliable wire) cache → Complete cache :=
  ⟨allOrError_iff wire, fun _ h => h.complete⟩

/-- A daemon with one block of one transaction, which it does not give out. -/
def forgetfulDaemon : MonerodClient :=
  client hexWire (fun _ => emptyAnswers)
    { (Daemon.mk [] []).client with
      block := fun _ => .ok (7, ⟨0, [1]⟩)
      daemonHeight := .ok 1 }

/-- **A block without its transaction.** A list that is too short is returned as it is, and the block
is cached without the transaction. -/
theorem short_answer_cached :
    ¬ AllOrError hexWire emptyAnswers [1] ∧
      ∃ cache, BlockCache.init forgetfulDaemon 1 0 1 = .ok cache ∧ ¬ Complete cache := by
  have hshort : fetched hexWire emptyAnswers [1] = .ok [] := by
    rw [fetched_eq]
    rfl
  refine ⟨fun h => ?_, ⟨0, 1, [⟨7, 0, ⟨0, [1]⟩, []⟩]⟩, ?_, fun h => ?_⟩
  · exact absurd (h.complete [] hshort) (by decide)
  · simp only [BlockCache.init, BlockCache.fetchDown, MonerodClient.fetch]
    rfl
  · exact absurd (h _ List.mem_cons_self) (by decide)

end RpcClient

end AcceptXmr
