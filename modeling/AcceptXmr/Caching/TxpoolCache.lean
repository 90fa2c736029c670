import AcceptXmr.Library.AssocMap
import AcceptXmr.MonerodClient

/-! # The txpool cache

`library/src/caching/txpool_cache.rs`: the pool transactions seen so far and the transfers
discovered in them, both keyed by transaction hash. -/

namespace AcceptXmr

open AssocMap

/-- The txpool cache. -/
structure TxpoolCache where
  transactions : List (Hash × Transaction)
  discoveredTransfers : List (Hash × List (SubIndex × Transfer))
  deriving DecidableEq, Repr

/-- Transactions keyed by their hash. -/
def byHash (txs : List Transaction) : List (Hash × Transaction) := txs.map fun tx => (tx.hash, tx)

/-- Transactions are cached under their hashes. -/
@[simp] theorem keys_byHash (txs : List Transaction) : keys (byHash txs) = txs.map (·.hash) := by
  simp [keys, byHash, Function.comp_def]

namespace TxpoolCache

/-- `TxpoolCache::init`: the pool's transactions are cached, none of their transfers are. -/
def init (client : MonerodClient) : Except RpcError TxpoolCache :=
  match client.txpool with
  | .error e => .error e
  | .ok txs => .ok ⟨byHash txs, []⟩

/-- `TxpoolCache::update`: forget what has left the pool and fetch what is new in it. Returns the
transactions received. -/
def update (client : MonerodClient) (self : TxpoolCache) :
    Except RpcError (List Transaction) × TxpoolCache :=
  match client.txpoolHashes with
  | .error e => (.error e, self)
  | .ok txpoolHashes =>
      let newHashes := txpoolHashes.filter fun hash => decide (hash ∉ keys self.transactions)
      -- The retain runs beside the request, so it happens even if the request fails.
      let transactions := retain (fun hash => decide (hash ∈ txpoolHashes)) self.transactions
      let discoveredTransfers :=
        retain (fun hash => decide (hash ∈ txpoolHashes)) self.discoveredTransfers
      match client.transactionsByHashes newHashes with
      | .error e => (.error e, ⟨transactions, discoveredTransfers⟩)
      | .ok newTransactions =>
          (.ok newTransactions, ⟨extend transactions (byHash newTransactions), discoveredTransfers⟩)

/-- `insert_transfers`: remember discovered transfers for the next scan. -/
def insertTransfers (self : TxpoolCache) (transfers : List (Hash × List (SubIndex × Transfer))) :
    TxpoolCache :=
  { self with discoveredTransfers := extend self.discoveredTransfers transfers }

end TxpoolCache

end AcceptXmr
