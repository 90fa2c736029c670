import AcceptXmr.Invoice

/-! # The monero daemon as the gateway sees it

The types of the `monero` crate that the scanner reads and the interface of the RPC client
(`library/src/monerod_client/mod.rs`). What the crate's key checks find out about a transaction is
data here: a `Transaction` lists the outputs that belong to the gateway's wallet, under any
subaddress, and `SubKeyChecker.covers` says which of them a checker built for some index ranges can
recognise. -/

namespace AcceptXmr

/-- A transaction or block hash. -/
abbrev Hash := BitVec 256

/-- Whether a hash is in a list of hashes. -/
instance decidableMemHash (hash : Hash) (hashes : List Hash) : Decidable (hash ∈ hashes) :=
  List.instDecidableMemOfLawfulBEq hash hashes

/-- An output's public key. -/
structure OutputPubKey where
  bytes : BitVec 256
  deriving DecidableEq, Repr

/-- A means of referring to an output: transaction hash and index in the transaction. -/
structure OutputId where
  txHash : Hash
  index : ℕ
  deriving DecidableEq, Repr

/-- An output that belongs to the wallet. `amount` is `none` if it cannot be unblinded. -/
structure OwnedTxOut where
  index : ℕ
  key : OutputPubKey
  subIndex : SubIndex
  amount : Option ℕ
  deriving DecidableEq, Repr

/-- A transaction, with those of its outputs that belong to the wallet. -/
structure Transaction where
  hash : Hash
  unlockTime : ℕ
  outputs : List OwnedTxOut
  deriving DecidableEq, Repr

/-- The id of an output of this transaction. -/
def Transaction.outputId (tx : Transaction) (output : OwnedTxOut) : OutputId :=
  ⟨tx.hash, output.index⟩

/-- The subaddress keys a scan can recognise: half-open ranges of major and minor indexes. -/
structure SubKeyChecker where
  majors : UInt32 × UInt32
  minors : UInt32 × UInt32
  deriving DecidableEq, Repr

/-- Whether outputs to a subaddress index are recognised. -/
def SubKeyChecker.covers (checker : SubKeyChecker) (s : SubIndex) : Bool :=
  decide (checker.majors.1 ≤ s.major) && decide (s.major < checker.majors.2)
    && decide (checker.minors.1 ≤ s.minor) && decide (s.minor < checker.minors.2)

/-- `Transaction::check_outputs_with`: the owned outputs a checker finds, in output order. -/
def Transaction.checkOutputsWith (tx : Transaction) (checker : SubKeyChecker) : List OwnedTxOut :=
  tx.outputs.filter fun output => checker.covers output.subIndex

/-- A block as the daemon serves it. -/
structure MoneroBlock where
  /-- `header.prev_id`. -/
  prevId : Hash
  txHashes : List Hash
  deriving DecidableEq, Repr

/-- An error originating from the monerod client. -/
inductive RpcError where
  | request
  | invalidRequest
  | timeout
  | hexDecode
  | serialization
  | missingData (path : String)
  | dataType (expected : String)
  | invalidJson
  | auth
  deriving DecidableEq, Repr

/-- The answers of the daemon during one operation of the scanner: every call the operation makes
may succeed or fail on its own. -/
structure MonerodClient where
  block : ℕ → Except RpcError (Hash × MoneroBlock)
  blockTransactions : MoneroBlock → Except RpcError (List Transaction)
  txpool : Except RpcError (List Transaction)
  txpoolHashes : Except RpcError (List Hash)
  transactionsByHashes : List Hash → Except RpcError (List Transaction)
  daemonHeight : Except RpcError ℕ

/-- A daemon with one chain, genesis block first, and one pool. -/
structure Daemon where
  chain : List (Hash × List Transaction)
  pool : List Transaction

/-- The hash of the block at a height, zero if there is none. -/
def Daemon.hashAt (self : Daemon) (height : ℕ) : Hash :=
  match self.chain[height]? with
  | some (hash, _) => hash
  | none => 0

/-- The answers of a daemon that does not fail. -/
def Daemon.client (self : Daemon) : MonerodClient where
  block height :=
    match self.chain[height]? with
    | some (hash, txs) =>
        .ok (hash, ⟨if height = 0 then 0 else self.hashAt (height - 1), txs.map (·.hash)⟩)
    | none => .error .request
  -- The coinbase transaction is not among the hashes of a block.
  blockTransactions block :=
    .ok (block.txHashes.filterMap fun hash =>
      (self.chain.flatMap Prod.snd).find? fun tx => tx.hash = hash)
  txpool := .ok self.pool
  txpoolHashes := .ok (self.pool.map (·.hash))
  transactionsByHashes hashes :=
    .ok (hashes.filterMap fun hash => self.pool.find? fun tx => tx.hash = hash)
  daemonHeight := .ok self.chain.length

end AcceptXmr
