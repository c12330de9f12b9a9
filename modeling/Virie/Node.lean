import Virie.Foundation.Runs
import Virie.Storage.Switch

/-! # The node

The events a node processes one at a time, from the genesis block on: submitted
blocks, relayed transactions, truncations, maintenance of the pool and of the
alternative chains, queries of difficulties and medians, and the passing of time. -/

open Foundation

namespace Virie

def currencyMaxTransactionBlobSize : Nat :=
  currencyBlockGrantedFullRewardZone - currencyCoinbaseBlobReservedSize * 2

/-- The room a transaction has in the current block, as the wrapping subtraction of the
source computes it. -/
def roomForTransaction (db : Db) : Nat :=
  (db.currentBlockCumulSzLimit + (2 ^ 64 - currencyCoinbaseBlobReservedSize)) % 2 ^ 64

section Node

variable (E : Env)

/-- Add a transaction that neither the pool nor the chain has. -/
def addNewTx (tx : Transaction) (keptByBlock : Bool) : NodeM Unit := do
  let node ← get
  let txHash := getTransactionHash E tx.toTransactionPrefix
  if node.pool.haveTx txHash || node.chain.db.transactions.has txHash then pure ()
  else do
    let _ ← addTx E tx (getTxMinimumFee node.chain.db.blocks.length) keptByBlock false

/-- Process a relayed transaction of a given size. -/
def handleIncomingTx (tx : Transaction) (blobSize : Nat) (keptByBlock : Bool) : NodeM Unit := do
  let node ← get
  Procedure.require (decide (blobSize ≤ currencyMaxTransactionBlobSize))
  Procedure.require (decide (blobSize < roomForTransaction node.chain.db))
  Procedure.require (checkTxSemantic E tx.toTransactionPrefix)
  addNewTx E tx keptByBlock

/-- What a node is asked to do. -/
inductive Event where
  | submitBlock (bl : Block)
  | incomingTx (tx : Transaction) (blobSize : Nat) (keptByBlock : Bool)
  | truncate (toHeight : Nat)
  | pruneAged
  | removeStuck
  | purgePool
  | queryDifficulty (pos : Bool)
  | queryTimestampsMedian (n : Nat)
  | queryFeeMedian
  | tick (coreTime : Nat)

/-- The state after an event; a failing event leaves the state it reached. -/
def step (event : Event) (node : Node) : Node :=
  match event with
  | .submitBlock bl => (addNewBlock E bl node).2
  | .incomingTx tx blobSize keptByBlock =>
    Procedure.final (handleIncomingTx E tx blobSize keptByBlock node)
  | .truncate toHeight => truncateBlockchain E toHeight node
  | .pruneAged => pruneAgedAltBlocks E node
  | .removeStuck => Procedure.final (removeStuckTransactions E node)
  | .purgePool => { node with pool := purgeTransactions node.pool }
  | .queryDifficulty pos => Procedure.final (onChain (getCachedNextDifficulty pos) node)
  | .queryTimestampsMedian n => Procedure.final (onChain (getLastNBlocksTimestampsMedian n) node)
  | .queryFeeMedian => Procedure.final (onChain getTxFeeMedian node)
  | .tick coreTime => { node with chain := { node.chain with coreTime } }

/-- The empty node, at some time. -/
def Node.fresh (coreTime : Nat) : Node := { chain := { coreTime } }

/-- A node that has connected a known genesis block without transactions. -/
def Node.Started (known : Block → Prop) (node : Node) : Prop :=
  ∃ genesis coreTime, known genesis ∧ genesis.txHashes = [] ∧
    (addNewBlock E genesis (Node.fresh coreTime)).1.2.addedToMainChain = true ∧
    node = (addNewBlock E genesis (Node.fresh coreTime)).2

/-- A node and the events it processes, from a known genesis block on. -/
def nodeSystem (known : Block → Prop) : System Event Node where
  start := Node.Started E known
  step := step E

/-- All blocks count as known. -/
def anyBlock : Block → Prop := fun _ => True

end Node
end Virie
