import Virie.Storage.AltChain

/-! # Submitting blocks

A submitted block goes to the tip or to the alternative chains; a heavier
alternative chain replaces the end of the main chain. Each submission runs in one
database transaction, which is committed or aborted as a whole; the caches and the
alternative chains held in memory stay as the run left them. -/

open Foundation

namespace Virie

section Switch

variable (E : Env)

/-! ## Switching to an alternative chain -/

/-- The heavier chain wins. Among equally heavy ones a proof-of-stake tip yields to a
greater proof. -/
def isReorganizeRequired (mainChainBei : BlockExtendedInfo) (altAdjusted : Nat) (proofAlt : Hash) :
    Bool :=
  if mainChainBei.cumulativeDiffAdjusted < altAdjusted then true
  else if mainChainBei.cumulativeDiffAdjusted > altAdjusted then false
  else isPosBlock mainChainBei.bl && decide (mainChainBei.stakeHash.val < proofAlt.val)

/-- Return a transaction of a connected block to the pool. -/
def returnConnectedTx (txId : Hash) : NodeM Unit := do
  let node ← get
  let entry ← Procedure.demand .refused (node.chain.db.transactions.get txId)
  Procedure.onlyIf (!entry.tx.isCoinbase) do
    let _ ← addTx E entry.tx 0 true true

/-- Return the transactions of the blocks from a height on to the pool, the newest block
first. Undoing the blocks themselves is left to the database transaction. -/
def rollbackBlockchainSwitching (rollbackHeight : Nat) : NodeM Unit := do
  let node ← get
  Procedure.forEach (fun bei => Procedure.forEach (returnConnectedTx E) bei.bl.txHashes)
    (node.chain.db.blocks.drop rollbackHeight).reverse

/-- Stop with a failure when the newest blocks are not linked up. -/
def requirePrevLinks : NodeM Unit := do
  let node ← get
  Procedure.require (node.chain.db.validateBlockchainPrevLinks E)

/-- Disconnect a number of top blocks and return them oldest first. -/
def disconnectBlocks : Nat → NodeM (List Block)
  | 0 => pure []
  | count + 1 => do
    let node ← get
    let bei ← Procedure.demand .thrown node.chain.db.blocks.getLast?
    popBlockFromBlockchain E true
    requirePrevLinks E
    let older ← disconnectBlocks count
    pure (older ++ [bei.bl])

/-- Connect the blocks of a branch; the answer is the part from the first failing one on. -/
def connectBranch : AltChain → NodeM AltChain
  | [] => pure []
  | (id, entry) :: rest => do
    let connected ← Procedure.attempt
      (handleBlockToMainChain E entry.bl (getBlockHash E entry.bl))
    if connected then connectBranch rest
    else pure ((id, entry) :: rest)

/-- Store disconnected blocks as alternative ones, up to the first failure. -/
def storeDisconnected : List Block → NodeM Bool
  | [] => pure true
  | oldChEnt :: rest => do
    let verdict ← handleAlternativeBlock E oldChEnt (getBlockHash E oldChEnt)
    if verdict.returned then storeDisconnected rest else pure false

/-- Forget the alternative entries of a branch that became main chain. -/
def eraseBranch (altChain : AltChain) : NodeM Unit :=
  Procedure.forEach (fun (id, entry) => modify (doEraseAltblock E id entry.bl)) altChain

/-- Record the blocks of a failing branch as invalid and forget them. -/
def invalidateBranch (altChain : AltChain) : NodeM Unit :=
  Procedure.forEach (fun (id, entry) => do
    onChain (modify (addBlockAsInvalid entry.toBlockExtendedInfo id))
    modify (doEraseAltblock E id entry.bl)) altChain

/-- How a switch ended, and whether it asks for the database transaction to be aborted. -/
structure SwitchResult where
  success : Bool
  hadRollback : Bool

/-- The end of a switch, given the blocks it disconnected and the part of the branch that failed
to connect. A disconnected block that cannot be stored leaves the answer a success. -/
def finishSwitch (altChain : AltChain) (splitHeight : Nat) (disconnectedChain : List Block)
    (failing : AltChain) : NodeM SwitchResult :=
  if failing.isEmpty then do
    let stored ← storeDisconnected E disconnectedChain
    if stored then do
      eraseBranch E altChain
      pure ⟨true, false⟩
    else do
      let _ ← Procedure.attempt (rollbackBlockchainSwitching E splitHeight)
      let linked ← Procedure.attempt (requirePrevLinks E)
      Procedure.onlyIf linked (eraseBranch E altChain)
      pure ⟨linked, true⟩
  else do
    let _ ← Procedure.attempt (rollbackBlockchainSwitching E splitHeight)
    invalidateBranch E failing
    pure ⟨false, true⟩

/-- Replace the end of the main chain by a branch. A failure before the branch is connected
is answered by `refused`. -/
def switchToAlternativeBlockchain (altChain : AltChain) : NodeM SwitchResult := do
  requirePrevLinks E
  let (_, first) ← Procedure.demand .refused altChain.head?
  let splitHeight := first.height
  let node ← get
  Procedure.require (decide (splitHeight ≤ node.chain.db.blocks.length))
  let disconnectedChain ← disconnectBlocks E (node.chain.db.blocks.length - splitHeight)
  let failing ← connectBranch E altChain
  finishSwitch E altChain splitHeight disconnectedChain failing

/-- Run the switch and read a refusal as a failure without rollback. -/
def runSwitch (altChain : AltChain) : NodeM SwitchResult := fun node =>
  match switchToAlternativeBlockchain E altChain node with
  | .error .refused after => .ok ⟨false, false⟩ after
  | result => result

/-! ## Submissions -/

/-- How a submission ends: whether its database transaction is committed, what is returned
and the verification flags. -/
structure Submission where
  committed : Bool
  returned : Bool
  bvc : BlockVerificationContext

def Chain.haveBlock (chain : Chain) (id : Hash) : Bool :=
  chain.db.blocksIndex.has id || chain.alternativeChains.has id || chain.invalidBlocks.has id

/-- Clear the taken transactions when the chain is linked up, and answer whether it is. -/
def finalizeLinked : NodeM Bool := do
  let node ← get
  if node.chain.db.validateBlockchainPrevLinks E then do
    onPool (modify onFinalizeDbTransaction)
    pure true
  else pure false

/-- Switch to a stored branch. Without a rollback the database transaction is committed,
whatever the switch answered. -/
def reorganize (altChain : AltChain) : NodeM Submission := do
  let result ← runSwitch E altChain
  let bvc : BlockVerificationContext :=
    ⟨result.success, !result.success, false, false, false⟩
  if result.hadRollback then pure ⟨false, result.success, bvc⟩
  else do
    let linked ← finalizeLinked E
    pure ⟨true, linked && result.success, bvc⟩

/-- Submit a block whose parent is not the tip. -/
def submitAlternative (bl : Block) (id : Hash) : NodeM Submission := do
  let verdict ← handleAlternativeBlock E bl id
  match verdict with
  | .failed => do
    let _ ← finalizeLinked E
    pure ⟨false, false, ⟨false, true, false, false, false⟩⟩
  | .orphaned linked => pure ⟨false, linked, ⟨false, false, true, false, false⟩⟩
  | .added altChain proof => do
    let node ← get
    let top ← Procedure.demand .thrown node.chain.db.blocks.getLast?
    let abei ← Procedure.demand .thrown (node.chain.alternativeChains.get id)
    if isReorganizeRequired top abei.cumulativeDiffAdjusted proof then reorganize E altChain
    else pure ⟨false, true, ⟨false, false, false, false, true⟩⟩

def onAbortTransaction (chain : Chain) : Chain := { chain with timestampsMedianCache := ∅ }

/-- Submit a block that continues the main chain. -/
def submitToTip (bl : Block) (id : Hash) : NodeM Submission := do
  let connected ← Procedure.attempt (handleBlockToMainChain E bl id)
  if connected then do
    let linked ← finalizeLinked E
    pure ⟨true, linked, ⟨true, false, false, false, false⟩⟩
  else do
    onPool (modify onFinalizeDbTransaction)
    onChain (modify onAbortTransaction)
    pure ⟨false, false, ⟨false, true, false, false, false⟩⟩

/-- Submit a block: nothing happens to a known one, the others go to the tip or to the
alternative chains. -/
def submitBlock (bl : Block) : NodeM Submission := do
  let node ← get
  let id := getBlockHash E bl
  if node.chain.haveBlock id then pure ⟨false, false, ⟨false, false, false, true, false⟩⟩
  else if bl.prevId ≠ node.chain.db.getTopBlockId E then submitAlternative E bl id
  else submitToTip E bl id

/-- Keep the database a submission reached and drop the cached difficulties. -/
def commitTransaction (node : Node) : Node :=
  { node with chain := { node.chain with diffCache := node.chain.diffCache.reset } }

/-- Restore the database that a submission started from. -/
def abortTransaction (db : Db) (node : Node) : Node :=
  { node with chain := { node.chain with db } }

/-- Process a submitted block in one database transaction; an exception aborts it. -/
def addNewBlock (bl : Block) (node : Node) : (Bool × BlockVerificationContext) × Node :=
  match submitBlock E bl node with
  | .ok submission after =>
    ((submission.returned, submission.bvc),
      if submission.committed then commitTransaction after
      else abortTransaction node.chain.db after)
  | .error _ after =>
    ((false, ⟨false, true, false, false, false⟩),
      abortTransaction node.chain.db
        { chain := onAbortTransaction after.chain, pool := onFinalizeDbTransaction after.pool })

/-! ## Truncation -/

/-- Disconnect a number of top blocks, dropping their transactions, until one refuses. -/
def popBlocks : Nat → NodeM Bool
  | 0 => pure true
  | count + 1 => do
    let popped ← Procedure.attempt (popBlockFromBlockchain E false)
    if popped then popBlocks count else pure false

/-- Shorten the main chain and forget the alternative chains. -/
def truncateBlockchain (toHeight : Nat) (node : Node) : Node :=
  match popBlocks E (node.chain.db.blocks.length - toHeight) node with
  | .ok _ after =>
    commitTransaction { after with
      chain := { after.chain with
        alternativeChains := ∅
        altblocksKeyimages := ∅
        alternativeChainsTxs := ∅ } }
  | .error _ after => abortTransaction node.chain.db after

end Switch
end Virie
