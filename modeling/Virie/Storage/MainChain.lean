import Virie.Pool

/-! # Connecting and disconnecting main-chain blocks

A block is checked against the tip, its transactions are taken from the pool and
connected one by one, and its reward and difficulties are recorded. A block that
fails on the way is purged again; a disconnected one returns its transactions to
the pool. -/

open Foundation

namespace Virie

section MainChain

variable (E : Env)

/-! ## Timestamps -/

/-- The timestamp rule against a window of ancestors; short windows accept any time. -/
def checkBlockTimestamp (chain : Chain) (timestamps : List Nat) (b : Block) : Bool :=
  if timestamps.length < blockchainTimestampCheckWindow then true
  else if isPosBlock b && decide (b.timestamp > chain.coreTime + currencyPosBlockFutureTimeLimit) then
    false
  else decide (b.timestamp ≥ median timestamps)

def checkBlockTimestampMain (chain : Chain) (b : Block) : Bool :=
  if b.timestamp > chain.coreTime + currencyBlockFutureTimeLimit then false
  else if isPosBlock b && decide (b.timestamp > chain.coreTime + currencyPosBlockFutureTimeLimit) then
    false
  else checkBlockTimestamp chain
    (chain.db.getLastNBlocksTimestamps blockchainTimestampCheckWindow) b

/-! ## Proof of stake -/

/-- Visit the ancestors of a branch newest first: its alternative blocks, then the main
chain from the split down to height one. -/
def Chain.enumBlockchain {σ : Type} (chain : Chain) (visit : σ → BlockExtendedInfo → σ × Bool)
    (start : σ) (altChain : AltChain) (splitHeight : Nat) : Outcome σ :=
  if chain.db.blocks.isEmpty then pure (foldUntil visit start altChain.newestFirst).1
  else
    let mainChainStart :=
      if splitHeight ≠ 0 then splitHeight
      else
        match altChain.head? with
        | some first => first.2.height
        | none => chain.db.blocks.length
    chain.db.scanBranch visit start altChain (mainChainStart - 1)

def Chain.getLastBlockOfType (chain : Chain) (lookingForPos : Bool) (altChain : AltChain)
    (splitHeight : Nat) : Outcome (Option BlockExtendedInfo) :=
  chain.enumBlockchain (fun _ bei =>
    if lookingForPos = isPosBlock bei.bl then (some bei, false) else (none, true))
    none altChain splitHeight

/-- The entropy of a stake kernel: the last proof-of-stake kernel and proof-of-work id. -/
def Chain.buildStakeModifier (chain : Chain) (altChain : AltChain) (splitHeight : Nat) :
    Outcome StakeModifier := do
  let lastPos ← chain.getLastBlockOfType true altChain splitHeight
  let lastPow ← chain.getLastBlockOfType false altChain splitHeight
  let lastPow ← Outcome.demand .thrown lastPow
  pure
    { lastPowId := getBlockHash E lastPow.bl
      lastPosKernelId := (lastPos.map BlockExtendedInfo.stakeHash).getD E.posStarterKernelHash }

/-- The stake input of a proof-of-stake coinbase. -/
def coinstakeInput (b : Block) : Option TxinToKey :=
  match b.minerTx.vin with
  | [_, .toKey input] => some input
  | _ => none

/-- The distance that is allowed between the claimed and the header time of a stake block. -/
def actualTimestampAllowed (b : Block) : Bool :=
  let actualTs := getActualTimestamp b
  decide (actualTs - b.timestamp ≤ posMacActualTimestampToMined) &&
    decide (b.timestamp - actualTs ≤ posMacActualTimestampToMined)

/-- Check a proof-of-stake block and return its kernel hash. The stake input itself is
checked here for the main chain only. -/
def validatePosBlock (chain : Chain) (b : Block) (basicDiff : Nat) (id : Hash) (forAltchain : Bool)
    (altChain : AltChain) (splitHeight : Nat) : Outcome Hash := do
  Outcome.require (isPosBlock b)
  Outcome.require (b.timestamp % posScanStep == 0)
  let inToKey ← Outcome.demand .refused (coinstakeInput b)
  Outcome.require (forAltchain || !chain.db.haveTxKeyimgAsSpent inToKey.kImage)
  Outcome.require (actualTimestampAllowed b)
  let sm ← chain.buildStakeModifier E altChain splitHeight
  Outcome.require (!inToKey.keyOffsets.isEmpty)
  Outcome.require (inToKey.amount != 0)
  let proofHash := E.stakeKernelHash ⟨sm, b.timestamp, inToKey.kImage⟩
  Outcome.require (checkHash proofHash (basicDiff / inToKey.amount))
  Outcome.require (b.minerTx.signatures.length == 1)
  let maxRelatedBlockHeight ←
    if forAltchain then pure 0
    else
      match checkTxInputToKey E chain b.minerTx 1 inToKey id (b.minerTx.signatures.getD 0 []) 0 with
      | .ok _ maxRelatedBlockHeight => pure maxRelatedBlockHeight
      | .error reason _ => throw reason
  let blockHeight :=
    if forAltchain then splitHeight + altChain.length else chain.db.blocks.length
  Outcome.require (decide (blockHeight - maxRelatedBlockHeight - 1 ≥ E.minCoinstakeAge))
  pure proofHash

/-! ## The coinbase -/

/-- The form of a coinbase at a height, before its amounts are known to be right. -/
def prevalidateMinerTransaction (b : Block) (height : Nat) (pos : Bool) : Bool :=
  (if pos then b.minerTx.isPosCoinbase else b.minerTx.isPowCoinbase) &&
    b.minerTx.getBlockHeight == height &&
    b.minerTx.getTxUnlockTime == height + currencyMinedMoneyUnlockWindow &&
    b.minerTx.checkOutsOverflow && b.minerTx.attachment.isEmpty

/-- The reward of a block whose coinbase pays out exactly reward, stake and fees. -/
def validateMinerTransaction (db : Db) (b : Block) (cumulativeBlockSize fee : Nat) : Option Nat :=
  let moneyInUse := b.minerTx.getOutsMoneyAmount
  let posIncome := if isPosBlock b then (coinstakeInput b).map TxinToKey.amount else some 0
  let blocksSizeMedian := median (db.getLastNBlocksSizes currencyRewardBlocksWindow)
  match posIncome, getBlockReward (isPosBlock b) blocksSizeMedian cumulativeBlockSize
      (getBlockHeight b) with
  | some posIncome, some baseReward =>
    if addU64 (addU64 baseReward posIncome) fee = moneyInUse then some baseReward else none
  | _, _ => none

/-! ## Disconnecting -/

def addBlockAsInvalid (bei : BlockExtendedInfo) (h : Hash) (chain : Chain) : Chain :=
  if chain.invalidBlocks.has h then chain
  else { chain with invalidBlocks := chain.invalidBlocks.set h bei }

/-- An entry that records nothing but its block. -/
def bareBlockInfo (bl : Block) : BlockExtendedInfo :=
  { bl
    height := 0
    blockCumulativeSize := 0
    cumulativeDiffAdjusted := 0
    cumulativeDiffPrecise := 0
    difficulty := 0
    alreadyGeneratedCoins := 0
    stakeHash := nullHash
    thisBlockTxFeeMedian := 0
    effectiveTxFeeMedian := 0 }

/-- Disconnect a transaction and return it to the pool. Its outputs and its entry go even
when the output index turns out to be inconsistent. -/
def purgeTransactionFromBlockchain (txId : Hash) (addToPool : Bool) : NodeM Unit := do
  let node ← get
  let entry ← Procedure.demand .refused (node.chain.db.transactions.get txId)
  let tx := entry.tx
  onChain (onDb (purgeTransactionKeyimagesFromBlockchain true tx.vin))
  onChain (onDb (unprocessBlockchainTxExtra tx.toTransactionPrefix))
  onChain (modify fun chain =>
    unprocessBlockchainTxAttachments tx chain.db.getCurrentBlockchainSize 0 chain)
  Procedure.onlyIf (addToPool && !tx.isCoinbase) do
    let _ ← addTx E tx 0 true true
  let res ← Procedure.attempt
    (onChain (onDb (popTransactionFromGlobalIndex E tx.toTransactionPrefix txId)))
  onChain (onDb (modify fun db => { db with transactions := db.transactions.erase txId }))
  Procedure.require res

/-- Disconnect transactions in the given order, all of them even when some fail. -/
def purgeTransactionsFromBlockchain (addToPool : Bool) : List Hash → NodeM Bool
  | [] => pure true
  | txId :: rest => do
    let purged ← Procedure.attempt (purgeTransactionFromBlockchain E txId addToPool)
    let others ← purgeTransactionsFromBlockchain addToPool rest
    pure (purged && others)

/-- Disconnect the first transactions of a block, newest first, and then its coinbase. -/
def purgeBlockDataFromBlockchain (bl : Block) (processedTxCount : Nat) (addTxsToPool : Bool) :
    NodeM Unit := do
  Procedure.require (decide (processedTxCount ≤ bl.txHashes.length))
  let res ← purgeTransactionsFromBlockchain E addTxsToPool
    (bl.txHashes.take processedTxCount).reverse
  let miner ← Procedure.attempt (purgeTransactionFromBlockchain E
    (getTransactionHash E bl.minerTx.toTransactionPrefix) true)
  Procedure.require (res && miner)

/-- Forget the medians that depend on the chain. -/
def onBlockRemoved (chain : Chain) : Chain := { chain with timestampsMedianCache := ∅ }

/-- Remove the entries of the top block from the index, the increments and the list. -/
def dropTopBlock (bei : BlockExtendedInfo) (db : Db) : Db :=
  let db := popBlockFromPerBlockIncrements bei.height db
  { db with
    blocksIndex := db.blocksIndex.erase (getBlockHash E bei.bl)
    blocks := db.blocks.dropLast }

/-- Disconnect the top block. The genesis block stays. -/
def popBlockFromBlockchain (addTxsToPool : Bool) : NodeM Unit := do
  let node ← get
  Procedure.require (decide (node.chain.db.blocks.length > 1))
  let bei ← Procedure.demand .thrown node.chain.db.blocks.getLast?
  purgeBlockDataFromBlockchain E bei.bl bei.bl.txHashes.length addTxsToPool
  onChain (onDb (modify (dropTopBlock E bei)))
  onChain (modify onBlockRemoved)

/-! ## Connecting -/

/-- The proof of a block: its kernel hash or its proof-of-work hash. -/
def blockProof (chain : Chain) (bl : Block) (id : Hash) (currentDiff : Nat) : Outcome Hash :=
  if isPosBlock bl then validatePosBlock E chain bl currentDiff id false [] 0
  else do
    let proof := getBlockLonghash E bl
    Outcome.require (checkHash proof currentDiff)
    pure proof

/-- The checks of a block before its transactions: its place, time, checkpoint, difficulty,
proof and coinbase. The answer is the difficulty and the proof. -/
def checkBlockHeader (bl : Block) (id : Hash) : ChainM (Nat × Hash) := do
  let chain ← get
  Procedure.require (bl.prevId == chain.db.getTopBlockId E)
  Procedure.require (checkBlockTimestampMain chain bl)
  let height := chain.db.getCurrentBlockchainSize
  set { chain with isInCheckpointZone := isInCheckpointZone E height }
  Procedure.require (!isInCheckpointZone E height || checkBlock E height id)
  let isPos := isPosBlock bl
  Procedure.require (!(isPos && decide (height < E.posMinimumHeigh)))
  let currentDiff ← getNextDiffConditional isPos
  Procedure.require (currentDiff != 0)
  let proof ← Procedure.reading fun chain => blockProof E chain bl id currentDiff
  Procedure.require (prevalidateMinerTransaction bl height isPos)
  pure (currentDiff, proof)

/-- What the transactions of a block add up to. -/
structure BlockTotals where
  gindices : Container Nat Nat
  txProcessedCount : Nat
  feeSummary : Nat
  cumulativeBlockSize : Nat
  blockFees : List Nat

/-- Count one more connected transaction. -/
def BlockTotals.addTransaction (totals : BlockTotals) (txe : TxDetails) : BlockTotals where
  gindices := appendPerBlockIncrementsForTx txe.tx.toTransactionPrefix totals.gindices
  txProcessedCount := totals.txProcessedCount + 1
  feeSummary := addU64 totals.feeSummary txe.fee
  cumulativeBlockSize := totals.cumulativeBlockSize + txe.blobSize
  blockFees := if txe.fee = 0 then totals.blockFees else totals.blockFees ++ [txe.fee]

/-- Undo the processed part of a block and refuse it. -/
def rejectBlock {α : Type} (bl : Block) (txProcessedCount : Nat) : NodeM α := do
  let _ ← Procedure.attempt (purgeBlockDataFromBlockchain E bl txProcessedCount true)
  throw .refused

/-- Give a transaction of a failing block back to the pool, on its black list. -/
def returnTxToPool (tx : Transaction) (height : Nat) : NodeM Unit := do
  let _ ← Procedure.attempt (addTx E tx (getTxMinimumFee height) true true)
  onPool (modify (addTransactionToBlackList E tx))

/-- Within the checkpoint zone signatures and attachments are dropped. -/
def pruneInZone (chain : Chain) (tx : Transaction) : Transaction :=
  if chain.isInCheckpointZone then { tx with signatures := [], attachment := [] } else tx

/-- Take one transaction of a block from the pool, check it and connect it. -/
def connectTransaction (bl : Block) (id : Hash) (height : Nat) (totals : BlockTotals)
    (txId : Hash) : NodeM BlockTotals := do
  let node ← get
  if !node.pool.transactions.has txId then rejectBlock E bl totals.txProcessedCount
  else do
    let txe ← onPool (takeTx E txId)
    let node ← get
    let tx := pruneInZone node.chain txe.tx
    match txInputsValid E node.chain tx txId with
    | .error .thrown => throw .thrown
    | .error .refused => do
      returnTxToPool E tx height
      let _ ← Procedure.attempt (purgeBlockDataFromBlockchain E bl totals.txProcessedCount true)
      onChain (modify (addBlockAsInvalid (bareBlockInfo bl) id))
      throw .refused
    | .ok _ => do
      let added ← Procedure.attempt (onChain (addTransactionFromBlock E tx txId id
        node.chain.db.getCurrentBlockchainSize (getActualTimestamp bl)))
      if !added then do
        returnTxToPool E tx height
        rejectBlock E bl totals.txProcessedCount
      else
        pure (totals.addTransaction txe)

def connectTransactions (bl : Block) (id : Hash) (height : Nat) :
    BlockTotals → List Hash → NodeM BlockTotals
  | totals, [] => pure totals
  | totals, txId :: rest => do
    let next ← connectTransaction E bl id height totals txId
    connectTransactions bl id height next rest

/-- A coinbase counts towards the block size only when it outgrows its reservation. -/
def coinbaseSizeContribution (bl : Block) : Nat :=
  let coinbaseBlobSize := getObjectBlobsize E bl.minerTx.toTransactionPrefix
  if coinbaseBlobSize > currencyCoinbaseBlobReservedSize then coinbaseBlobSize else 0

/-- The fee median of the past week, at the first block of each day. -/
def recalculatedFeeMedian (db : Db) (height : Nat) : Nat :=
  median (((db.blocks.drop (max 1 (height - aliasCostPeriod))).reverse.map
    BlockExtendedInfo.thisBlockTxFeeMedian).filter (· ≠ 0))

def effectiveFeeMedian (height : Nat) : ChainM Nat := do
  if height % aliasMedianRecalcInterwal ≠ 0 then getTxFeeMedian
  else do
    let chain ← get
    pure (if height = 0 then 0 else recalculatedFeeMedian chain.db height)

/-- The difficulties a new top block records: precise and adjusted, both cumulative. -/
def cumulativeDifficulties (db : Db) (isPos : Bool) (currentDiff : Nat) : Outcome (Nat × Nat) := do
  let sequenceFactor ← db.getCurrentSequenceFactor isPos
  let lastXH := db.getLastXBlockHeight isPos
  let precise ←
    if lastXH = 0 then pure currentDiff
    else do
      let bei ← db.blockAt lastXH
      pure ((bei.cumulativeDiffPrecise + currentDiff) % 2 ^ 128)
  let previous := (db.blocks.getLast?.map BlockExtendedInfo.cumulativeDiffAdjusted).getD 0
  let delta ←
    if isPos then db.getAdjustedCumulativeDifficultyForNextPos currentDiff else pure currentDiff
  let delta :=
    if db.blocks.length ≥ E.posMinimumHeigh then
      correctDifficultyWithSequenceFactor sequenceFactor delta
    else delta
  pure (precise, (previous + delta) % 2 ^ 128)

/-- The entry of a new top block. -/
def blockInfo (db : Db) (bl : Block) (totals : BlockTotals)
    (currentDiff precise adjusted : Nat) (proof : Hash) (baseReward effectiveTxFeeMedian : Nat) :
    BlockExtendedInfo where
  bl
  height := db.blocks.length
  blockCumulativeSize := totals.cumulativeBlockSize
  cumulativeDiffAdjusted := adjusted
  cumulativeDiffPrecise := precise
  difficulty := currentDiff
  alreadyGeneratedCoins := addU64
    ((db.blocks.getLast?.map BlockExtendedInfo.alreadyGeneratedCoins).getD 0) baseReward
  stakeHash := if isPosBlock bl then proof else nullHash
  thisBlockTxFeeMedian := median totals.blockFees
  effectiveTxFeeMedian

def onBlockAdded (chain : Chain) : Chain :=
  { chain with
    db := chain.db.updateNextComulativeSizeLimit
    timestampsMedianCache := ∅ }

/-- Append a block to the list, the index and the increments. -/
def pushBlock (bei : BlockExtendedInfo) (id : Hash) (gindices : Container Nat Nat) (db : Db) : Db :=
  let db := { db with blocksIndex := db.blocksIndex.set id bei.height }
  let db := pushBlockToPerBlockIncrements bei.height gindices db
  { db with blocks := db.blocks ++ [bei] }

/-- Check the totals of a block whose transactions are connected and append it. -/
def finishBlock (bl : Block) (id : Hash) (aliasesCountBeforeBlock currentDiff : Nat) (proof : Hash)
    (totals : BlockTotals) : NodeM Unit := do
  let node ← get
  let db := node.chain.db
  if db.aliases.size - aliasesCountBeforeBlock > maxAliasPerBlock then
    rejectBlock E bl totals.txProcessedCount
  else
    match validateMinerTransaction db bl totals.cumulativeBlockSize totals.feeSummary with
    | none => rejectBlock E bl totals.txProcessedCount
    | some baseReward => do
      let (precise, adjusted) ← Procedure.reading fun node =>
        cumulativeDifficulties E node.chain.db (isPosBlock bl) currentDiff
      if db.blocksIndex.has id then rejectBlock E bl totals.txProcessedCount
      else do
        let effectiveTxFeeMedian ← onChain (effectiveFeeMedian db.blocks.length)
        let bei := blockInfo db bl totals currentDiff precise adjusted proof baseReward
          effectiveTxFeeMedian
        onChain (onDb (modify (pushBlock bei id totals.gindices)))
        onChain (modify onBlockAdded)

/-- Connect a block whose header was checked, with the difficulty and the proof it has. -/
def connectCheckedBlock (bl : Block) (id : Hash) (currentDiff : Nat) (proof : Hash) :
    NodeM Unit := do
  let node ← get
  let height := node.chain.db.getCurrentBlockchainSize
  let minerId := getTransactionHash E bl.minerTx.toTransactionPrefix
  onChain (addTransactionFromBlock E bl.minerTx minerId id height (getActualTimestamp bl))
  let totals ← connectTransactions E bl id height
    { gindices := appendPerBlockIncrementsForTx bl.minerTx.toTransactionPrefix ∅
      txProcessedCount := 0
      feeSummary := 0
      cumulativeBlockSize := coinbaseSizeContribution E bl
      blockFees := [] } bl.txHashes
  finishBlock E bl id node.chain.db.aliases.size currentDiff proof totals

/-- Connect a block to the tip of the main chain. -/
def handleBlockToMainChain (bl : Block) (id : Hash) : NodeM Unit := do
  let (currentDiff, proof) ← onChain (checkBlockHeader E bl id)
  connectCheckedBlock E bl id currentDiff proof

end MainChain
end Virie
