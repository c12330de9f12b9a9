import Virie.Storage.MainChain

/-! # Alternative blocks

A block whose parent is not the tip is checked against its own branch: the
alternative ancestors held in memory and the main chain below the split. The
branch gives out global output indexes of its own. An accepted block is stored
with the difficulties the main chain would record for it. -/

open Foundation

namespace Virie

section AltChain

variable (E : Env)

/-! ## Books kept about alternative blocks -/

def appendAltblockKeyimagesToBigHeap (blockId : Hash) (keyimages : List KeyImage)
    (heap : Container KeyImage (List Hash)) : Container KeyImage (List Hash) :=
  keyimages.foldl (fun heap ki => heap.modify ki [] (· ++ [blockId])) heap

/-- Drop one record of a key image; a missing one is only reported. -/
def purgeKeyimageFromBigHeap (ki : KeyImage) (id : Hash) (heap : Container KeyImage (List Hash)) :
    Container KeyImage (List Hash) :=
  match heap.get ki with
  | none => heap
  | some blockIds =>
    if (blockIds.erase id).isEmpty then heap.erase ki else heap.set ki (blockIds.erase id)

/-- A transaction of a branch, from the pool or from main-chain blocks at or above a height. -/
def Node.getTransactionFromPoolOrDb (node : Node) (txId : Hash) (minAllowedBlockHeight : Nat) :
    Option Transaction :=
  match node.pool.transactions.get txId with
  | some details => some details.tx
  | none =>
    (node.chain.db.transactions.get txId).bind fun entry =>
      if entry.keeperBlockHeight ≥ minAllowedBlockHeight then some entry.tx else none

/-- The key images a stored alternative block spends, as far as its transactions are found. -/
def Node.altBlockKeyimages (node : Node) (b : Block) : List KeyImage :=
  (if isPosBlock b then ((coinstakeInput b).map TxinToKey.kImage).toList else []) ++
    b.txHashes.flatMap fun txId =>
      match node.getTransactionFromPoolOrDb txId 0 with
      | some tx => tx.keyImages
      | none => []

def addAltBlockTxsHashs (b : Block) (counts : Container Hash Nat) : Container Hash Nat :=
  b.txHashes.foldl (fun counts h => counts.modify h 0 (· + 1)) counts

def purgeAltBlockTxsHashs (b : Block) (counts : Container Hash Nat) : Container Hash Nat :=
  b.txHashes.foldl (fun counts h =>
    match counts.get h with
    | none => counts
    | some count => if count - 1 = 0 then counts.erase h else counts.set h (count - 1)) counts

/-- Remove a stored alternative block and what was recorded with it. -/
def doEraseAltblock (id : Hash) (bl : Block) (node : Node) : Node :=
  { node with
    chain := { node.chain with
      altblocksKeyimages := (node.altBlockKeyimages bl).foldl
        (fun heap ki => purgeKeyimageFromBigHeap ki (getBlockHash E bl) heap)
        node.chain.altblocksKeyimages
      alternativeChainsTxs := purgeAltBlockTxsHashs bl node.chain.alternativeChainsTxs
      alternativeChains := node.chain.alternativeChains.erase id } }

/-- Remove the alternative blocks that lie too far below the tip. -/
def pruneAgedAltBlocks (node : Node) : Node :=
  node.chain.alternativeChains.toList.foldl (fun node (id, entry) =>
    if node.chain.db.blocks.length - entry.height > currencyAltBlockLivetimeCount then
      doEraseAltblock E id entry.bl node
    else node) node

/-! ## The branch below a block -/

/-- The stored ancestors of a block, oldest first. The number of stored blocks bounds the
walk. -/
def altAncestors (stored : Container Hash AltBlockExtendedInfo) : Nat → Hash → AltChain
  | 0, _ => []
  | fuel + 1, id =>
    match stored.get id with
    | none => []
    | some entry => altAncestors stored fuel entry.bl.prevId ++ [(id, entry)]

/-- Collect the alternative ancestors of a block and check that they leave the main chain. -/
def Chain.buildAltSubchain (chain : Chain) (b : Block) : Outcome AltChain := do
  let altChain := altAncestors chain.alternativeChains chain.alternativeChains.size b.prevId
  match altChain.head? with
  | none => pure []
  | some (_, first) => do
    Outcome.require (decide (first.height ≤ chain.db.blocks.length))
    let parent ← chain.db.blockAt (first.height - 1)
    Outcome.require (getBlockHash E parent.bl == first.bl.prevId)
    pure altChain

def Db.checkedGetHeightById (db : Db) (blId : Hash) : Option Nat :=
  (db.blocksIndex.get blId).filter fun h => decide (h < db.blocks.length)

/-- Where a new alternative block stands: its branch, its height, the height at which the
branch leaves the main chain and the adjusted cumulative difficulty of its parent. -/
structure AltPosition where
  altChain : AltChain
  height : Nat
  connectionHeight : Nat
  parentAdjusted : Nat

/-- The position of a block above its branch, or above a main-chain block when the branch is
empty. -/
def Chain.altPosition (chain : Chain) (altChain : AltChain) (heightMainPrev : Nat) :
    Outcome AltPosition :=
  match altChain.head?, altChain.getLast? with
  | some (_, first), some (_, last) =>
    pure ⟨altChain, last.height + 1, first.height, last.cumulativeDiffAdjusted⟩
  | _, _ => do
    let parent ← chain.db.blockAt heightMainPrev
    pure ⟨[], heightMainPrev + 1, heightMainPrev + 1, parent.cumulativeDiffAdjusted⟩

/-- The timestamps before an alternative block; main-chain timestamps are appended oldest
first. -/
def Chain.altTimestamps (chain : Chain) (altChain : AltChain) (connectionHeight : Nat) :
    Outcome (List Nat) :=
  chain.db.completeTimestampsVector (connectionHeight - 1)
    ((altChain.newestFirst.take blockchainTimestampCheckWindow).map fun bei => bei.bl.timestamp)
    blockchainTimestampCheckWindow

/-! ## Difficulty on a branch -/

section Difficulty

variable (chain : Chain)

/-- Collect a block of the wanted type; the genesis block ends the scan. -/
def DiffWindow.visitAboveGenesis (pos : Bool) (window : DiffWindow) (bei : BlockExtendedInfo) :
    DiffWindow × Bool :=
  if bei.height = 0 then (window, false) else window.visit pos bei

/-- The difficulty of the next block of a type on a branch. -/
def Chain.getNextDiffConditional2 (pos : Bool) (altChain : AltChain) (splitHeight : Nat) :
    Outcome Nat := do
  if chain.db.blocks.isEmpty then pure difficultyStarter
  else
    let window ← chain.enumBlockchain (DiffWindow.visitAboveGenesis pos) {} altChain splitHeight
    window.nextDifficulty pos

def Chain.getCurrentSequenceFactorForAlt (altChain : AltChain) (pos : Bool)
    (connectionHeight : Nat) : Outcome Nat :=
  chain.db.scanBranch (sequenceVisit pos) 0 altChain (connectionHeight - 1)

def Chain.getAdjustedCumulativeDifficultyForNextAltPos (altChain : AltChain)
    (nextDiff connectionHeight : Nat) : Outcome Nat := do
  let last ← chain.db.scanBranch LastDiffs.visit {} altChain (connectionHeight - 1)
  chain.db.scaleByLastDiffs last nextDiff

/-- The precise cumulative difficulty of the last block of a type on a branch; an
inconsistent branch counts as having none. -/
def Chain.getLastAltXBlockCumulativePreciseDifficulty (altChain : AltChain) (blockHeight : Nat)
    (pos : Bool) : Outcome Nat :=
  match lastCumulativePrecise pos altChain.newestFirst with
  | some precise => pure precise
  | none =>
    let mainChainFirstBlock :=
      (match altChain.head? with
        | some first => first.2.height
        | none => blockHeight) - 1
    if mainChainFirstBlock < chain.db.blocks.length then do
      let blocks ← chain.db.blocksDownFrom mainChainFirstBlock
      pure ((lastCumulativePrecise pos blocks).getD 0)
    else pure 0

end Difficulty

/-! ## Global output indexes of a branch -/

/-- The number of outputs of each amount below a height, for the amounts that the main chain
indexed from that height on. -/
def Db.calculateLocalGindexLookupTableForHeight (db : Db) (height : Nat) :
    Outcome (Container Nat Nat) := do
  if db.perBlockGindexIncs.size ≠ db.blocks.length then throw .thrown
  else do
    let increments ← (List.range' height (db.blocks.length - height)).foldlM (fun increments h => do
      let incs ← Outcome.demand .thrown (db.perBlockGindexIncs.get h)
      pure (incs.foldl (fun increments el => increments.modify el.amount 0 (· + el.increment))
        increments)) (∅ : Container Nat Nat)
    increments.toList.foldlM (fun gindexes (amount, increment) =>
      if db.outputs.getItemSize amount ≥ increment then
        pure (gindexes.set amount (db.outputs.getItemSize amount - increment))
      else throw .thrown) ∅

/-- The indexes after a block of the branch: each amount starts past the block's outputs. -/
def AltBlockExtendedInfo.nextGindexes (parent : AltBlockExtendedInfo) :
    Outcome (Container Nat Nat) :=
  parent.outputsPubKeys.toList.foldlM (fun gindexes (amount, keys) => do
    let start ← Outcome.demand .refused (gindexes.get amount)
    pure (gindexes.set amount (start + keys.length))) parent.gindexLookupTable

/-- The indexes an alternative block starts from. -/
def Db.initialGindexes (db : Db) (altChain : AltChain) (splitHeight : Nat) :
    Outcome (Container Nat Nat) :=
  match altChain.getLast? with
  | some (_, parent) => parent.nextGindexes
  | none => db.calculateLocalGindexLookupTableForHeight splitHeight

/-- Record an output of an alternative block. An amount that the branch has not touched
starts from the current main-chain index. -/
def updateAltOutIndex (db : Db) (abei : AltBlockExtendedInfo) (o : TxOut) : AltBlockExtendedInfo :=
  match o.target with
  | .toKey target =>
    { abei with
      gindexLookupTable :=
        if abei.gindexLookupTable.has o.amount then abei.gindexLookupTable
        else abei.gindexLookupTable.set o.amount (db.outputs.getItemSize o.amount)
      outputsPubKeys := abei.outputsPubKeys.modify o.amount [] (· ++ [target.key]) }
  | .multisig _ => abei

def updateAltOutIndexesForTxInBlock (db : Db) (tx : TransactionPrefix)
    (abei : AltBlockExtendedInfo) : AltBlockExtendedInfo :=
  tx.vout.foldl (updateAltOutIndex db) abei

/-! ## Key inputs on a branch -/

section Inputs

variable (chain : Chain) (splitHeight : Nat) (altChain : AltChain)

/-- The number of outputs of an amount that an input may refer to, and whether the branch has
touched the amount. The parent's table counts the outputs before the parent block. -/
def globalOutsForAmount (amount : Nat) : Nat × Bool :=
  match altChain.getLast?.bind fun parent => parent.2.gindexLookupTable.get amount with
  | some start => (start, true)
  | none => (chain.db.outputs.getItemSize amount, false)

/-- Look a global index up in the blocks of the branch, newest first. -/
def findAltKey (amount offsetGindex : Nat) : List AltBlockExtendedInfo → Outcome (Option PublicKey)
  | [] => pure none
  | entry :: older =>
    match entry.gindexLookupTable.get amount with
    | none => pure none
    | some start =>
      if offsetGindex ≥ start then do
        let key ← Outcome.demand .refused
          ((entry.outputsPubKeys.get amount).getD [])[offsetGindex - start]?
        pure (some key)
      else findAltKey amount offsetGindex older

/-- What a ring member of a branch input refers to. -/
inductive AltReference where
  | branchKey (key : PublicKey)
  | mainOutput (txId : Hash) (n : Nat)

def resolveAltReference (amount : Nat) : TxoutRef → Outcome AltReference
  | .byId ref => pure (.mainOutput ref.txId ref.n)
  | .index offsetGindex => do
    let (globalOuts, amountTouchedAltchain) := globalOutsForAmount chain altChain amount
    Outcome.require (decide (offsetGindex < globalOuts))
    let found ←
      if amountTouchedAltchain then
        findAltKey amount offsetGindex (altChain.reverse.map Prod.snd)
      else pure none
    match found with
    | some key => pure (.branchKey key)
    | none => do
      let out ← Outcome.demand .refused (chain.db.outputs.getSubitem amount offsetGindex)
      pure (.mainOutput out.txId out.outNo)

/-- The key of a main-chain output below the split. -/
def scanMainOutput (offsetsCount : Nat) (txId : Hash) (n : Nat) : CheckM PublicKey := do
  let entry ← Procedure.demand .refused (chain.db.transactions.get txId)
  let out ← Procedure.demand .refused entry.tx.vout[n]?
  match out.target with
  | .multisig _ => throw .refused
  | .toKey outTk =>
    Procedure.require (isMixattrApplicableForFakeOutsCounter outTk.mixAttr (offsetsCount - 1))
    Procedure.require (decide (entry.keeperBlockHeight < splitHeight))
    modify fun maxRelatedBlockHeight => max maxRelatedBlockHeight entry.keeperBlockHeight
    pure outTk.key

/-- Collect the keys of the ring members. A key found in the branch ends the walk. -/
def collectAltKeys (amount offsetsCount : Nat) : List TxoutRef → CheckM (List PublicKey)
  | [] => pure []
  | off :: rest => do
    let reference ← Procedure.reading fun _ => resolveAltReference chain altChain amount off
    match reference with
    | .branchKey key => pure [key]
    | .mainOutput txId n => do
      let key ← scanMainOutput chain splitHeight offsetsCount txId n
      let keys ← collectAltKeys amount offsetsCount rest
      pure (key :: keys)

/-- The public keys that a key input on a branch hands to the signature check. -/
def altInputKeys (input : TxinToKey) : CheckM (List PublicKey) := do
  set 0
  let absKeyOffsets ← Procedure.reading fun _ => relativeOutputOffsetsToAbsolute input.keyOffsets
  Procedure.require (!absKeyOffsets.isEmpty)
  collectAltKeys chain splitHeight altChain input.amount absKeyOffsets.length absKeyOffsets

/-- The ids of a new block and of its branch. -/
def altChainBlockIds (id : Hash) : List Hash :=
  id :: altChain.map fun entry => getBlockHash E entry.2.bl

/-- A key image is unspent on a branch: not below the split, in no block of the branch and
not earlier in the new block. -/
def keyimageUnspentOnBranch (id : Hash) (collected : KeySet KeyImage) (ki : KeyImage) : Bool :=
  (match chain.db.spentKeys.get ki with
    | some height => decide (splitHeight ≤ height)
    | none => true) &&
    !collected.contains ki &&
    !((chain.altblocksKeyimages.get ki).getD []).any fun h =>
      decide (h ∈ altChainBlockIds E altChain id)

/-- Check a key input of an alternative block and add its key image to the collected ones. -/
def validateAltBlockInput (id : Hash) (inputTx : Transaction) (collected : KeySet KeyImage)
    (inputTxHash : Hash) (inputIndex : Nat) (input : TxinToKey) (inputSigs : List Signature) :
    CheckM (KeySet KeyImage) := do
  Procedure.require (keyimageUnspentOnBranch E chain splitHeight altChain id collected input.kImage)
  let pubKeys ← altInputKeys chain splitHeight altChain input
  Procedure.require (checkTokeyInput E chain inputTx inputIndex input inputTxHash inputSigs pubKeys)
  pure (collected.insert input.kImage)

end Inputs

/-! ## Multisig inputs on a branch -/

section Multisig

variable (node : Node) (inputTx : Transaction) (inputTxHash : Hash) (inputIndex : Nat)
  (input : TxinMultisig)

/-- Compare a multisig input with a transaction of the branch: a second spend is refused, the
source is checked. The answer is whether the transaction is the source. -/
def txAltchainChecker (tx : Transaction) : Outcome Bool := do
  Outcome.require (!tx.multisigInputIds.contains input.multisigOutId)
  match (List.range tx.vout.length).find? (fun outN =>
      (match tx.vout[outN]? with
        | some ⟨_, .multisig _⟩ => true
        | _ => false) &&
        getMultisigOutId E tx.toTransactionPrefix outN == input.multisigOutId) with
  | none => pure false
  | some outN => do
    Outcome.require
      (checkMsInput E node.chain inputTx inputIndex input inputTxHash tx outN)
    pure true

def findMsOutputInTxs (splitHeight : Nat) : List Hash → Outcome Bool
  | [] => pure false
  | txId :: rest => do
    let tx ← Outcome.demand .refused (node.getTransactionFromPoolOrDb txId splitHeight)
    if ← txAltchainChecker E node inputTx inputTxHash inputIndex input tx then pure true
    else findMsOutputInTxs splitHeight rest

/-- Walk the branch from its newest block down to the source of a multisig input. -/
def findMsOutputInBranch (splitHeight : Nat) : List BlockExtendedInfo → Outcome Unit
  | [] => throw .refused
  | bei :: older => do
    if ← txAltchainChecker E node inputTx inputTxHash inputIndex input bei.bl.minerTx then pure ()
    else if ← findMsOutputInTxs E node inputTx inputTxHash inputIndex input splitHeight
        bei.bl.txHashes then pure ()
    else findMsOutputInBranch splitHeight older

/-- Check a multisig input of an alternative block, against the main chain when its source
lies below the split. -/
def validateAltBlockMsInput (splitHeight : Nat) (altChain : AltChain) : Outcome Unit :=
  let onBranch := findMsOutputInBranch E node inputTx inputTxHash inputIndex input splitHeight
    altChain.newestFirst
  match node.chain.db.multisigOuts.get input.multisigOutId with
  | none => onBranch
  | some ms => do
    Outcome.require (ms.spentHeight == 0 || decide (ms.spentHeight ≥ splitHeight))
    let sourceTx ← Outcome.demand .refused (node.chain.db.transactions.get ms.txId)
    if sourceTx.keeperBlockHeight < splitHeight then
      Outcome.require
        (checkMsInput E node.chain inputTx inputIndex input inputTxHash sourceTx.tx ms.outNo)
    else onBranch

end Multisig

/-! ## The transactions of an alternative block -/

section Transactions

variable (node : Node) (splitHeight : Nat) (altChain : AltChain) (id : Hash)

/-- Check the inputs of a transaction from number `n` on. -/
def validateAltTxInputsFrom (tx : Transaction) (txId : Hash) (n : Nat)
    (collected : KeySet KeyImage) : List Txin → Outcome (KeySet KeyImage)
  | [] => pure collected
  | .gen _ :: _ => throw .refused
  | .toKey input :: rest =>
    match validateAltBlockInput E node.chain splitHeight altChain id tx collected txId n input
        (tx.signatures.getD n []) 0 with
    | .error reason _ => throw reason
    | .ok collected _ => validateAltTxInputsFrom tx txId (n + 1) collected rest
  | .multisig input :: rest => do
    validateAltBlockMsInput E node tx txId n input splitHeight altChain
    validateAltTxInputsFrom tx txId (n + 1) collected rest

def validateAltTx (collected : KeySet KeyImage) (txId : Hash) :
    Outcome (KeySet KeyImage × Transaction) := do
  let tx ← Outcome.demand .refused (node.getTransactionFromPoolOrDb txId splitHeight)
  Outcome.require (tx.signatures.length == tx.vin.length)
  let collected ← validateAltTxInputsFrom E node splitHeight altChain id tx txId 0 collected tx.vin
  pure (collected, tx)

/-- Check transactions in turn and record their outputs. References within a block are not
possible, so the branch itself does not change meanwhile. -/
def validateAltTxs (collected : KeySet KeyImage) (abei : AltBlockExtendedInfo) :
    List Hash → Outcome (KeySet KeyImage × AltBlockExtendedInfo)
  | [] => pure (collected, abei)
  | txId :: rest => do
    let (collected, tx) ← validateAltTx E node splitHeight altChain id collected txId
    validateAltTxs collected
      (updateAltOutIndexesForTxInBlock node.chain.db tx.toTransactionPrefix abei) rest

/-- Check the stake input of a proof-of-stake block on a branch, with the age of the stake. -/
def validateAltStake (b : Block) (height : Nat) : Outcome (KeySet KeyImage) := do
  if !isPosBlock b then pure ∅
  else do
    Outcome.require b.minerTx.isPosCoinbase
    let input ← Outcome.demand .refused (coinstakeInput b)
    match validateAltBlockInput E node.chain splitHeight altChain id b.minerTx ∅
        (getBlockHash E b) 1 input (b.minerTx.signatures.getD 0 []) 0 with
    | .error reason _ => throw reason
    | .ok collected maxRelatedBlockHeight => do
      Outcome.require (decide (height - maxRelatedBlockHeight - 1 ≥ E.minCoinstakeAge))
      pure collected

/-- Check the transactions of an alternative block and fill in its output tables. -/
def validateAltBlockTxs (b : Block) (abei : AltBlockExtendedInfo) :
    Outcome (KeySet KeyImage × AltBlockExtendedInfo) := do
  let gindexLookupTable ← node.chain.db.initialGindexes altChain splitHeight
  let collected ← validateAltStake E node splitHeight altChain id b abei.height
  validateAltTxs E node splitHeight altChain id collected
    (updateAltOutIndexesForTxInBlock node.chain.db b.minerTx.toTransactionPrefix
      { abei with gindexLookupTable }) b.txHashes

end Transactions

/-! ## Accepting an alternative block -/

/-- The proof of an alternative block: its kernel hash or its proof-of-work hash. -/
def altBlockProof (chain : Chain) (b : Block) (id : Hash) (currentDiff : Nat)
    (position : AltPosition) : Outcome Hash :=
  if isPosBlock b then
    validatePosBlock E chain b currentDiff id true position.altChain position.connectionHeight
  else do
    let proof := getBlockLonghash E b
    Outcome.require (checkHash proof currentDiff)
    pure proof

/-- The difficulties an alternative block records: precise and adjusted, both cumulative. -/
def altCumulativeDifficulties (chain : Chain) (isPos : Bool) (currentDiff : Nat)
    (position : AltPosition) : Outcome (Nat × Nat) := do
  let sequenceFactor ← chain.getCurrentSequenceFactorForAlt position.altChain isPos
    position.connectionHeight
  let delta ←
    if isPos then
      chain.getAdjustedCumulativeDifficultyForNextAltPos position.altChain currentDiff
        position.connectionHeight
    else pure currentDiff
  let delta :=
    if position.height ≥ E.posMinimumHeigh then
      correctDifficultyWithSequenceFactor sequenceFactor delta
    else delta
  let precise ← chain.getLastAltXBlockCumulativePreciseDifficulty position.altChain
    position.height isPos
  pure ((precise + currentDiff) % 2 ^ 128, (position.parentAdjusted + delta) % 2 ^ 128)

/-- An accepted alternative block: its entry, the key images it spends and its proof. -/
structure AltAcceptance where
  entry : AltBlockExtendedInfo
  keyimages : KeySet KeyImage
  proof : Hash

/-- The checks of an alternative block at a known position. -/
def validateAltBlock (node : Node) (b : Block) (id : Hash) (position : AltPosition) :
    Outcome AltAcceptance := do
  let chain := node.chain
  let timestamps ← chain.altTimestamps position.altChain position.connectionHeight
  Outcome.require (checkBlockTimestamp chain timestamps b)
  let height := position.height
  Outcome.require (getBlockHeight b == height)
  Outcome.require (position.connectionHeight != 0)
  Outcome.require (!isInCheckpointZone E height || checkBlock E height id)
  let isPos := isPosBlock b
  Outcome.require (!(isPos && decide (height < E.posMinimumHeigh)))
  let currentDiff ← chain.getNextDiffConditional2 isPos position.altChain position.connectionHeight
  Outcome.require (currentDiff != 0)
  let proof ← altBlockProof E chain b id currentDiff position
  Outcome.require (prevalidateMinerTransaction b height isPos)
  let (keyimages, abei) ← validateAltBlockTxs E node position.connectionHeight position.altChain id b
    { toBlockExtendedInfo := { bareBlockInfo b with
        height
        stakeHash := if isPos then proof else nullHash } }
  let (precise, adjusted) ← altCumulativeDifficulties E chain isPos currentDiff position
  Outcome.require (!chain.alternativeChains.has id)
  pure
    { entry := { abei with
        difficulty := currentDiff
        cumulativeDiffAdjusted := adjusted
        cumulativeDiffPrecise := precise }
      keyimages
      proof }

/-- Store an accepted alternative block with its key images and transactions. -/
def storeAltBlock (id : Hash) (accepted : AltAcceptance) (chain : Chain) : Chain :=
  { chain with
    alternativeChains := chain.alternativeChains.set id accepted.entry
    altblocksKeyimages := appendAltblockKeyimagesToBigHeap id
      (accepted.keyimages.toList.map Prod.fst) chain.altblocksKeyimages
    alternativeChainsTxs := addAltBlockTxsHashs accepted.entry.bl chain.alternativeChainsTxs }

/-- How the alternative path answers. An orphan is answered by whether the main chain is
still linked up. -/
inductive AltVerdict where
  | failed
  | orphaned (linked : Bool)
  | added (altChain : AltChain) (proof : Hash)

/-- What the alternative path returns besides the flags. -/
def AltVerdict.returned : AltVerdict → Bool
  | .failed => false
  | .orphaned linked => linked
  | .added _ _ => true

/-- Check a block whose parent may be any known block and find its place. `none` stands for
an orphan. -/
def prepareAltBlock (node : Node) (b : Block) (id : Hash) :
    Outcome (Option (AltPosition × AltAcceptance)) := do
  let chain := node.chain
  Outcome.require (!isHeightPassedZone E (getBlockHeight b) chain.db.getTopBlockHeight)
  let altChain ← chain.buildAltSubchain E b
  let heightMainPrev := chain.db.checkedGetHeightById b.prevId
  if altChain.isEmpty && heightMainPrev.isNone then pure none
  else do
    let position ← chain.altPosition altChain (heightMainPrev.getD 0)
    let accepted ← validateAltBlock E node b id position
    pure (some (position, accepted))

/-- Offer a block to the alternative chains. Exceptions count as failures. -/
def handleAlternativeBlock (b : Block) (id : Hash) : NodeM AltVerdict := do
  let node ← get
  match prepareAltBlock E node b id with
  | .error _ => pure .failed
  | .ok none => pure (.orphaned (node.chain.db.validateBlockchainPrevLinks E))
  | .ok (some (position, accepted)) => do
    onChain (modify (storeAltBlock id accepted))
    pure (.added (position.altChain ++ [(id, accepted.entry)]) accepted.proof)

end AltChain
end Virie
