import Virie.Difficulty
import Virie.Foundation.Scan
import Virie.Rules
import Virie.Storage.Database

/-! # The blockchain storage

The state of the storage: the database, the alternative chains held in memory and
the caches, with the queries that read timestamps, sizes, medians and
difficulties off the main chain. -/

open Foundation

namespace Virie

/-- An alternative block with the global indexes its branch gives out before it and the
public keys of its own outputs. -/
structure AltBlockExtendedInfo extends BlockExtendedInfo where
  gindexLookupTable : Container Nat Nat := ∅
  outputsPubKeys : Container Nat (List PublicKey) := ∅

/-- The ancestors of a new alternative block, oldest first, with their ids. -/
abbrev AltChain := List (Hash × AltBlockExtendedInfo)

/-- The blocks of a branch, newest first. -/
def AltChain.newestFirst (altChain : AltChain) : List BlockExtendedInfo :=
  altChain.reverse.map fun entry => entry.2.toBlockExtendedInfo

/-- The blockchain storage. -/
structure Chain where
  db : Db := {}
  alternativeChains : Container Hash AltBlockExtendedInfo := ∅
  alternativeChainsTxs : Container Hash Nat := ∅
  altblocksKeyimages : Container KeyImage (List Hash) := ∅
  invalidBlocks : Container Hash BlockExtendedInfo := ∅
  isInCheckpointZone : Bool := false
  timestampsMedianCache : Container Nat Nat := ∅
  diffCache : DifficultyCache := {}
  currentFeeMedian : Nat := 0
  currentFeeMedianEffectiveIndex : Nat := 0
  /-- The calls the attachment services received. -/
  services : List ServiceCall := []
  /-- The clock the runtime configuration reads. -/
  coreTime : Nat := 0

abbrev ChainM (α : Type) := Procedure Chain α

/-- Run a database procedure in the storage. -/
def onDb {α : Type} (body : DbM α) : ChainM α :=
  Procedure.within Chain.db (fun chain db => { chain with db }) body

theorem onDb_ok {α : Type} {body : DbM α} {before after : Chain} {result : α} :
    onDb body before = .ok result after ↔
      ∃ db, body before.db = .ok result db ∧ after = { before with db } :=
  Procedure.within_ok

/-! ## Reading the main chain -/

namespace Db

variable (db : Db)

/-- The block at a height; an access past the end raises an exception. -/
def blockAt (height : Nat) : Outcome BlockExtendedInfo := Outcome.demand .thrown db.blocks[height]?

/-- The blocks from a height down to height one, newest first. -/
def blocksDownFrom (height : Nat) : Outcome (List BlockExtendedInfo) :=
  if height = 0 then pure []
  else if height < db.blocks.length then pure ((db.blocks.take (height + 1)).drop 1).reverse
  else throw .thrown

/-- Visit the blocks of a branch newest first and then the main chain from a height down to
height one, until a visit asks to stop. -/
def scanBranch {σ : Type} (visit : σ → BlockExtendedInfo → σ × Bool) (start : σ)
    (altChain : AltChain) (mainTop : Nat) : Outcome σ :=
  match foldUntil visit start altChain.newestFirst with
  | (state, false) => pure state
  | (state, true) => do
    let blocks ← db.blocksDownFrom mainTop
    pure (foldUntil visit state blocks).1

/-- Append the timestamps of the blocks that end at a height, oldest first, until there
are `elementsCount` of them. The genesis block is never counted. -/
def completeTimestampsVector (startTopHeight : Nat) (timestamps : List Nat) (elementsCount : Nat) :
    Outcome (List Nat) := do
  if timestamps.length ≥ elementsCount then pure timestamps
  else
    let needElements := elementsCount - timestamps.length
    Outcome.require (decide (startTopHeight < db.blocks.length))
    let stopOffset :=
      if startTopHeight > needElements then startTopHeight - needElements + 1 else 1
    pure (timestamps ++
      ((db.blocks.take (startTopHeight + 1)).drop stopOffset).map fun bei => bei.bl.timestamp)

def getLastNBlocksTimestamps (n : Nat) : List Nat :=
  match db.completeTimestampsVector (db.blocks.length - 1) [] n with
  | .ok timestamps => timestamps
  | .error _ => []

def getLastNBlocksSizes (count : Nat) : List Nat :=
  (db.blocks.drop (db.blocks.length - count)).map fun bei => bei.blockCumulativeSize

def getTxFeeMedianEffectiveIndex (h : Nat) : Nat :=
  if h ≤ aliasMedianRecalcInterwal + 1 then 0
  else (h - 1) - (h - 1) % aliasMedianRecalcInterwal

def txFeeMedianForHeight (h : Nat) : Outcome Nat := do
  let bei ← db.blockAt (getTxFeeMedianEffectiveIndex h)
  pure bei.effectiveTxFeeMedian

def updateNextComulativeSizeLimit : Db :=
  { db with
    currentBlockCumulSzLimit :=
      max (median (db.getLastNBlocksSizes currencyRewardBlocksWindow))
        currencyBlockGrantedFullRewardZone * 2 }

/-- Each of the newest blocks records its height and names the block below it. -/
def validateBlockchainPrevLinks (E : Env) (lastNBlocksToCheck : Nat := 10) : Bool :=
  ((List.range (db.blocks.length - 1)).reverse.take lastNBlocksToCheck).all fun i =>
    match db.blocks[i]?, db.blocks[i + 1]? with
    | some prevBei, some bei => bei.height == i + 1 && bei.bl.prevId == getBlockHash E prevBei.bl
    | _, _ => true

end Db

/-! ## Cached medians -/

/-- The median of the last timestamps, remembered until the chain changes. -/
def getLastNBlocksTimestampsMedian (n : Nat) : ChainM Nat := do
  let chain ← get
  match chain.timestampsMedianCache.get n with
  | some medianRes => pure medianRes
  | none =>
    let medianRes := median (chain.db.getLastNBlocksTimestamps n)
    set { chain with timestampsMedianCache := chain.timestampsMedianCache.set n medianRes }
    pure medianRes

def getTxExpirationMedian : ChainM Nat :=
  getLastNBlocksTimestampsMedian txExpirationTimestampCheckWindow

def isTxExpired (tx : TransactionPrefix) : ChainM Bool := do
  let expirationTsMedian ← getTxExpirationMedian
  pure (tx.isTxExpired expirationTsMedian)

/-- The fee median in force for the next block, remembered by the height it is read at. -/
def getTxFeeMedian : ChainM Nat := do
  let chain ← get
  let h := chain.db.blocks.length
  let effectiveIndex := Db.getTxFeeMedianEffectiveIndex h
  Procedure.onlyIf (chain.currentFeeMedianEffectiveIndex != effectiveIndex) do
    let fresh ← Procedure.reading fun chain => chain.db.txFeeMedianForHeight h
    modify fun chain => { chain with
      currentFeeMedian := fresh, currentFeeMedianEffectiveIndex := effectiveIndex }
  modify fun chain => { chain with
    currentFeeMedian :=
      if chain.currentFeeMedian = 0 then aliasVeryInitalCost else chain.currentFeeMedian }
  let chain ← get
  pure chain.currentFeeMedian

/-! ## Difficulty of the next main-chain block -/

/-- The timestamps and precise cumulative difficulties of a window of blocks, newest first. -/
structure DiffWindow where
  timestamps : List Nat := []
  commulativeDifficulties : List Nat := []
  count : Nat := 0

/-- Collect a block of the wanted type until the window is full. -/
def DiffWindow.visit (pos : Bool) (window : DiffWindow) (bei : BlockExtendedInfo) :
    DiffWindow × Bool :=
  if pos ≠ isPosBlock bei.bl then (window, true)
  else
    ({ timestamps := window.timestamps ++ [bei.bl.timestamp]
       commulativeDifficulties := window.commulativeDifficulties ++ [bei.cumulativeDiffPrecise]
       count := window.count + 1 },
      decide (window.count + 1 < difficultyWindow))

def difficultyTarget (pos : Bool) : Nat := if pos then difficultyPosTarget else difficultyPowTarget

def DiffWindow.nextDifficulty (pos : Bool) (window : DiffWindow) : Outcome Nat :=
  Virie.nextDifficulty window.timestamps window.commulativeDifficulties (difficultyTarget pos)

/-- The difficulty of the next block of a type. -/
def Db.computeNextDiff (db : Db) (pos : Bool) : Outcome Nat := do
  if db.blocks.isEmpty then pure difficultyStarter
  else
    let blocks ← db.blocksDownFrom (db.blocks.length - 1)
    (foldUntil (DiffWindow.visit pos) {} blocks).1.nextDifficulty pos

/-- Compute the next difficulty and remember it; on an empty chain nothing is stored. -/
def getNextDiffConditional (pos : Bool) : ChainM Nat := do
  let diff ← Procedure.reading fun chain => chain.db.computeNextDiff pos
  modify fun chain =>
    if chain.db.blocks.isEmpty then chain
    else { chain with diffCache := chain.diffCache.set diff pos chain.db.blocks.length }
  pure diff

def getCachedNextDifficulty (pos : Bool) : ChainM Nat := do
  let chain ← get
  let (cachedDiff, diffCache) := chain.diffCache.get pos chain.db.blocks.length
  set { chain with diffCache }
  if cachedDiff ≠ 0 then pure cachedDiff else getNextDiffConditional pos

/-- The number of blocks of a type that end the chain. -/
def sequenceVisit (pos : Bool) (n : Nat) (bei : BlockExtendedInfo) : Nat × Bool :=
  if pos ≠ isPosBlock bei.bl then (n, false) else (n + 1, true)

def Db.getCurrentSequenceFactor (db : Db) (pos : Bool) : Outcome Nat := do
  if db.blocks.isEmpty then pure 0
  else
    let blocks ← db.blocksDownFrom (db.blocks.length - 1)
    pure (foldUntil (sequenceVisit pos) 0 blocks).1

/-- The difficulties of the newest blocks of both types. -/
structure LastDiffs where
  pow : Nat := 0
  pos : Nat := 0

/-- Remember the first nonzero difficulty of each type until both are known. -/
def LastDiffs.visit (last : LastDiffs) (bei : BlockExtendedInfo) : LastDiffs × Bool :=
  let last :=
    if isPosBlock bei.bl then
      if last.pos = 0 then { last with pos := bei.difficulty } else last
    else if last.pow = 0 then { last with pow := bei.difficulty } else last
  (last, !(last.pos != 0 && last.pow != 0))

/-- Scale a proof-of-stake difficulty to the proof-of-work one. -/
def Db.scaleByLastDiffs (db : Db) (last : LastDiffs) (nextDiff : Nat) : Outcome Nat :=
  if last.pos = 0 then pure nextDiff
  else do
    let lastPowDiff ← if last.pow = 0 then do
        let genesis ← db.blockAt 0
        pure genesis.difficulty
      else pure last.pow
    pure (nextDiff * lastPowDiff % 2 ^ 128 / last.pos)

def Db.getAdjustedCumulativeDifficultyForNextPos (db : Db) (nextDiff : Nat) : Outcome Nat := do
  if db.blocks.isEmpty then pure nextDiff
  else
    let blocks ← db.blocksDownFrom (db.blocks.length - 1)
    db.scaleByLastDiffs (foldUntil LastDiffs.visit {} blocks).1 nextDiff

/-- The precise cumulative difficulty of the newest block of a type above genesis. -/
def lastCumulativePrecise (pos : Bool) (blocks : List BlockExtendedInfo) : Option Nat :=
  (blocks.find? fun bei => isPosBlock bei.bl == pos).map fun bei => bei.cumulativeDiffPrecise

/-- The height of the newest block of a type, zero when there is none above genesis. -/
def Db.getLastXBlockHeight (db : Db) (pos : Bool) : Nat :=
  match (List.range (db.blocks.length - 1)).reverse.find? (fun i =>
      (db.blocks[i + 1]?.map fun bei => isPosBlock bei.bl) == some pos) with
  | some i => i + 1
  | none => 0

end Virie
