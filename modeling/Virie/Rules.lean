import Virie.Format

/-! # Rewards, medians and checkpoints

The block reward schedule with its size penalty, the median the storage takes of
timestamps, sizes and fees, and the checkpoint zone. -/

namespace Virie

/-! ## Median -/

/-- The median of a list of words: the middle element, or the mean of the two middle ones. -/
def median (v : List Nat) : Nat :=
  let sorted := v.insertionSort (· ≤ ·)
  let n := v.length / 2
  if v.length % 2 = 1 then sorted.getD n 0
  else if v.isEmpty then 0
  else addU64 (sorted.getD (n - 1) 0) (sorted.getD n 0) / 2

/-! ## Reward -/

/-- A row of the reward table: the rewards of blocks up to a height. -/
structure RewardRow where
  height : Nat
  rewardPos : Nat
  rewardPow : Nat

def currencyCountBlockInYear : Nat := 262974
def currencyCountBlockInYearCommon : Nat := currencyCountBlockInYear * 2
def currencyPowRewardFexedNext : Nat := 1000000

/-- A row that spreads a percentage of the expected emission over `blocks` blocks. -/
def simplePercentRow (height percent blocks withoutAmount : Nat) : RewardRow :=
  ⟨height, (amountExpected10Years / 100 * percent - withoutAmount) / blocks -
    currencyPowRewardFexedNext, currencyPowRewardFexedNext⟩

def currencyRewards : List RewardRow :=
  [⟨300, 1 * coin, 1 * coin⟩,
    simplePercentRow currencyCountBlockInYearCommon 20 (currencyCountBlockInYear - 300 / 2)
      (premineAmount + 300 * coin),
    simplePercentRow (currencyCountBlockInYearCommon * 2) 15 currencyCountBlockInYear 0,
    simplePercentRow (currencyCountBlockInYearCommon * 3) 12 currencyCountBlockInYear 0,
    simplePercentRow (currencyCountBlockInYearCommon * 4) 11 currencyCountBlockInYear 0,
    simplePercentRow (currencyCountBlockInYearCommon * 5) 10 currencyCountBlockInYear 0,
    simplePercentRow (currencyCountBlockInYearCommon * 6) 9 currencyCountBlockInYear 0,
    simplePercentRow (currencyCountBlockInYearCommon * 7) 8 currencyCountBlockInYear 0,
    simplePercentRow (currencyCountBlockInYearCommon * 8) 6 currencyCountBlockInYear 0,
    simplePercentRow (currencyCountBlockInYearCommon * 9) 5 currencyCountBlockInYear 0,
    simplePercentRow (currencyCountBlockInYearCommon * 10) 4 currencyCountBlockInYear 0,
    simplePercentRow (2 ^ 64 - 1) 1 currencyCountBlockInYear 0]

def getBaseBlockReward (isPos : Bool) (height : Nat) : Nat :=
  if height = 0 then premineAmount
  else
    let row := (currencyRewards.find? fun row => decide (height ≤ row.height)).getD
      (simplePercentRow (2 ^ 64 - 1) 1 currencyCountBlockInYear 0)
    let reward := if isPos then row.rewardPos else row.rewardPow
    if reward ≤ baseRewardDustThreshold then reward
    else reward - reward % baseRewardDustThreshold

/-- The reward of a block of a given size; blocks above the median are penalised and
blocks above twice the median have none. The product is divided twice by the low half
of the median, as the 128-by-32-bit division of the source does. -/
def getBlockReward (isPos : Bool) (medianSize currentBlockSize height : Nat) : Option Nat :=
  let baseReward := getBaseBlockReward isPos height
  let medianSize := max medianSize currencyBlockGrantedFullRewardZone
  if currentBlockSize ≤ medianSize ∨ height = 0 then some baseReward
  else if currentBlockSize > 2 * medianSize then none
  else
    let multiplicand := (2 * medianSize - currentBlockSize) * currentBlockSize % 2 ^ 64
    let divisor := medianSize % 2 ^ 32
    let reward := baseReward * multiplicand / divisor / divisor
    if reward < 2 ^ 64 ∧ reward < baseReward then some reward else none

def getTxMinimumFee (_height : Nat) : Nat := txMinimumFee

def getAliasCostFromFee (_alias : String) (medianFee : Nat) : Nat := medianFee * 10 % 2 ^ 64

/-! ## Checkpoints -/

section Checkpoints

variable (E : Env)

def getTopCheckpointHeight : Nat := (E.points.toList.getLast?.map Prod.fst).getD 0

def isInCheckpointZone (height : Nat) : Bool :=
  height == 0 || (!E.points.toList.isEmpty && decide (height ≤ getTopCheckpointHeight E))

/-- Whether a checkpoint at or above the height is already part of the chain. -/
def isHeightPassedZone (height blockchainLastBlockHeight : Nat) : Bool :=
  decide (height ≤ blockchainLastBlockHeight) &&
    match E.points.toList.find? (fun point => decide (height ≤ point.1)) with
    | some point => decide (point.1 ≤ blockchainLastBlockHeight)
    | none => false

def checkBlock (height : Nat) (h : Hash) : Bool :=
  match E.points.get height with
  | some expected => expected == h
  | none => true

end Checkpoints

end Virie
