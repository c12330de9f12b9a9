import Mathlib

/-! # Currency configuration

The constants of the main network build, under the source's names. -/

namespace Virie

/-- One coin in smallest units. -/
def coin : Nat := 100000000
def premineAmount : Nat := 100000000000000
def amountExpected10Years : Nat := 20 * 1000 * 1000 * coin
def baseRewardDustThreshold : Nat := 10000

def currencyMaxBlockNumber : Nat := 500000000
def currencyTxMaxAllowedOuts : Nat := 2000
def currencyMinedMoneyUnlockWindow : Nat := 10
def currentTransactionVersion : Nat := 1
def currentBlockMajorVersion : Nat := 1
def currentBlockMinorVersion : Nat := 0
def currencyBlockFlagPosBlock : Nat := 1
def currencyBlockFutureTimeLimit : Nat := 60 * 60 * 2
def currencyPosBlockFutureTimeLimit : Nat := 60 * 20
def blockchainTimestampCheckWindow : Nat := 60

def currencyRewardBlocksWindow : Nat := 400
def currencyBlockGrantedFullRewardZone : Nat := 125000
def currencyCoinbaseBlobReservedSize : Nat := 1100
def currencyFreeTxMaxBlobSize : Nat := 1024
def currencyMinerTxMaxOuts : Nat := currencyTxMaxAllowedOuts
def txMinimumFee : Nat := 1000000

def difficultyStarter : Nat := 1
def difficultyPosTarget : Nat := 120
def difficultyPowTarget : Nat := 120
def difficultyTotalTarget : Nat := (difficultyPosTarget + difficultyPowTarget) / 4
def difficultyWindow : Nat := 720
def difficultyCut : Nat := 60
def currencyBlocksPerDay : Nat := (60 * 60 * 24) / difficultyTotalTarget

def txExpirationTimestampCheckWindow : Nat := 20
def txExpirationMedianShift : Nat := txExpirationTimestampCheckWindow / 2 * difficultyTotalTarget
def currencyLockedTxAllowedDeltaBlocks : Nat := 1
def currencyLockedTxAllowedDeltaSeconds : Nat :=
  difficultyTotalTarget * currencyLockedTxAllowedDeltaBlocks

def maxAliasPerBlock : Nat := 1000
def aliasCostPeriod : Nat := currencyBlocksPerDay * 7
def aliasVeryInitalCost : Nat := 10000
def aliasMedianRecalcInterwal : Nat := currencyBlocksPerDay
def aliasMinimumPublicShortNameAllowed : Nat := 6
def aliasNameMaxLen : Nat := 255

def currencyAltBlockLivetimeCount : Nat := currencyBlocksPerDay * 7
def currencyMempoolTxLivetime : Nat := 345600

def posScanStep : Nat := 15
def posMacActualTimestampToMined : Nat := 60 * 10 + 100

/-- Outputs of this mixing attribute may only be spent directly. -/
def currencyToKeyOutForcedNoMix : Nat := 1
/-- From this value on the mixing attribute is the least ring size. -/
def currencyToKeyOutForcedMixLowerBound : Nat := 2
def txFlagSignatureModeSeparate : Nat := 1

def bcOffersServiceId : String := "M"
def bcOffersServiceInstructionDel : String := "DEL"

end Virie
