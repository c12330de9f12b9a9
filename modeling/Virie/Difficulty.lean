import Virie.Format

/-! # Difficulty

The proof-of-work test, the difficulty of the next block and the cache of the two
difficulties that the storage last computed. -/

open Foundation

namespace Virie

/-! ## The proof-of-work test -/

/-- A product of words, low and high half. -/
def mulU64 (a b : Nat) : Nat × Nat := (a * b % 2 ^ 64, a * b / 2 ^ 64 % 2 ^ 64)

/-- The carry of a sum of words. -/
def cadd (a b : Nat) : Bool := decide (addU64 a b < a)

/-- The carry of a sum of words and a carry. -/
def cadc (a b : Nat) (c : Bool) : Bool :=
  decide (addU64 a b < a) || (c && addU64 a b == 2 ^ 64 - 1)

/-- The `i`-th word of a hash, counted from the least significant one. -/
def Hash.word (h : Hash) (i : Nat) : Nat := h.val / 2 ^ (64 * i) % 2 ^ 64

/-- Difficulties below the largest word take the exact product; above it the loop of the
source never shifts, so that the low words are merged by bitwise or. -/
def checkHash (h : Hash) (difficulty : Nat) : Bool :=
  if difficulty < 2 ^ 64 - 1 then
    let (top, high) := mulU64 (h.word 3) difficulty
    if high != 0 then false
    else
      let (_, cur) := mulU64 (h.word 0) difficulty
      let (low, high) := mulU64 (h.word 1) difficulty
      let carry := cadd cur low
      let cur := high
      let (low, high) := mulU64 (h.word 2) difficulty
      let carry := cadc cur low carry
      !cadc high top carry
  else if h.word 3 > 0 then false
  else decide ((h.word 2 ||| h.word 1 ||| h.word 0) * difficulty > 2 ^ 256 - 1)

/-! ## The next difficulty -/

def getAdjustmentForZone (timestampsSorted cumulativeDifficulties : List Nat)
    (targetSeconds window cutOld cutLast : Nat) : Outcome Nat := do
  let length := timestampsSorted.length
  let cutLength := window - (cutOld + cutLast)
  let cutBegin :=
    if length > cutLength + cutLast then cutLast
    else if length > cutLength then length - cutLength
    else 0
  let cutEnd := min (cutBegin + cutLength) length
  if ¬ (cutBegin + 2 ≤ cutEnd ∧ cutEnd ≤ length) then throw .thrown
  let span := timestampsSorted.getD cutBegin 0 - timestampsSorted.getD (cutEnd - 1) 0
  let timeSpan := if span = 0 then 1 else span
  let newest := cumulativeDifficulties.getD cutBegin 0
  let oldest := cumulativeDifficulties.getD (cutEnd - 1) 0
  if ¬ newest > oldest then throw .thrown
  pure (min (((newest - oldest) * targetSeconds + timeSpan - 1) / timeSpan) (2 ^ 128 - 1))

/-- The difficulty after a window of blocks given newest first. -/
def nextDifficulty (timestamps cumulativeDifficulties : List Nat) (targetSeconds : Nat) :
    Outcome Nat := do
  let timestamps := timestamps.take difficultyWindow
  let cumulativeDifficulties := cumulativeDifficulties.take difficultyWindow
  if timestamps.length ≤ 1 then pure difficultyStarter
  else
    let sorted := timestamps.insertionSort (· ≥ ·)
    let difSlow ← getAdjustmentForZone sorted cumulativeDifficulties targetSeconds
      difficultyWindow (difficultyCut / 2) (difficultyCut / 2)
    let difMedium ← getAdjustmentForZone sorted cumulativeDifficulties targetSeconds
      (difficultyWindow / 3) (difficultyCut / 8) (difficultyCut / 12)
    let difFast ← getAdjustmentForZone sorted cumulativeDifficulties targetSeconds
      (difficultyWindow / 18) (difficultyCut / 10) 2
    let res := (difSlow + difMedium + difFast) % 2 ^ 128 / 3
    pure (if res = 0 then difficultyStarter else res)

/-- The weight of a block after a run of `sequenceFactor` blocks of its type. -/
def correctDifficultyWithSequenceFactor : Nat → Nat → Nat
  | 0, diff => diff
  | n + 1, diff => correctDifficultyWithSequenceFactor n (diff - diff / 4)

/-! ## The difficulty cache -/

/-- Two difficulties with the chain length of the last one stored. -/
structure DifficultyCache where
  posDiff : Nat := 0
  powDiff : Nat := 0
  chainLength : Nat := 0
deriving DecidableEq

namespace DifficultyCache

def diff (cache : DifficultyCache) (isPos : Bool) : Nat :=
  if isPos then cache.posDiff else cache.powDiff

def setDiff (cache : DifficultyCache) (isPos : Bool) (value : Nat) : DifficultyCache :=
  if isPos then { cache with posDiff := value } else { cache with powDiff := value }

/-- Look up a difficulty, dropping it first when the chain length is not the stored one. -/
def get (cache : DifficultyCache) (isPos : Bool) (chainLength : Nat) : Nat × DifficultyCache :=
  let cache := if chainLength ≠ cache.chainLength then cache.setDiff isPos 0 else cache
  (cache.diff isPos, cache)

def set (cache : DifficultyCache) (value : Nat) (isPos : Bool) (chainLength : Nat) :
    DifficultyCache :=
  { cache.setDiff isPos value with chainLength }

@[simp] theorem diff_setDiff_self (cache : DifficultyCache) (isPos : Bool) (value : Nat) :
    (cache.setDiff isPos value).diff isPos = value := by
  cases isPos <;> rfl

theorem diff_setDiff_of_ne (cache : DifficultyCache) {isPos other : Bool} (value : Nat)
    (apart : other ≠ isPos) : (cache.setDiff isPos value).diff other = cache.diff other := by
  cases isPos <;> cases other <;> first | rfl | exact absurd rfl apart

@[simp] theorem chainLength_setDiff (cache : DifficultyCache) (isPos : Bool) (value : Nat) :
    (cache.setDiff isPos value).chainLength = cache.chainLength := by
  cases isPos <;> rfl

def reset (cache : DifficultyCache) : DifficultyCache :=
  { cache with posDiff := 0, powDiff := 0 }

@[simp] theorem diff_reset (cache : DifficultyCache) (isPos : Bool) :
    cache.reset.diff isPos = 0 := by
  cases isPos <;> rfl

end DifficultyCache
end Virie
