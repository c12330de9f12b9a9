import Virie.Rules
import Virie.Foundation.Limbs

/-! # The reward of large blocks

A block above the median size loses a part of its reward. The source forms the product of the
reward with a word from the products of 32-bit halves and divides it twice by the median,
32 bits at a time. The result is the exact quotient, it never exceeds the reward, and it does
not grow with the size of the block. -/

open Foundation

namespace Virie

/-! ## Words and double words -/

def hiDword (val : Nat) : Nat := val / 2 ^ 32

def loDword (val : Nat) : Nat := val % 2 ^ 32

/-- The product of two words, high and low word. -/
def mul128Manually (multiplier multiplicand : Nat) : Nat × Nat :=
  let a := hiDword multiplier
  let b := loDword multiplier
  let c := hiDword multiplicand
  let d := loDword multiplicand
  let ac := a * c % 2 ^ 64
  let ad := a * d % 2 ^ 64
  let bc := b * c % 2 ^ 64
  let bd := b * d % 2 ^ 64
  let adbc := addU64 ad bc
  let adbcCarry := if adbc < ad then 1 else 0
  let productLo := addU64 bd ((adbc <<< 32) % 2 ^ 64)
  let productLoCarry := if productLo < bd then 1 else 0
  (addU64 (addU64 (addU64 ac (adbc >>> 32)) ((adbcCarry <<< 32) % 2 ^ 64)) productLoCarry,
    productLo)

/-- Divide the remainder so far and the next 32 bits: quotient and new remainder. -/
def divWithReminder (dividend divisor remainder : Nat) : Nat × Nat :=
  let dividend := dividend ||| ((remainder <<< 32) % 2 ^ 64)
  (dividend / divisor, dividend % divisor % 2 ^ 32)

/-- Divide a double word by 32 bits: the quotient, high and low word, and the remainder. -/
def div128By32Manually (dividendHi dividendLo divisor : Nat) : (Nat × Nat) × Nat :=
  let (q3, remainder) := divWithReminder (hiDword dividendHi) divisor 0
  let (q2, remainder) := divWithReminder (loDword dividendHi) divisor remainder
  let (q1, remainder) := divWithReminder (hiDword dividendLo) divisor remainder
  let (q0, remainder) := divWithReminder (loDword dividendLo) divisor remainder
  (((q3 <<< 32) % 2 ^ 64 ||| q2, (q1 <<< 32) % 2 ^ 64 ||| q0), remainder)

/-! ## The reward -/

/-- The reward of a block above the median size, high and low word. -/
def penalizedReward (baseReward medianSize currentBlockSize : Nat) : Nat × Nat :=
  let multiplicand := (2 * medianSize - currentBlockSize) * currentBlockSize % 2 ^ 64
  let (productHi, productLo) := mul128Manually baseReward multiplicand
  let (reward, _) := div128By32Manually productHi productLo (medianSize % 2 ^ 32)
  let (reward, _) := div128By32Manually reward.1 reward.2 (medianSize % 2 ^ 32)
  reward

/-- The size up to which a block gets its full reward. -/
def softMedian (medianSize : Nat) : Nat :=
  if medianSize < currencyBlockGrantedFullRewardZone then currencyBlockGrantedFullRewardZone
  else medianSize

/-- The reward of a block of a size and height, from its base reward. -/
def rewardFrom (baseReward medianSize currentBlockSize height : Nat) : Option Nat :=
  let medianSize := softMedian medianSize
  if currentBlockSize ≤ medianSize ∨ height = 0 then some baseReward
  else if currentBlockSize > 2 * medianSize % 2 ^ 64 then none
  else
    let reward := penalizedReward baseReward medianSize currentBlockSize
    if reward.1 ≠ 0 then none
    else if ¬ reward.2 < baseReward then none
    else some reward.2

section Words

/-! ## Multiplication -/

theorem mul_lt_square {a b : Nat} (small : a < 2 ^ 32) (smallToo : b < 2 ^ 32) :
    a * b ≤ (2 ^ 32 - 1) * (2 ^ 32 - 1) :=
  Nat.mul_le_mul (Nat.le_pred_of_lt small) (Nat.le_pred_of_lt smallToo)

/-- The product by halves is exact. -/
theorem mul128Manually_eq {x y : Nat} (word : x < 2 ^ 64) (wordToo : y < 2 ^ 64) :
    (mul128Manually x y).1 * 2 ^ 64 + (mul128Manually x y).2 = x * y ∧
      (mul128Manually x y).2 < 2 ^ 64 := by
  have highX : hiDword x < 2 ^ 32 := by
    unfold hiDword
    omega
  have highY : hiDword y < 2 ^ 32 := by
    unfold hiDword
    omega
  have lowX : loDword x < 2 ^ 32 := Nat.mod_lt _ (by decide)
  have lowY : loDword y < 2 ^ 32 := Nat.mod_lt _ (by decide)
  have splitX : x = hiDword x * 2 ^ 32 + loDword x := (Nat.div_add_mod' x (2 ^ 32)).symm
  have splitY : y = hiDword y * 2 ^ 32 + loDword y := (Nat.div_add_mod' y (2 ^ 32)).symm
  have product := mul_limbs (2 ^ 32) (hiDword x) (loDword x) (hiDword y) (loDword y)
  rw [← splitX, ← splitY] at product
  have ac := mul_lt_square highX highY
  have ad := mul_lt_square highX lowY
  have bc := mul_lt_square lowX highY
  have bd := mul_lt_square lowX lowY
  rw [product]
  unfold mul128Manually addU64
  dsimp only
  rw [Nat.shiftLeft_eq, Nat.shiftLeft_eq, Nat.shiftRight_eq_div_pow]
  generalize hiDword x * hiDword y = acV at *
  generalize hiDword x * loDword y = adV at *
  generalize loDword x * hiDword y = bcV at *
  generalize loDword x * loDword y = bdV at *
  clear product splitX splitY highX highY lowX lowY word wordToo
  split <;> split <;> omega

/-! ## Division -/

theorem shift_or {high low : Nat} (small : high < 2 ^ 32) (smallToo : low < 2 ^ 32) :
    (high <<< 32) % 2 ^ 64 ||| low = high * 2 ^ 32 + low := by
  have fits : high <<< 32 < 2 ^ 64 := by
    rw [Nat.shiftLeft_eq]
    omega
  rw [Nat.mod_eq_of_lt fits, ← Nat.shiftLeft_add_eq_or_of_lt smallToo, Nat.shiftLeft_eq]

section Division

variable {divisor : Nat} (positive : 0 < divisor) (dword : divisor < 2 ^ 32)
include positive dword

theorem divWithReminder_eq {dividend remainder : Nat} (small : dividend < 2 ^ 32)
    (left : remainder < divisor) :
    divWithReminder dividend divisor remainder =
      ((remainder * 2 ^ 32 + dividend) / divisor, (remainder * 2 ^ 32 + dividend) % divisor) := by
  unfold divWithReminder
  rw [Nat.lor_comm, shift_or (left.trans dword) small]
  have rest : (remainder * 2 ^ 32 + dividend) % divisor < 2 ^ 32 :=
    (Nat.mod_lt _ positive).trans dword
  dsimp only
  rw [Nat.mod_eq_of_lt rest]

/-- The division by 32 bits is exact. -/
theorem div128By32Manually_eq {hi lo : Nat} (word : hi < 2 ^ 64) (wordToo : lo < 2 ^ 64) :
    (div128By32Manually hi lo divisor).1 =
      (hi / divisor, (hi % divisor * 2 ^ 64 + lo) / divisor) := by
  have top : hiDword hi < 2 ^ 32 := by
    unfold hiDword
    omega
  have third : loDword hi < 2 ^ 32 := Nat.mod_lt _ (by decide)
  have second : hiDword lo < 2 ^ 32 := by
    unfold hiDword
    omega
  have bottom : loDword lo < 2 ^ 32 := Nat.mod_lt _ (by decide)
  have splitHi : hiDword hi * 2 ^ 32 + loDword hi = hi := Nat.div_add_mod' hi (2 ^ 32)
  have splitLo : hiDword lo * 2 ^ 32 + loDword lo = lo := Nat.div_add_mod' lo (2 ^ 32)
  unfold div128By32Manually
  rw [divWithReminder_eq positive dword top positive]
  dsimp only
  rw [Nat.zero_mul, Nat.zero_add]
  have left3 := Nat.mod_lt (hiDword hi) positive
  rw [divWithReminder_eq positive dword third left3]
  dsimp only
  rw [← mod_limb (hiDword hi) (loDword hi) divisor, splitHi]
  have left2 := Nat.mod_lt hi positive
  rw [divWithReminder_eq positive dword second left2]
  dsimp only
  have left1 := Nat.mod_lt (hi % divisor * 2 ^ 32 + hiDword lo) positive
  rw [divWithReminder_eq positive dword bottom left1]
  dsimp only
  have small3 : hiDword hi / divisor < 2 ^ 32 := (Nat.div_le_self _ _).trans_lt top
  rw [shift_or small3 (quotient_lt left3 third),
    shift_or (quotient_lt left2 second) (quotient_lt left1 bottom),
    ← div_limb (hiDword hi) (loDword hi) positive, splitHi,
    ← div_limb (hi % divisor * 2 ^ 32 + hiDword lo) (loDword lo) positive]
  have joined : (hi % divisor * 2 ^ 32 + hiDword lo) * 2 ^ 32 + loDword lo =
      hi % divisor * 2 ^ 64 + lo := by
    calc
      _ = hi % divisor * 2 ^ 64 + (hiDword lo * 2 ^ 32 + loDword lo) := by ring
      _ = hi % divisor * 2 ^ 64 + lo := by rw [splitLo]
  rw [joined]

end Division

end Words

/-! ## The penalty -/

section Penalty

variable {medianSize currentBlockSize : Nat}

/-- The penalty factor stays below the square of the median. -/
theorem penalty_lt (positive : 0 < medianSize) (above : medianSize < currentBlockSize) :
    (2 * medianSize - currentBlockSize) * currentBlockSize < medianSize * medianSize := by
  have square : 0 < medianSize * medianSize := Nat.mul_pos positive positive
  rcases Nat.le_total currentBlockSize (2 * medianSize) with within | beyond
  · obtain ⟨rest, split⟩ := Nat.exists_eq_add_of_le within
    have difference : 2 * medianSize - currentBlockSize = rest := by
      omega
    rw [difference]
    nlinarith only [above, split]
  · rw [Nat.sub_eq_zero_of_le beyond, Nat.zero_mul]
    exact square

/-- Above the median the penalty factor does not grow with the size. -/
theorem penalty_antitone {larger : Nat} (above : medianSize ≤ currentBlockSize)
    (order : currentBlockSize ≤ larger) :
    (2 * medianSize - larger) * larger ≤
      (2 * medianSize - currentBlockSize) * currentBlockSize := by
  rcases Nat.le_total larger (2 * medianSize) with within | beyond
  · obtain ⟨rest, split⟩ := Nat.exists_eq_add_of_le within
    obtain ⟨growth, rfl⟩ := Nat.exists_eq_add_of_le order
    have difference : 2 * medianSize - (currentBlockSize + growth) = rest := by
      omega
    have differenceToo : 2 * medianSize - currentBlockSize = rest + growth := by
      omega
    rw [difference, differenceToo]
    nlinarith only [above, split]
  · rw [Nat.sub_eq_zero_of_le beyond, Nat.zero_mul]
    exact Nat.zero_le _

/-- The quotient the source computes, over the natural numbers. -/
def exactReward (baseReward medianSize currentBlockSize : Nat) : Nat :=
  baseReward * ((2 * medianSize - currentBlockSize) * currentBlockSize) / medianSize / medianSize

variable {baseReward : Nat}

theorem exactReward_lt (positive : 0 < baseReward) (positiveToo : 0 < medianSize)
    (above : medianSize < currentBlockSize) :
    exactReward baseReward medianSize currentBlockSize < baseReward := by
  unfold exactReward
  rw [Nat.div_div_eq_div_mul]
  apply Nat.div_lt_of_lt_mul
  rw [Nat.mul_comm (medianSize * medianSize)]
  exact Nat.mul_lt_mul_of_pos_left (penalty_lt positiveToo above) positive

theorem exactReward_antitone {larger : Nat} (above : medianSize ≤ currentBlockSize)
    (order : currentBlockSize ≤ larger) :
    exactReward baseReward medianSize larger ≤
      exactReward baseReward medianSize currentBlockSize := by
  unfold exactReward
  apply Nat.div_le_div_right
  apply Nat.div_le_div_right
  exact Nat.mul_le_mul_left _ (penalty_antitone above order)

/-- The words of the source hold the exact quotient, and its high word is zero. -/
theorem penalizedReward_eq (positive : 0 < baseReward) (word : baseReward < 2 ^ 64)
    (positiveToo : 0 < medianSize) (dword : medianSize < 2 ^ 32)
    (above : medianSize < currentBlockSize) :
    penalizedReward baseReward medianSize currentBlockSize =
      (0, exactReward baseReward medianSize currentBlockSize) := by
  have below := exactReward_lt positive positiveToo above
  have factor := penalty_lt positiveToo above
  have square : medianSize * medianSize < 2 ^ 32 * 2 ^ 32 := Nat.mul_self_lt_mul_self dword
  unfold exactReward at below
  unfold penalizedReward exactReward
  generalize (2 * medianSize - currentBlockSize) * currentBlockSize = multiplicand at *
  have small : multiplicand < 2 ^ 64 := by
    omega
  rw [Nat.mod_eq_of_lt small, Nat.mod_eq_of_lt dword]
  obtain ⟨exact1, lowWord⟩ := mul128Manually_eq word small
  dsimp only
  generalize (mul128Manually baseReward multiplicand).1 = productHi at *
  generalize (mul128Manually baseReward multiplicand).2 = productLo at *
  have bound : baseReward * multiplicand < 2 ^ 64 * 2 ^ 64 := Nat.mul_lt_mul'' word small
  have highWord : productHi < 2 ^ 64 := by
    omega
  rw [div128By32Manually_eq positiveToo dword highWord lowWord]
  have quotientHigh : productHi / medianSize < 2 ^ 64 := (Nat.div_le_self _ _).trans_lt highWord
  have quotientLow : (productHi % medianSize * 2 ^ 64 + productLo) / medianSize < 2 ^ 64 :=
    quotient_lt (Nat.mod_lt _ positiveToo) lowWord
  have exact2 : productHi / medianSize * 2 ^ 64 +
      (productHi % medianSize * 2 ^ 64 + productLo) / medianSize =
        baseReward * multiplicand / medianSize := by
    rw [← exact1, div_limb productHi productLo positiveToo]
  generalize (productHi % medianSize * 2 ^ 64 + productLo) / medianSize = quotientLo at *
  generalize productHi / medianSize = quotientHi at *
  dsimp only
  rw [div128By32Manually_eq positiveToo dword quotientHigh quotientLow]
  have exact3 : quotientHi / medianSize * 2 ^ 64 +
      (quotientHi % medianSize * 2 ^ 64 + quotientLo) / medianSize =
        baseReward * multiplicand / medianSize / medianSize := by
    rw [← exact2, div_limb quotientHi quotientLo positiveToo]
  rw [← exact3] at below ⊢
  generalize (quotientHi % medianSize * 2 ^ 64 + quotientLo) / medianSize = rewardLo at *
  generalize quotientHi / medianSize = rewardHi at *
  have nothing : rewardHi = 0 := by
    omega
  rw [nothing, Nat.zero_mul, Nat.zero_add]

end Penalty

/-! ## The reward -/

section Reward

variable {baseReward medianSize : Nat}

theorem softMedian_pos (medianSize : Nat) : 0 < softMedian medianSize := by
  unfold softMedian
  split
  · decide
  · rename_i atLeast
    exact Nat.lt_of_lt_of_le (by decide) (Nat.le_of_not_lt atLeast)

/-- The reward in full: none above twice the median, the base reward up to the median, and the
exact quotient between. -/
theorem rewardFrom_eq (positive : 0 < baseReward) (word : baseReward < 2 ^ 64)
    (dword : softMedian medianSize < 2 ^ 32) (currentBlockSize : Nat) {height : Nat}
    (later : 1 ≤ height) :
    rewardFrom baseReward medianSize currentBlockSize height =
      if currentBlockSize ≤ softMedian medianSize then some baseReward
      else if 2 * softMedian medianSize < currentBlockSize then none
      else some (exactReward baseReward (softMedian medianSize) currentBlockSize) := by
  have double : 2 * softMedian medianSize % 2 ^ 64 = 2 * softMedian medianSize := by
    omega
  unfold rewardFrom
  dsimp only
  rw [double]
  by_cases within : currentBlockSize ≤ softMedian medianSize
  · rw [if_pos (Or.inl within), if_pos within]
  · have above : softMedian medianSize < currentBlockSize := Nat.lt_of_not_le within
    have neither : ¬(currentBlockSize ≤ softMedian medianSize ∨ height = 0) := by
      omega
    rw [if_neg neither, if_neg within]
    by_cases beyond : 2 * softMedian medianSize < currentBlockSize
    · rw [if_pos beyond, if_pos beyond]
    · rw [if_neg beyond, if_neg beyond,
        penalizedReward_eq positive word (softMedian_pos medianSize) dword above]
      have below := exactReward_lt positive (softMedian_pos medianSize) above
      dsimp only
      rw [if_neg (not_not_intro rfl), if_neg (not_not_intro below)]

/-- The reward found with words is the one of the quotient of natural numbers. -/
theorem rewardFrom_getBlockReward {isPos : Bool} {height : Nat} (positive : 0 < baseReward)
    (word : baseReward < 2 ^ 64) (dword : softMedian medianSize < 2 ^ 32) (later : 1 ≤ height)
    (base : getBaseBlockReward isPos height = baseReward) (currentBlockSize : Nat) :
    getBlockReward isPos medianSize currentBlockSize height =
      rewardFrom baseReward medianSize currentBlockSize height := by
  have median : max medianSize currencyBlockGrantedFullRewardZone = softMedian medianSize := by
    unfold softMedian
    split
    · rename_i below
      exact Nat.max_eq_right (Nat.le_of_lt below)
    · rename_i atLeast
      exact Nat.max_eq_left (Nat.le_of_not_lt atLeast)
  rw [rewardFrom_eq positive word dword currentBlockSize later]
  unfold getBlockReward
  dsimp only
  rw [base, median]
  by_cases within : currentBlockSize ≤ softMedian medianSize
  · rw [if_pos (Or.inl within), if_pos within]
  · have above : softMedian medianSize < currentBlockSize := Nat.lt_of_not_le within
    have neither : ¬(currentBlockSize ≤ softMedian medianSize ∨ height = 0) := by
      omega
    have factor := penalty_lt (softMedian_pos medianSize) above
    have small : (2 * softMedian medianSize - currentBlockSize) * currentBlockSize < 2 ^ 64 :=
      factor.trans (Nat.mul_self_lt_mul_self dword)
    have below := exactReward_lt positive (softMedian_pos medianSize) above
    unfold exactReward at below ⊢
    rw [if_neg neither, if_neg within, Nat.mod_eq_of_lt dword, Nat.mod_eq_of_lt small,
      if_pos (And.intro (below.trans word) below)]

/-- For every size from height 1 on: no reward exactly above twice the median, the base reward
up to the median, and between them the exact quotient, with both checks of the source met; the
reward never exceeds the base reward and never grows with the size. -/
theorem blockReward_penalty {height : Nat} (positive : 0 < baseReward)
    (word : baseReward < 2 ^ 64) (dword : softMedian medianSize < 2 ^ 32)
    (later : 1 ≤ height) :
    (∀ isPos, getBaseBlockReward isPos height = baseReward → ∀ currentBlockSize,
      getBlockReward isPos medianSize currentBlockSize height =
        rewardFrom baseReward medianSize currentBlockSize height) ∧
    (∀ currentBlockSize, rewardFrom baseReward medianSize currentBlockSize height = none ↔
      2 * softMedian medianSize < currentBlockSize) ∧
    (∀ currentBlockSize ≤ softMedian medianSize,
      rewardFrom baseReward medianSize currentBlockSize height = some baseReward) ∧
    (∀ currentBlockSize ≤ 2 * softMedian medianSize, softMedian medianSize < currentBlockSize →
      rewardFrom baseReward medianSize currentBlockSize height =
        some (baseReward * ((2 * softMedian medianSize - currentBlockSize) * currentBlockSize) /
          softMedian medianSize / softMedian medianSize)) ∧
    (∀ currentBlockSize ≤ 2 * softMedian medianSize, softMedian medianSize < currentBlockSize →
      (penalizedReward baseReward (softMedian medianSize) currentBlockSize).1 = 0 ∧
        (penalizedReward baseReward (softMedian medianSize) currentBlockSize).2 < baseReward) ∧
    (∀ currentBlockSize reward,
      rewardFrom baseReward medianSize currentBlockSize height = some reward →
        reward ≤ baseReward) ∧
    ∀ smaller larger rewardSmaller rewardLarger, smaller ≤ larger →
      rewardFrom baseReward medianSize smaller height = some rewardSmaller →
      rewardFrom baseReward medianSize larger height = some rewardLarger →
        rewardLarger ≤ rewardSmaller := by
  have closed := fun currentBlockSize =>
    rewardFrom_eq positive word dword currentBlockSize later
  have upper : ∀ currentBlockSize reward,
      rewardFrom baseReward medianSize currentBlockSize height = some reward →
        reward ≤ baseReward := by
    intro currentBlockSize reward given
    rw [closed] at given
    split at given
    · exact (Option.some.inj given).symm.le
    · rename_i exceeds
      split at given
      · cases given
      · cases given
        exact (exactReward_lt positive (softMedian_pos medianSize)
          (Nat.lt_of_not_le exceeds)).le
  refine ⟨fun isPos base size =>
    rewardFrom_getBlockReward positive word dword later base size, ?_, ?_, ?_, ?_, upper, ?_⟩
  · intro currentBlockSize
    rw [closed]
    constructor
    · intro refused
      split at refused
      · cases refused
      · split at refused
        · assumption
        · cases refused
    · intro beyond
      rw [if_neg (by omega), if_pos beyond]
  · intro currentBlockSize within
    rw [closed, if_pos within]
  · intro currentBlockSize within above
    rw [closed, if_neg (Nat.not_le_of_lt above), if_neg (Nat.not_lt_of_le within)]
    rfl
  · intro currentBlockSize within above
    rw [penalizedReward_eq positive word (softMedian_pos medianSize) dword above]
    exact ⟨rfl, exactReward_lt positive (softMedian_pos medianSize) above⟩
  · intro smaller larger rewardSmaller rewardLarger order givenSmaller givenLarger
    by_cases full : smaller ≤ softMedian medianSize
    · rw [closed, if_pos full] at givenSmaller
      cases givenSmaller
      exact upper larger rewardLarger givenLarger
    · have exceeds : ¬larger ≤ softMedian medianSize := by
        omega
      rw [closed, if_neg full] at givenSmaller
      rw [closed, if_neg exceeds] at givenLarger
      split at givenSmaller
      · cases givenSmaller
      · split at givenLarger
        · cases givenLarger
        · cases givenSmaller
          cases givenLarger
          exact exactReward_antitone (Nat.le_of_not_le full) order

/-- A word of reward with the least median, at a size one above it and at twice the median. -/
theorem blockReward_penalty_edges :
    rewardFrom 1000000007 0 125001 1 = some 1000000006 ∧
      rewardFrom 1000000007 0 250000 1 = some 0 ∧
      rewardFrom 1000000007 0 250001 1 = none := by
  have settled : ∀ size ≤ 2 * softMedian 0, softMedian 0 < size →
      rewardFrom 1000000007 0 size 1 = some (1000000007 *
        ((2 * softMedian 0 - size) * size) / softMedian 0 / softMedian 0) :=
    (blockReward_penalty (by decide) (by decide) (by decide) (Nat.le_refl 1)).2.2.2.1
  refine ⟨settled 125001 (by decide) (by decide), settled 250000 (by decide) (by decide), ?_⟩
  exact ((blockReward_penalty (by decide) (by decide) (by decide) (Nat.le_refl 1)).2.1
    250001).mpr (by decide)

end Reward
end Virie
