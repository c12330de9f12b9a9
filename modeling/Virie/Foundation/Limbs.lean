import Mathlib

/-! # Arithmetic by limbs

Products of numbers of two limbs from the products of the limbs, and division by one limb after
the other, over an arbitrary base. -/

namespace Foundation

/-- The product of two numbers of two limbs. -/
theorem mul_limbs (base a b c d : Nat) :
    (a * base + b) * (c * base + d) =
      a * c * (base * base) + (a * d + b * c) * base + b * d := by
  ring

section Division

variable {base divisor : Nat} (high low : Nat)

theorem split_limb (divisor : Nat) :
    high * base + low =
      (high % divisor * base + low) + divisor * (high / divisor * base) := by
  conv_lhs => rw [← Nat.mod_add_div high divisor]
  ring

/-- Dividing a number of two parts divides the high part first and then what is left of it with
the low part. -/
theorem div_limb (positive : 0 < divisor) :
    (high * base + low) / divisor =
      high / divisor * base + (high % divisor * base + low) / divisor := by
  rw [split_limb high low divisor, Nat.add_mul_div_left _ _ positive, Nat.add_comm]

theorem mod_limb (divisor : Nat) :
    (high * base + low) % divisor = (high % divisor * base + low) % divisor := by
  rw [split_limb high low divisor, Nat.add_mul_mod_self_left]

/-- What is left of a division and one more limb give a quotient of one limb. -/
theorem quotient_lt {rest : Nat} (left : rest < divisor) {limb : Nat} (small : limb < base) :
    (rest * base + limb) / divisor < base := by
  rw [Nat.div_lt_iff_lt_mul (Nat.zero_lt_of_lt left)]
  calc
    rest * base + limb < rest * base + base := Nat.add_lt_add_left small _
    _ = (rest + 1) * base := by ring
    _ ≤ divisor * base := Nat.mul_le_mul_right base left
    _ = base * divisor := Nat.mul_comm divisor base

end Division
end Foundation
