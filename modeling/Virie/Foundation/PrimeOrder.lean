import Mathlib

/-! # Multiples of prime order

Facts about multiples in a group, of elements that a prime takes to zero: a multiple depends on the
rest of its factor alone, and two answers to different challenges give the factor away. -/

namespace Foundation

namespace PrimeOrder

variable {G : Type} [AddCommGroup G] {l : Nat} {H P Q : G}

/-- Factors with the same rest give the same multiple. -/
theorem zsmul_congr (order : l • H = 0) {a b : Int} (same : (a : ZMod l) = b) : a • H = b • H := by
  obtain ⟨n, isMultiple⟩ := (ZMod.intCast_eq_intCast_iff_dvd_sub a b l).mp same
  have more : b = a + n * l := by rw [Int.mul_comm] at isMultiple; omega
  rw [more, add_zsmul, mul_zsmul, natCast_zsmul, order, zsmul_zero, add_zero]

theorem nsmul_congr (order : l • H = 0) {a b : Nat} (same : (a : ZMod l) = b) : a • H = b • H := by
  have whole := zsmul_congr order (a := a) (b := b) (by push_cast; exact same)
  rwa [natCast_zsmul, natCast_zsmul] at whole

/-- The response to a challenge opens the commitment. -/
theorem response (order : l • H = 0) {challenge answer secret nonce : Nat}
    (answers : (answer : ZMod l) = nonce - challenge * secret) :
    challenge • (secret • H) + answer • H = nonce • H := by
  rw [← mul_nsmul', ← add_nsmul]
  refine nsmul_congr order ?_
  push_cast
  rw [answers]
  ring

/-- Multiples by a number without a common factor tell elements apart. -/
theorem eq_of_nsmul {m : Nat} (coprime : Nat.Coprime m l) (order : l • P = 0) (orderToo : l • Q = 0)
    (same : m • P = m • Q) : P = Q := by
  have zero : m • (P - Q) = 0 := by rw [nsmul_sub, same, sub_self]
  have zeroToo : l • (P - Q) = 0 := by rw [nsmul_sub, order, orderToo, sub_self]
  have one : addOrderOf (P - Q) ∣ 1 := by
    rw [← coprime]
    exact Nat.dvd_gcd (addOrderOf_dvd_of_nsmul_eq_zero zero) (addOrderOf_dvd_of_nsmul_eq_zero zeroToo)
  exact sub_eq_zero.mp (AddMonoid.addOrderOf_eq_one_iff.mp (Nat.dvd_one.mp one))

/-- Two answers to different challenges determine one factor for every pair of elements that both
answers are about. -/
theorem exists_factor (prime : l.Prime) {challenge other : Nat} (answer otherAnswer : Nat)
    (differ : (challenge : ZMod l) ≠ other) :
    ∃ x, x < l ∧ ∀ {G : Type} [AddCommGroup G] (H P : G), l • H = 0 → l • P = 0 →
      challenge • P + answer • H = other • P + otherAnswer • H → P = x • H := by
  have : Fact l.Prime := ⟨prime⟩
  let x : ZMod l := (otherAnswer - answer) / (challenge - other)
  refine ⟨x.val, ZMod.val_lt x, fun {G} _ H P order orderToo same => ?_⟩
  have apart : (challenge - other : ZMod l) ≠ 0 := sub_ne_zero.mpr differ
  let inverse : Int := ((challenge - other : ZMod l)⁻¹).val
  have inverts : ((inverse * (challenge - other) : Int) : ZMod l) = (1 : Int) := by
    push_cast [inverse]
    rw [ZMod.natCast_val, ZMod.cast_id', id, inv_mul_cancel₀ apart]
  have known : ((inverse * (otherAnswer - answer) : Int) : ZMod l) = (x.val : Int) := by
    push_cast [inverse, x]
    rw [ZMod.natCast_val, ZMod.cast_id', id, ZMod.natCast_val, ZMod.cast_id', id, div_eq_inv_mul]
  have difference : ((challenge : Int) - other) • P = ((otherAnswer : Int) - answer) • H := by
    rw [sub_zsmul, sub_zsmul, natCast_zsmul, natCast_zsmul, natCast_zsmul, natCast_zsmul,
      ← sub_eq_add_neg, ← sub_eq_add_neg, sub_eq_sub_iff_add_eq_add, same, add_comm]
  calc P = (1 : Int) • P := (one_zsmul P).symm
    _ = (inverse * (challenge - other)) • P := (zsmul_congr orderToo inverts).symm
    _ = (inverse * (otherAnswer - answer)) • H := by rw [mul_zsmul, difference, ← mul_zsmul]
    _ = (x.val : Int) • H := zsmul_congr order known
    _ = x.val • H := natCast_zsmul H x.val

/-- The factor of an element of prime order is unique below the order. -/
theorem factor_unique (prime : l.Prime) (order : l • H = 0) (notZero : H ≠ 0) {a b : Nat}
    (small : a < l) (smallToo : b < l) (same : a • H = b • H) : a = b := by
  have isOrder : addOrderOf H = l := by
    have : Fact l.Prime := ⟨prime⟩
    exact addOrderOf_eq_prime order notZero
  have equal := (nsmul_inj_mod.mp same)
  rwa [isOrder, Nat.mod_eq_of_lt small, Nat.mod_eq_of_lt smallToo] at equal

end PrimeOrder

end Foundation
