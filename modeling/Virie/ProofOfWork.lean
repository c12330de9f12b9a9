import Virie.Difficulty

/-! # The proof-of-work test as an inequality

A hash is read as a big-endian number: its bytes are reversed, and the words of the test
are read from the reversed bytes. For difficulties below the largest word the carries of
the four products say exactly whether the product of hash and difficulty stays below
`2 ^ 256`. From the largest word on the test refuses every hash, because the words are
merged without a shift and the comparison is the other way round. -/

namespace Virie

/-! ## Bytes and words -/

/-- The number that the bytes of a hash write, the most significant one first. -/
def bigEndian (bytes : List UInt8) : Nat := Nat.ofDigits 256 (bytes.reverse.map UInt8.toNat)

/-- The hash of some bytes. -/
def Hash.ofBytes (bytes : List UInt8) : Hash := ⟨bigEndian bytes⟩

theorem digits_lt (bytes : List UInt8) : ∀ digit ∈ bytes.map UInt8.toNat, digit < 256 := by
  intro digit member
  obtain ⟨byte, _, rfl⟩ := List.mem_map.mp member
  exact byte.toNat_lt

theorem bigEndian_lt {bytes : List UInt8} (size : bytes.length = 32) :
    bigEndian bytes < 2 ^ 256 := by
  have bound := Nat.ofDigits_lt_base_pow_length (b := 256) (by decide) (digits_lt bytes.reverse)
  rw [List.length_map, List.length_reverse, size] at bound
  exact bound

/-- A word of a hash is read from eight of its reversed bytes, least significant one first. -/
theorem word_ofBytes (bytes : List UInt8) (i : Nat) :
    (Hash.ofBytes bytes).word i =
      Nat.ofDigits 256 (((bytes.reverse.drop (8 * i)).take 8).map UInt8.toNat) := by
  have base : (2 : Nat) ^ (64 * i) = 256 ^ (8 * i) := by
    rw [show (256 : Nat) = 2 ^ 8 from rfl, ← pow_mul]
    congr 1
    omega
  unfold Hash.word Hash.ofBytes bigEndian
  rw [base, show (2 : Nat) ^ 64 = 256 ^ 8 from rfl,
    Nat.ofDigits_div_pow_eq_ofDigits_drop _ (by decide) _ (digits_lt _),
    Nat.ofDigits_mod_pow_eq_ofDigits_take _ (by decide), List.map_take, List.map_drop]
  exact fun digit member => digits_lt _ digit (List.mem_of_mem_drop member)

/-! ## Carries -/

theorem mulU64_eq {a b : Nat} (left : a < 2 ^ 64) (right : b < 2 ^ 64) :
    (mulU64 a b).1 < 2 ^ 64 ∧ (mulU64 a b).2 < 2 ^ 64 ∧
      (mulU64 a b).1 + 2 ^ 64 * (mulU64 a b).2 = a * b := by
  have product : a * b < 2 ^ 64 * 2 ^ 64 := Nat.mul_lt_mul'' left right
  have high : a * b / 2 ^ 64 < 2 ^ 64 := Nat.div_lt_of_lt_mul product
  refine ⟨Nat.mod_lt _ (by decide), Nat.mod_lt _ (by decide), ?_⟩
  unfold mulU64
  dsimp only
  rw [Nat.mod_eq_of_lt high]
  exact Nat.mod_add_div _ _

theorem cadd_eq {a b : Nat} (left : a < 2 ^ 64) (right : b < 2 ^ 64) :
    cadd a b = decide (2 ^ 64 ≤ a + b) := by
  refine decide_eq_decide.mpr ?_
  unfold addU64
  omega

theorem cadc_eq {a b : Nat} (left : a < 2 ^ 64) (right : b < 2 ^ 64) (c : Bool) :
    cadc a b c = decide (2 ^ 64 ≤ a + b + c.toNat) := by
  unfold cadc addU64
  cases c with
  | false =>
    rw [Bool.false_and, Bool.or_false, Bool.toNat_false]
    exact decide_eq_decide.mpr (by omega)
  | true =>
    rw [Bool.true_and, Bool.toNat_true, Bool.eq_iff_iff]
    simp only [Bool.or_eq_true, decide_eq_true_eq, beq_iff_eq]
    omega

/-- A hash in its four words. -/
theorem words_eq {h : Hash} (size : h.val < 2 ^ 256) :
    h.val = h.word 0 + 2 ^ 64 * h.word 1 + 2 ^ 128 * h.word 2 + 2 ^ 192 * h.word 3 := by
  simp only [Hash.word]
  omega

theorem word_lt (h : Hash) (i : Nat) : h.word i < 2 ^ 64 := Nat.mod_lt _ (by decide)

/-! ## The two paths -/

/-- Below the largest word the test is the inequality. -/
theorem checkHash_small {h : Hash} {difficulty : Nat} (size : h.val < 2 ^ 256)
    (small : difficulty < 2 ^ 64 - 1) :
    checkHash h difficulty = decide (h.val * difficulty < 2 ^ 256) := by
  have word : difficulty < 2 ^ 64 := by omega
  obtain ⟨top, high3, product3⟩ := mulU64_eq (word_lt h 3) word
  obtain ⟨low0, high0, product0⟩ := mulU64_eq (word_lt h 0) word
  obtain ⟨low1, high1, product1⟩ := mulU64_eq (word_lt h 1) word
  obtain ⟨low2, high2, product2⟩ := mulU64_eq (word_lt h 2) word
  have whole : h.val * difficulty = h.word 0 * difficulty + 2 ^ 64 * (h.word 1 * difficulty) +
      2 ^ 128 * (h.word 2 * difficulty) + 2 ^ 192 * (h.word 3 * difficulty) := by
    rw [words_eq size]
    ring
  rw [whole, ← product0, ← product1, ← product2, ← product3]
  unfold checkHash
  rw [if_pos small]
  generalize mulU64 (h.word 0) difficulty = p0 at *
  generalize mulU64 (h.word 1) difficulty = p1 at *
  generalize mulU64 (h.word 2) difficulty = p2 at *
  generalize mulU64 (h.word 3) difficulty = p3 at *
  obtain ⟨l0, h0⟩ := p0
  obtain ⟨l1, h1⟩ := p1
  obtain ⟨l2, h2⟩ := p2
  obtain ⟨l3, h3⟩ := p3
  dsimp only at *
  by_cases none : h3 = 0
  · subst none
    rw [if_neg (by decide), cadd_eq high0 low1, cadc_eq high1 low2, cadc_eq high2 top,
      ← decide_not]
    refine decide_eq_decide.mpr ?_
    -- each carry is the quotient of the sum below it
    by_cases first : 2 ^ 64 ≤ h0 + l1
    · rw [decide_eq_true first, Bool.toNat_true]
      by_cases second : 2 ^ 64 ≤ h1 + l2 + 1
      · rw [decide_eq_true second, Bool.toNat_true]
        omega
      · rw [decide_eq_false second, Bool.toNat_false]
        omega
    · rw [decide_eq_false first, Bool.toNat_false]
      by_cases second : 2 ^ 64 ≤ h1 + l2 + 0
      · rw [decide_eq_true second, Bool.toNat_true]
        omega
      · rw [decide_eq_false second, Bool.toNat_false]
        omega
  · rw [if_pos (bne_iff_ne.mpr none)]
    symm
    refine decide_eq_false ?_
    omega

/-- From the largest word on the test refuses every hash. -/
theorem checkHash_wide {h : Hash} {difficulty : Nat} (wide : 2 ^ 64 - 1 ≤ difficulty)
    (bounded : difficulty < 2 ^ 128) : checkHash h difficulty = false := by
  unfold checkHash
  rw [if_neg (Nat.not_lt.mpr wide)]
  by_cases top : h.word 3 > 0
  · rw [if_pos top]
  · rw [if_neg top]
    refine decide_eq_false ?_
    have merged : h.word 2 ||| h.word 1 ||| h.word 0 < 2 ^ 64 :=
      Nat.or_lt_two_pow (Nat.or_lt_two_pow (word_lt h 2) (word_lt h 1)) (word_lt h 0)
    have product := Nat.mul_lt_mul'' merged bounded
    omega

/-- A harder test accepts no more hashes. -/
theorem checkHash_antitone {h : Hash} {easier harder : Nat} (size : h.val < 2 ^ 256)
    (order : easier ≤ harder) (bounded : harder < 2 ^ 128)
    (passes : checkHash h harder = true) : checkHash h easier = true := by
  by_cases small : harder < 2 ^ 64 - 1
  · rw [checkHash_small size small, decide_eq_true_iff] at passes
    rw [checkHash_small size (Nat.lt_of_le_of_lt order small), decide_eq_true_iff]
    exact Nat.lt_of_le_of_lt (Nat.mul_le_mul_left _ order) passes
  · rw [checkHash_wide (Nat.le_of_not_lt small) bounded] at passes
    cases passes

/-! ## The inequality -/

/-- The test is the inequality exactly where the difficulty is below the largest word or the
product is too large. -/
theorem checkHash_iff_product {bytes : List UInt8} {difficulty : Nat} (size : bytes.length = 32)
    (bounded : difficulty < 2 ^ 128) :
    (checkHash (.ofBytes bytes) difficulty = true ↔ bigEndian bytes * difficulty < 2 ^ 256) ↔
      difficulty < 2 ^ 64 - 1 ∨ 2 ^ 256 ≤ bigEndian bytes * difficulty := by
  by_cases small : difficulty < 2 ^ 64 - 1
  · rw [checkHash_small (h := .ofBytes bytes) (bigEndian_lt size) small, decide_eq_true_iff]
    simp only [Hash.ofBytes, small, true_or]
  · rw [checkHash_wide (Nat.le_of_not_lt small) bounded]
    simp only [Bool.false_eq_true, false_iff, Nat.not_lt, small, false_or]

theorem checkHash_iff_product_one :
    (checkHash (.ofBytes (List.replicate 32 255)) 1 = true ↔
        bigEndian (List.replicate 32 255) * 1 < 2 ^ 256) ↔
      1 < 2 ^ 64 - 1 ∨ 2 ^ 256 ≤ bigEndian (List.replicate 32 255) * 1 :=
  checkHash_iff_product (by decide) (by decide)

/-- The smallest hash fails at the difficulty of the largest word. -/
theorem checkHash_wide_refuses :
    ¬ ∀ (bytes : List UInt8) (difficulty : Nat), bytes.length = 32 → 1 ≤ difficulty →
      difficulty < 2 ^ 128 →
      (checkHash (.ofBytes bytes) difficulty = true ↔
        bigEndian bytes * difficulty < 2 ^ 256) := by
  intro always
  have refused := (always (List.replicate 32 0) (2 ^ 64 - 1) (by decide) (by decide)
    (by decide)).mpr (by decide)
  rw [checkHash_wide (Nat.le_refl _) (by decide)] at refused
  cases refused

end Virie
