import Mathlib
import Virie.Config
import Virie.Foundation.Text

/-! # Amounts as text

An amount is printed in coins with a point, and read back by moving the point to the end: zeros
beyond the display precision are cut off, the point is taken out, missing places are filled with
zeros, and what remains is read as an integer. Both printed forms are read back as the amount
itself, and the texts that are read are the decimal numbers of no more places than there are,
whose value in the smallest unit fits in a word. -/

open Foundation

namespace Virie

/-- The places of an amount after its point. -/
def currencyDisplayDecimalPoint : Nat := 8

/-! ## Reading -/

def isSpace (c : Char) : Bool := c == ' ' || (decide (9 ≤ c.toNat) && decide (c.toNat ≤ 13))

def trim (text : List Char) : List Char := trimBoth isSpace text

/-- The conversion of a text of digits into a word: it fails on the empty text and on a value
that does not fit. -/
def lexicalCast (text : List Char) : Option Nat :=
  if text.isEmpty then none
  else if Nat.ofDigitChars 10 text 0 < 2 ^ 64 then some (Nat.ofDigitChars 10 text 0)
  else none

def getXtypeFromString (strId : List Char) : Option Nat :=
  if strId.all Char.isDigit then lexicalCast strId else none

/-- Cut zeros off while the fraction is longer than the display precision: the new size of the
fraction and the text. -/
def stripZeros : Nat → List Char → Nat × List Char
  | 0, strAmount => (0, strAmount)
  | fractionSize + 1, strAmount =>
    if currencyDisplayDecimalPoint < fractionSize + 1 ∧ strAmount.getLast? = some '0' then
      stripZeros fractionSize strAmount.dropLast
    else (fractionSize + 1, strAmount)

/-- The size of the fraction and the text without its point. -/
def withoutPoint (strAmount : List Char) : Option (Nat × List Char) :=
  match strAmount.findIdx? (· == '.') with
  | some pointIndex =>
    let stripped := stripZeros (strAmount.length - pointIndex - 1) strAmount
    if currencyDisplayDecimalPoint < stripped.1 then none
    else some (stripped.1, stripped.2.eraseIdx pointIndex)
  | none => some (0, strAmount)

def parseAmount (strAmount : List Char) : Option Nat :=
  (withoutPoint (trim strAmount)).bind fun pointless =>
    if pointless.2.isEmpty then none
    else if pointless.1 < currencyDisplayDecimalPoint then
      getXtypeFromString
        (pointless.2 ++ List.replicate (currencyDisplayDecimalPoint - pointless.1) '0')
    else getXtypeFromString pointless.2

/-! ## Printing -/

/-- Zeros in front, up to a size. -/
def padZeros (size : Nat) (text : List Char) : List Char :=
  List.replicate (size - text.length) '0' ++ text

def printFixedDecimalPoint (amount decimalPoint : Nat) : List Char :=
  let s := padZeros (decimalPoint + 1) (Nat.toDigits 10 amount)
  s.take (s.length - decimalPoint) ++ '.' :: s.drop (s.length - decimalPoint)

def printMoney (amount : Nat) : List Char :=
  printFixedDecimalPoint amount currencyDisplayDecimalPoint

def printMoneyBrief (amount : Nat) : List Char :=
  let remainder := amount % coin
  let amount := amount / coin
  if remainder = 0 then Nat.toDigits 10 amount ++ ['.', '0']
  else
    let r := padZeros currencyDisplayDecimalPoint (Nat.toDigits 10 remainder)
    Nat.toDigits 10 amount ++ '.' :: r.rdropWhile (· == '0')

/-! ## Decimal numbers -/

/-- A text of digits with at most one point and at least one digit. -/
structure DecimalText (text whole fraction : List Char) : Prop where
  wholeDigits : ∀ c ∈ whole, c.isDigit
  fractionDigits : ∀ c ∈ fraction, c.isDigit
  form : (text = whole ∧ fraction = []) ∨ text = whole ++ '.' :: fraction
  nonempty : whole ++ fraction ≠ []

/-- The number a decimal text stands for. -/
def coins (whole fraction : List Char) : ℚ :=
  Nat.ofDigitChars 10 (whole ++ fraction) 0 / 10 ^ fraction.length

/-- No digit but zero stands beyond the display precision. -/
def WithinPrecision (fraction : List Char) : Prop :=
  ∀ c ∈ fraction.drop currencyDisplayDecimalPoint, c = '0'

section Reading

/-! ## The point -/

theorem isDigit_ne_point {c : Char} (digit : c.isDigit = true) : (c == '.') = false := by
  apply beq_false_of_ne
  rintro rfl
  exact absurd digit (by decide)

theorem isDigit_not_space {c : Char} (digit : c.isDigit = true) : isSpace c = false := by
  have range : 48 ≤ c.toNat := by
    unfold Char.isDigit at digit
    rw [Bool.and_eq_true, decide_eq_true_eq] at digit
    exact UInt32.le_iff_toNat_le.mp digit.1
  have apart : (c == ' ') = false := by
    apply beq_false_of_ne
    rintro rfl
    exact absurd digit (by decide)
  unfold isSpace
  rw [apart, Bool.false_or, decide_eq_false (by omega : ¬c.toNat ≤ 13), Bool.and_false]

/-- The zeros that are cut off: what is kept of the fraction is longer than the precision only
if it ends in another character. -/
theorem stripZeros_eq (whole fraction : List Char) :
    ∃ kept zeros, fraction = kept ++ List.replicate zeros '0' ∧
      stripZeros fraction.length (whole ++ '.' :: fraction) =
        (kept.length, whole ++ '.' :: kept) ∧
      (zeros ≠ 0 → currencyDisplayDecimalPoint ≤ kept.length) ∧
      (currencyDisplayDecimalPoint < kept.length → kept.getLast? ≠ some '0') := by
  induction fraction using List.reverseRecOn with
  | nil =>
    exact ⟨[], 0, rfl, rfl, fun none => absurd rfl none, fun long => absurd long (by decide)⟩
  | append_singleton fraction c ih =>
    have last : (whole ++ '.' :: (fraction ++ [c])).getLast? = some c := by
      rw [← List.cons_append, ← List.append_assoc, List.getLast?_concat]
    rw [List.length_append, List.length_singleton, stripZeros, last]
    by_cases cut : currencyDisplayDecimalPoint < fraction.length + 1 ∧ some c = some '0'
    · obtain ⟨kept, zeros, split, stripped, full, ends⟩ := ih
      rw [if_pos cut, ← List.cons_append, ← List.append_assoc, List.dropLast_concat, stripped]
      refine ⟨kept, zeros + 1, ?_, rfl, fun _ => ?_, ends⟩
      · rw [split, Option.some.inj cut.2, List.replicate_succ', List.append_assoc]
      · by_cases some : zeros = 0
        · rw [split, some, List.replicate_zero, List.append_nil] at cut
          exact Nat.le_of_lt_succ cut.1
        · exact full some
    · rw [if_neg cut]
      refine ⟨fraction ++ [c], 0, (List.append_nil _).symm, ?_, fun none => absurd rfl none, ?_⟩
      · rw [List.length_append, List.length_singleton]
      · intro long zero
        rw [List.length_append, List.length_singleton] at long
        rw [List.getLast?_concat] at zero
        exact cut ⟨long, zero⟩

theorem findIdx?_point {whole : List Char} (digits : ∀ c ∈ whole, c.isDigit)
    (rest : List Char) :
    (whole ++ '.' :: rest).findIdx? (· == '.') = some whole.length := by
  induction whole with
  | nil => rfl
  | cons c whole ih =>
    rw [List.cons_append, List.findIdx?_cons, isDigit_ne_point (digits c List.mem_cons_self),
      ih fun d listed => digits d (List.mem_cons_of_mem c listed)]
    rfl

theorem findIdx?_pointless {whole : List Char} (digits : ∀ c ∈ whole, c.isDigit) :
    whole.findIdx? (· == '.') = none := by
  rw [List.findIdx?_eq_none_iff]
  intro c listed
  exact isDigit_ne_point (digits c listed)

theorem split_point {text : List Char} {pointIndex : Nat}
    (found : text.findIdx? (· == '.') = some pointIndex) :
    ∃ whole fraction, text = whole ++ '.' :: fraction ∧ whole.length = pointIndex := by
  obtain ⟨inside, point, -⟩ := List.findIdx?_eq_some_iff_getElem.mp found
  refine ⟨text.take pointIndex, text.drop (pointIndex + 1), ?_, ?_⟩
  · rw [← eq_of_beq point, ← List.drop_eq_getElem_cons inside, List.take_append_drop]
  · exact List.length_take_of_le inside.le

/-- Taking the point out, with the zeros beyond the precision. -/
theorem withoutPoint_point (whole fraction : List Char)
    (found : (whole ++ '.' :: fraction).findIdx? (· == '.') = some whole.length) :
    ∃ kept zeros, fraction = kept ++ List.replicate zeros '0' ∧
      (zeros ≠ 0 → currencyDisplayDecimalPoint ≤ kept.length) ∧
      (currencyDisplayDecimalPoint < kept.length → kept.getLast? ≠ some '0') ∧
      withoutPoint (whole ++ '.' :: fraction) =
        if currencyDisplayDecimalPoint < kept.length then none
        else some (kept.length, whole ++ kept) := by
  obtain ⟨kept, zeros, split, stripped, full, ends⟩ := stripZeros_eq whole fraction
  refine ⟨kept, zeros, split, full, ends, ?_⟩
  have size : (whole ++ '.' :: fraction).length - whole.length - 1 = fraction.length := by
    rw [List.length_append, List.length_cons]
    omega
  have erased : (whole ++ '.' :: kept).eraseIdx whole.length = whole ++ kept := by
    rw [List.eraseIdx_append_of_length_le (Nat.le_refl _), Nat.sub_self]
    rfl
  unfold withoutPoint
  rw [found]
  dsimp only
  rw [size, stripped]
  dsimp only
  rw [erased]

/-! ## The value -/

theorem coins_zeros (whole kept : List Char) (zeros : Nat) :
    coins whole (kept ++ List.replicate zeros '0') = coins whole kept := by
  have power : (10 : ℚ) ^ zeros ≠ 0 := pow_ne_zero zeros (by norm_num)
  unfold coins
  rw [← List.append_assoc, Nat.ofDigitChars_append, Nat.ofDigitChars_replicate_zero,
    List.length_append, List.length_replicate, Nat.cast_mul, Nat.cast_pow, Nat.cast_ofNat, pow_add,
    mul_comm, mul_div_mul_right _ _ power]

theorem units_eq {whole kept : List Char} (short : kept.length ≤ currencyDisplayDecimalPoint) :
    (Nat.ofDigitChars 10 (whole ++ kept ++
        List.replicate (currencyDisplayDecimalPoint - kept.length) '0') 0 : ℚ) =
      coins whole kept * 10 ^ currencyDisplayDecimalPoint := by
  have split : (10 : ℚ) ^ currencyDisplayDecimalPoint =
      10 ^ kept.length * 10 ^ (currencyDisplayDecimalPoint - kept.length) := by
    rw [← pow_add, Nat.add_sub_cancel' short]
  have power : (10 : ℚ) ^ kept.length ≠ 0 := pow_ne_zero _ (by norm_num)
  unfold coins
  rw [Nat.ofDigitChars_append, Nat.ofDigitChars_replicate_zero, Nat.cast_mul, Nat.cast_pow,
    Nat.cast_ofNat, split, ← mul_assoc, div_mul_cancel₀ _ power, mul_comm]

/-! ## Reading -/

/-- What is read once the point is out. -/
theorem parseAmount_eq {text digits : List Char} {fractionSize : Nat}
    (pointless : withoutPoint (trim text) = some (fractionSize, digits))
    (nonempty : digits ≠ []) :
    parseAmount text = getXtypeFromString
      (digits ++ List.replicate (currencyDisplayDecimalPoint - fractionSize) '0') := by
  unfold parseAmount
  rw [pointless, Option.bind_some]
  dsimp only
  rw [if_neg (by rwa [List.isEmpty_iff])]
  split
  · rfl
  · rename_i atLeast
    rw [Nat.sub_eq_zero_of_le (Nat.le_of_not_lt atLeast), List.replicate_zero, List.append_nil]

theorem getXtypeFromString_digits {digits : List Char} (nonempty : digits ≠ [])
    (all : ∀ c ∈ digits, c.isDigit) :
    getXtypeFromString digits =
      if Nat.ofDigitChars 10 digits 0 < 2 ^ 64 then some (Nat.ofDigitChars 10 digits 0)
      else none := by
  unfold getXtypeFromString lexicalCast
  rw [if_pos (List.all_eq_true.mpr all), if_neg (by rwa [List.isEmpty_iff])]

theorem isDigit_zeros {zeros : Nat} {c : Char} (listed : c ∈ List.replicate zeros '0') :
    c.isDigit = true := by
  rw [(List.mem_replicate.mp listed).2]
  rfl

/-- The digits that are read, from those before and after the point. -/
theorem getXtypeFromString_kept {whole kept : List Char} (nonempty : whole ++ kept ≠ [])
    (wholeDigits : ∀ c ∈ whole, c.isDigit) (keptDigits : ∀ c ∈ kept, c.isDigit)
    (short : kept.length ≤ currencyDisplayDecimalPoint) :
    ∃ amount : Nat, (amount : ℚ) = coins whole kept * 10 ^ currencyDisplayDecimalPoint ∧
      getXtypeFromString (whole ++ kept ++
        List.replicate (currencyDisplayDecimalPoint - kept.length) '0') =
          if amount < 2 ^ 64 then some amount else none := by
  refine ⟨_, units_eq short, getXtypeFromString_digits ?_ ?_⟩
  · exact List.append_ne_nil_of_left_ne_nil nonempty _
  · intro c listed
    rcases List.mem_append.mp listed with digits | zeros
    · rcases List.mem_append.mp digits with before | after
      · exact wholeDigits c before
      · exact keptDigits c after
    · exact isDigit_zeros zeros

variable {text whole fraction : List Char}

theorem kept_short {kept : List Char} {zeros : Nat}
    (within : WithinPrecision (kept ++ List.replicate zeros '0'))
    (ends : currencyDisplayDecimalPoint < kept.length → kept.getLast? ≠ some '0') :
    kept.length ≤ currencyDisplayDecimalPoint := by
  by_contra long
  have longer := Nat.lt_of_not_le long
  apply ends longer
  have nonempty : kept ≠ [] := List.ne_nil_of_length_pos (Nat.zero_lt_of_lt longer)
  have listed : kept.getLast nonempty ∈
      (kept ++ List.replicate zeros '0').drop currencyDisplayDecimalPoint := by
    rw [List.drop_append_of_le_length longer.le]
    apply List.mem_append_left
    have left : kept.drop currencyDisplayDecimalPoint ≠ [] := by
      apply List.ne_nil_of_length_pos
      rw [List.length_drop]
      omega
    rw [← List.getLast_drop left]
    exact List.getLast_mem left
  rw [List.getLast?_eq_some_getLast nonempty, within _ listed]

/-- A decimal text within the display precision is read as its value in the smallest unit, if
that fits in a word. -/
theorem parseAmount_decimal (decimal : DecimalText (trim text) whole fraction)
    (within : WithinPrecision fraction) :
    ∃ amount : Nat, (amount : ℚ) = coins whole fraction * 10 ^ currencyDisplayDecimalPoint ∧
      parseAmount text = if amount < 2 ^ 64 then some amount else none := by
  rcases decimal.form with ⟨pointless, none⟩ | pointed
  · subst none
    have nonempty : whole ≠ [] := by
      intro empty
      exact decimal.nonempty (by rw [empty]; rfl)
    have given : withoutPoint (trim text) = some (0, whole) := by
      unfold withoutPoint
      rw [pointless, findIdx?_pointless decimal.wholeDigits]
    rw [parseAmount_eq given nonempty]
    have read := getXtypeFromString_kept decimal.nonempty decimal.wholeDigits decimal.fractionDigits
      (Nat.zero_le _)
    rw [List.append_nil] at read
    exact read
  · obtain ⟨kept, zeros, split, full, ends, given⟩ :=
      withoutPoint_point whole fraction (findIdx?_point decimal.wholeDigits fraction)
    rw [split] at within
    have short := kept_short within ends
    rw [← pointed, if_neg (Nat.not_lt_of_le short)] at given
    have nonempty : whole ++ kept ≠ [] := by
      intro empty
      obtain ⟨noWhole, noKept⟩ := List.append_eq_nil_iff.mp empty
      apply decimal.nonempty
      have noZeros : zeros = 0 := by
        by_contra cut
        have long := full cut
        rw [noKept] at long
        exact absurd long (by decide)
      rw [split, noWhole, noKept, noZeros]
      rfl
    rw [parseAmount_eq given nonempty, split, coins_zeros]
    refine getXtypeFromString_kept nonempty decimal.wholeDigits (fun c listed => ?_) short
    apply decimal.fractionDigits
    rw [split]
    exact List.mem_append_left _ listed

/-- What is read is a decimal text within the display precision. -/
theorem decimal_of_parseAmount {amount : Nat} (read : parseAmount text = some amount) :
    ∃ whole fraction, DecimalText (trim text) whole fraction ∧ WithinPrecision fraction := by
  unfold parseAmount at read
  cases pointless : withoutPoint (trim text) with
  | none =>
    rw [pointless] at read
    cases read
  | some prepared =>
    have nonempty : prepared.2 ≠ [] := by
      intro empty
      rw [pointless, Option.bind_some, empty] at read
      cases read
    have digits : ∀ c ∈ prepared.2, c.isDigit := by
      have settled := (parseAmount_eq pointless nonempty).symm.trans read
      unfold getXtypeFromString at settled
      split at settled
      · rename_i all
        intro c listed
        exact List.all_eq_true.mp all c (List.mem_append_left _ listed)
      · cases settled
    cases found : (trim text).findIdx? (· == '.') with
    | none =>
      unfold withoutPoint at pointless
      rw [found] at pointless
      cases pointless
      refine ⟨trim text, [], ⟨digits, ?_, Or.inl ⟨rfl, rfl⟩, ?_⟩, ?_⟩
      · intro c listed
        cases listed
      · rw [List.append_nil]
        exact nonempty
      · intro c listed
        rw [List.drop_nil] at listed
        cases listed
    | some pointIndex =>
      obtain ⟨whole, fraction, pointed, rfl⟩ := split_point found
      rw [pointed] at found pointless
      obtain ⟨kept, zeros, split, -, -, given⟩ := withoutPoint_point whole fraction found
      rw [given] at pointless
      split at pointless
      · cases pointless
      · rename_i atMost
        cases pointless
        have short := Nat.le_of_not_lt atMost
        refine ⟨whole, fraction, ⟨?_, ?_, Or.inr pointed, ?_⟩, ?_⟩
        · intro c listed
          exact digits c (List.mem_append_left _ listed)
        · intro c listed
          rw [split] at listed
          rcases List.mem_append.mp listed with early | late
          · exact digits c (List.mem_append_right _ early)
          · exact isDigit_zeros late
        · rw [split, ← List.append_assoc]
          exact List.append_ne_nil_of_left_ne_nil nonempty _
        · intro c listed
          rw [split, List.drop_append, List.drop_eq_nil_of_le short, List.nil_append] at listed
          exact (List.mem_replicate.mp (List.mem_of_mem_drop listed)).2

end Reading

section Printing

/-! ## Printing -/

variable {text whole fraction : List Char}

theorem trim_eq {text : List Char} (visible : ∀ c ∈ text, isSpace c = false) :
    trim text = text :=
  trimBoth_eq (fun nonempty => visible _ (List.head_mem nonempty))
    fun nonempty => visible _ (List.getLast_mem nonempty)

theorem DecimalText.trim (decimal : DecimalText text whole fraction) : trim text = text := by
  apply trim_eq
  intro c listed
  rcases decimal.form with ⟨rfl, -⟩ | rfl
  · exact isDigit_not_space (decimal.wholeDigits c listed)
  · rcases List.mem_append.mp listed with before | after
    · exact isDigit_not_space (decimal.wholeDigits c before)
    · rcases List.mem_cons.mp after with rfl | later
      · rfl
      · exact isDigit_not_space (decimal.fractionDigits c later)

/-- The digits before and after the point are determined by the text. -/
theorem DecimalText.unique {wholeToo fractionToo : List Char}
    (decimal : DecimalText text whole fraction)
    (decimalToo : DecimalText text wholeToo fractionToo) :
    whole = wholeToo ∧ fraction = fractionToo := by
  have digits := decimal.wholeDigits
  have digitsToo := decimalToo.wholeDigits
  rcases decimal.form with ⟨plain, none⟩ | pointed
  · rcases decimalToo.form with ⟨plainToo, noneToo⟩ | pointedToo
    · exact ⟨plain.symm.trans plainToo, none.trans noneToo.symm⟩
    · have found := findIdx?_point digitsToo fractionToo
      rw [← pointedToo, plain, findIdx?_pointless digits] at found
      cases found
  · have found := findIdx?_point digits fraction
    rw [← pointed] at found
    rcases decimalToo.form with ⟨plainToo, -⟩ | pointedToo
    · rw [plainToo, findIdx?_pointless digitsToo] at found
      cases found
    · rw [pointedToo, findIdx?_point digitsToo fractionToo] at found
      have same := List.append_inj (pointed.symm.trans pointedToo) (Option.some.inj found).symm
      exact ⟨same.1, (List.cons.inj same.2).2⟩

/-- A printed amount is read back. -/
theorem parseAmount_printed (decimal : DecimalText text whole fraction)
    (short : fraction.length ≤ currencyDisplayDecimalPoint) {amount : Nat}
    (value : coins whole fraction * 10 ^ currencyDisplayDecimalPoint = amount)
    (word : amount < 2 ^ 64) : parseAmount text = some amount := by
  have within : WithinPrecision fraction := by
    intro c listed
    rw [List.drop_eq_nil_of_le short] at listed
    cases listed
  have trimmed : DecimalText (Virie.trim text) whole fraction := by
    rw [decimal.trim]
    exact decimal
  obtain ⟨read, valueRead, settled⟩ := parseAmount_decimal trimmed within
  rw [value] at valueRead
  rw [settled, Nat.cast_inj.mp valueRead, if_pos word]

theorem isDigit_padZeros {size amount : Nat} {c : Char}
    (listed : c ∈ padZeros size (Nat.toDigits 10 amount)) : c.isDigit = true := by
  rcases List.mem_append.mp listed with zeros | digits
  · exact isDigit_zeros zeros
  · exact Nat.isDigit_of_mem_toDigits (by decide) (by decide) digits

theorem ofDigitChars_padZeros (size amount : Nat) :
    Nat.ofDigitChars 10 (padZeros size (Nat.toDigits 10 amount)) 0 = amount := by
  unfold padZeros
  rw [Nat.ofDigitChars_append, Nat.ofDigitChars_replicate_zero, Nat.mul_zero,
    Nat.ofDigitChars_ten_toDigits]

theorem le_length_padZeros (size : Nat) (text : List Char) :
    size ≤ (padZeros size text).length := by
  unfold padZeros
  rw [List.length_append, List.length_replicate]
  omega

theorem parseAmount_printMoney {amount : Nat} (word : amount < 2 ^ 64) :
    parseAmount (printMoney amount) = some amount := by
  have long := le_length_padZeros (currencyDisplayDecimalPoint + 1) (Nat.toDigits 10 amount)
  have value := ofDigitChars_padZeros (currencyDisplayDecimalPoint + 1) amount
  have digits : ∀ c ∈ padZeros (currencyDisplayDecimalPoint + 1) (Nat.toDigits 10 amount),
      c.isDigit := fun c => isDigit_padZeros
  unfold printMoney printFixedDecimalPoint
  generalize padZeros (currencyDisplayDecimalPoint + 1) (Nat.toDigits 10 amount) = s at *
  have places : (s.drop (s.length - currencyDisplayDecimalPoint)).length =
      currencyDisplayDecimalPoint := by
    rw [List.length_drop]
    omega
  have power : (10 : ℚ) ^ currencyDisplayDecimalPoint ≠ 0 := pow_ne_zero _ (by norm_num)
  refine parseAmount_printed ⟨?_, ?_, Or.inr rfl, ?_⟩ places.le ?_ word
  · intro c listed
    exact digits c (List.mem_of_mem_take listed)
  · intro c listed
    exact digits c (List.mem_of_mem_drop listed)
  · rw [List.take_append_drop]
    exact List.ne_nil_of_length_pos (by omega)
  · unfold coins
    rw [List.take_append_drop, places, value, div_mul_cancel₀ _ power]

theorem parseAmount_printMoneyBrief {amount : Nat} (word : amount < 2 ^ 64) :
    parseAmount (printMoneyBrief amount) = some amount := by
  have wholeDigits : ∀ c ∈ Nat.toDigits 10 (amount / coin), c.isDigit := fun c listed =>
    Nat.isDigit_of_mem_toDigits (by decide) (by decide) listed
  have wholeSome : Nat.toDigits 10 (amount / coin) ≠ [] := Nat.toDigits_ne_nil
  have split : amount / coin * coin + amount % coin = amount := Nat.div_add_mod' amount coin
  have unit : (10 : ℚ) ^ currencyDisplayDecimalPoint = (coin : ℕ) := by
    norm_num [currencyDisplayDecimalPoint, coin]
  unfold printMoneyBrief
  dsimp only
  by_cases round : amount % coin = 0
  · rw [if_pos round]
    refine parseAmount_printed ⟨wholeDigits, ?_, Or.inr rfl, ?_⟩ (by decide) ?_ word
    · intro c listed
      rw [List.mem_singleton.mp listed]
      rfl
    · exact List.append_ne_nil_of_left_ne_nil wholeSome _
    · have value := coins_zeros (Nat.toDigits 10 (amount / coin)) [] 1
      change coins _ ['0'] = _ at value
      rw [value, unit, coins, List.append_nil, Nat.ofDigitChars_ten_toDigits, List.length_nil,
        pow_zero, div_one, ← Nat.cast_mul]
      rw [round] at split
      rw [← Nat.add_zero (_ * _), split]
  · rw [if_neg round]
    have below : amount % coin < 10 ^ currencyDisplayDecimalPoint := Nat.mod_lt _ (by decide)
    have size : (padZeros currencyDisplayDecimalPoint
        (Nat.toDigits 10 (amount % coin))).length = currencyDisplayDecimalPoint := by
      have short := (Nat.length_toDigits_le_iff (by decide) (by decide)).mpr below
      unfold padZeros
      rw [List.length_append, List.length_replicate]
      omega
    have value := ofDigitChars_padZeros currencyDisplayDecimalPoint (amount % coin)
    have digits : ∀ c ∈ padZeros currencyDisplayDecimalPoint
        (Nat.toDigits 10 (amount % coin)), c.isDigit := fun c => isDigit_padZeros
    generalize padZeros currencyDisplayDecimalPoint (Nat.toDigits 10 (amount % coin)) = r at *
    have zeros : r.rtakeWhile (· == '0') =
        List.replicate (r.rtakeWhile (· == '0')).length '0' := by
      apply List.eq_replicate_of_mem
      intro c listed
      exact eq_of_beq (List.mem_rtakeWhile_imp (p := fun d => d == '0') listed)
    have whole := List.rdropWhile_append_rtakeWhile (p := (· == '0')) (l := r)
    have same : coins (Nat.toDigits 10 (amount / coin)) (r.rdropWhile (· == '0')) =
        coins (Nat.toDigits 10 (amount / coin)) r := by
      rw [← coins_zeros _ _ (r.rtakeWhile (· == '0')).length, ← zeros, whole]
    have power : (10 : ℚ) ^ currencyDisplayDecimalPoint ≠ 0 := pow_ne_zero _ (by norm_num)
    refine parseAmount_printed ⟨wholeDigits, ?_, Or.inr rfl, ?_⟩ ?_ ?_ word
    · intro c listed
      exact digits c ((List.rdropWhile_prefix _ r).subset listed)
    · exact List.append_ne_nil_of_left_ne_nil wholeSome _
    · rw [← size]
      exact (List.rdropWhile_prefix _ r).length_le
    · rw [same, coins, size, div_mul_cancel₀ _ power, Nat.ofDigitChars_append,
        Nat.ofDigitChars_ten_toDigits, Nat.ofDigitChars_eq_ofDigitChars_zero, value, size]
      have exactly : 10 ^ currencyDisplayDecimalPoint * (amount / coin) + amount % coin =
          amount := by
        rw [Nat.mul_comm]
        exact split
      rw [exactly]

/-- Both printed forms are read back. A text is read exactly when, without the spaces around it,
it is a decimal text within the display precision whose value in the smallest unit fits in a
word, and what is read is that value. -/
theorem parseAmount_spec :
    (∀ amount < 2 ^ 64, parseAmount (printMoney amount) = some amount ∧
      parseAmount (printMoneyBrief amount) = some amount) ∧
    ∀ text,
      ((parseAmount text).isSome ↔ ∃ whole fraction, DecimalText (trim text) whole fraction ∧
        WithinPrecision fraction ∧
          coins whole fraction * 10 ^ currencyDisplayDecimalPoint < 2 ^ 64) ∧
      ∀ whole fraction amount, DecimalText (trim text) whole fraction →
        parseAmount text = some amount →
          (amount : ℚ) = coins whole fraction * 10 ^ currencyDisplayDecimalPoint := by
  refine ⟨fun amount word =>
    ⟨parseAmount_printMoney word, parseAmount_printMoneyBrief word⟩, fun text => ⟨?_, ?_⟩⟩
  · rw [Option.isSome_iff_exists]
    constructor
    · rintro ⟨amount, read⟩
      obtain ⟨whole, fraction, decimal, within⟩ := decimal_of_parseAmount read
      obtain ⟨exactly, value, settled⟩ := parseAmount_decimal decimal within
      refine ⟨whole, fraction, decimal, within, ?_⟩
      rw [read] at settled
      split at settled
      · rename_i word
        rw [← value]
        exact_mod_cast word
      · cases settled
    · rintro ⟨whole, fraction, decimal, within, word⟩
      obtain ⟨exactly, value, settled⟩ := parseAmount_decimal decimal within
      rw [← value] at word
      refine ⟨exactly, ?_⟩
      rw [settled, if_pos (by exact_mod_cast word)]
  · intro whole fraction amount decimal read
    obtain ⟨wholeRead, fractionRead, decimalRead, within⟩ := decimal_of_parseAmount read
    obtain ⟨rfl, rfl⟩ := decimal.unique decimalRead
    obtain ⟨exactly, value, settled⟩ := parseAmount_decimal decimal within
    rw [read] at settled
    split at settled
    · cases settled
      exact value
    · cases settled

/-- The largest amount, in its two printed forms. -/
theorem parseAmount_spec_largest :
    parseAmount (printMoney (2 ^ 64 - 1)) = some (2 ^ 64 - 1) ∧
      parseAmount (printMoneyBrief (2 ^ 64 - 1)) = some (2 ^ 64 - 1) :=
  parseAmount_spec.1 (2 ^ 64 - 1) (by decide)

end Printing

/-- Digits alone, for a number of coins that fits in a word. -/
def manyCoins : List Char := ['1', '8', '4', '4', '6', '7', '4', '4', '0', '7', '3', '8']

/-- The coins fit in a word, but their value in the smallest unit does not. -/
theorem manyCoins_refused :
    (∃ whole fraction, DecimalText (trim manyCoins) whole fraction ∧
      WithinPrecision fraction ∧ coins whole fraction < 2 ^ 64) ∧
    parseAmount manyCoins = none := by
  refine ⟨⟨manyCoins, [], ⟨List.all_eq_true.mp (by decide),
    List.all_eq_true.mp (by decide), Or.inl ⟨by decide, rfl⟩, by decide⟩, ?_, ?_⟩,
    by decide +kernel⟩
  · intro c listed
    cases listed
  · have value : Nat.ofDigitChars 10 (manyCoins ++ []) 0 = 184467440738 := by
      decide
    rw [coins, value]
    norm_num

end Virie
