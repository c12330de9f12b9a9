import Virie.Mnemonic.Words
import Virie.Foundation.Text
import Virie.Foundation.Codec

/-! # The mnemonic encoding

Four bytes are written with three words of a dictionary, each word after the first one by its
distance from the word before it. Reading a text of words gives the bytes back, but there are
more triples of words than numbers of four bytes: a triple whose number does not fit is not
refused, and stands for the number that is left of it. A text is written again with the same
words exactly when all its triples fit. -/

open Foundation

namespace Virie

namespace Mnemonic

/-! ## Looking words up -/

/-- How a search ends: with the number of the word, with an exception, or with a reading outside
the table of numbers. -/
inductive Search where
  | found (number : Nat)
  | unfound
  | outside
  | unfinished
  deriving DecidableEq, Repr

/-- The search between two positions. The lower neighbour of the first position is the largest
word. -/
def findFrom (key : List UInt8) : Nat → Nat → Nat → Search
  | 0, _, _ => .unfinished
  | fuel + 1, left, right =>
    let midd := (left + right) % 2 ^ 32 / 2
    match wordsIndexes[midd]? with
    | none => .outside
    | some number =>
      if key < word number then
        if left > (midd + 2 ^ 32 - 1) % 2 ^ 32 then .unfound
        else findFrom key fuel left ((midd + 2 ^ 32 - 1) % 2 ^ 32)
      else if word number < key then
        if (midd + 1) % 2 ^ 32 > right then .unfound
        else findFrom key fuel ((midd + 1) % 2 ^ 32) right
      else .found number

def findBinary (key : List UInt8) : Search := findFrom key (numwords + 2) 0 numwords

/-! ## The encoding -/

inductive Failure where
  | thrown
  | undefined
  deriving DecidableEq, Repr

def space : UInt8 := 32

def isSpace (c : UInt8) : Bool := c == space || (decide (9 ≤ c.toNat) && decide (c.toNat ≤ 13))

def toLower (c : UInt8) : UInt8 :=
  if 65 ≤ c.toNat ∧ c.toNat ≤ 90 then UInt8.ofNat (c.toNat + 32) else c

/-- The words of a text. -/
def tokens (text : List UInt8) : List (List UInt8) :=
  (collapse space ((trimBoth isSpace text).map toLower)).splitOn space

def lookup (token : List UInt8) : Except Failure Nat :=
  match findBinary token with
  | .found number => .ok number
  | .unfound => .error .thrown
  | .outside => .error .undefined
  | .unfinished => .error .undefined

/-- The number three words stand for, before it is cut to 32 bits. -/
def tripleValue (w1 w2 w3 : Nat) : Nat :=
  w1 + numwords * ((numwords - w1 + w2) % numwords) +
    numwords * numwords * ((numwords - w2 + w3) % numwords)

def tripleValues : List Nat → List Nat
  | w1 :: w2 :: w3 :: rest => tripleValue w1 w2 w3 :: tripleValues rest
  | _ => []

/-- The bytes of some words. -/
def encodeNumbers (numbers : List Nat) : List UInt8 :=
  (tripleValues numbers).flatMap fun val => Codec.writeUint 4 (val % 2 ^ 32)

def text2binaryThrow (text : List UInt8) : Except Failure (List UInt8) :=
  if (tokens text).length % 3 ≠ 0 then .error .thrown
  else ((tokens text).mapM lookup).map encodeNumbers

/-- The bytes of a text, none where an exception is caught. There is no result where the search
reads outside its table. -/
def text2binary (text : List UInt8) : Option (List UInt8) :=
  match text2binaryThrow text with
  | .ok binary => some binary
  | .error .thrown => some []
  | .error .undefined => none

/-- The numbers of four bytes each. -/
def binaryValues : List UInt8 → List Nat
  | b0 :: b1 :: b2 :: b3 :: rest =>
    (b0.toNat + 256 * (b1.toNat + 256 * (b2.toNat + 256 * b3.toNat))) :: binaryValues rest
  | _ => []

/-- The three words of a number. -/
def valueWords (val : Nat) : List Nat :=
  let w1 := val % numwords
  let w2 := (val / numwords + w1) % numwords
  let w3 := (val / numwords / numwords + w2) % numwords
  [w1, w2, w3]

/-- Words, each followed by a space. -/
def phrase (numbers : List Nat) : List UInt8 := terminated space (numbers.map word)

/-- The text of some bytes; there is an exception unless they come in fours. -/
def binary2text (binary : List UInt8) : Option (List UInt8) :=
  if binary.length % 4 ≠ 0 then none
  else some ((binaryValues binary).flatMap fun val => phrase (valueWords val))

def wordByNum (n : Nat) : List UInt8 := if n ≥ numwords then [] else word n

/-- The number of a word, zero where an exception is caught. -/
def numByWord (w : List UInt8) : Option Nat :=
  match findBinary w with
  | .found number => some number
  | .unfound => some 0
  | .outside => none
  | .unfinished => none

section Finding

/-! ## Finding words -/

theorem wordsIndexes_lt_of_getElem? {position number : Nat}
    (listed : wordsIndexes[position]? = some number) : number < numwords :=
  wordsIndexes_lt number (List.mem_of_getElem? listed)

/-- Later positions hold larger words. -/
theorem word_lt {i j a b : Nat} (first : wordsIndexes[i]? = some a)
    (second : wordsIndexes[j]? = some b) (before : i < j) : word a < word b := by
  have sorted := List.isChain_iff_pairwise.mp wordsIndexes_sorted
  rw [List.pairwise_map, List.pairwise_iff_getElem] at sorted
  obtain ⟨insideI, rfl⟩ := List.getElem?_eq_some_iff.mp first
  obtain ⟨insideJ, rfl⟩ := List.getElem?_eq_some_iff.mp second
  exact sorted i j insideI insideJ before

theorem wordsIndexes_nodup : wordsIndexes.Nodup := by
  have sorted := List.isChain_iff_pairwise.mp wordsIndexes_sorted
  rw [List.pairwise_map] at sorted
  apply sorted.imp
  intro a b before same
  rw [same] at before
  exact List.lt_irrefl (word b) before

/-- Every number of a word stands somewhere in the table. -/
theorem wordsIndexes_complete {number : Nat} (inside : number < numwords) :
    ∃ position : Nat, wordsIndexes[position]? = some number := by
  have whole : wordsIndexes.toFinset = Finset.range numwords := by
    apply Finset.eq_of_subset_of_card_le
    · intro listed found
      exact Finset.mem_range.mpr (wordsIndexes_lt listed (List.mem_toFinset.mp found))
    · rw [Finset.card_range, List.toFinset_card_of_nodup wordsIndexes_nodup,
        length_wordsIndexes]
  have listed : number ∈ wordsIndexes := by
    rw [← List.mem_toFinset, whole]
    exact Finset.mem_range.mpr inside
  exact List.mem_iff_getElem?.mp listed

/-- A search that finds a number found its word. -/
theorem findFrom_sound {key : List UInt8} {fuel left right number : Nat}
    (found : findFrom key fuel left right = .found number) :
    number < numwords ∧ word number = key := by
  induction fuel generalizing left right with
  | zero => cases found
  | succ fuel ih =>
    rw [findFrom] at found
    generalize (left + right) % 2 ^ 32 / 2 = midd at found
    cases listed : wordsIndexes[midd]? with
    | none =>
      rw [listed] at found
      cases found
    | some candidate =>
      rw [listed] at found
      dsimp only at found
      split at found
      · split at found
        · cases found
        · exact ih found
      · rename_i notBelow
        split at found
        · split at found
          · cases found
          · exact ih found
        · rename_i notAbove
          cases found
          exact ⟨wordsIndexes_lt_of_getElem? listed,
            List.le_antisymm (List.not_lt.mp notBelow) (List.not_lt.mp notAbove)⟩

/-- The word at a position between the two ends is found. -/
theorem findFrom_word {position number : Nat} (listed : wordsIndexes[position]? = some number)
    {fuel left right : Nat} (lower : left ≤ position) (upper : position ≤ right)
    (bound : right ≤ numwords) (enough : right - left < fuel) :
    findFrom (word number) fuel left right = .found number := by
  have inside : position < numwords := by
    rw [← length_wordsIndexes]
    exact (List.getElem?_eq_some_iff.mp listed).1
  induction fuel generalizing left right with
  | zero => exact absurd enough (Nat.not_lt_zero _)
  | succ fuel ih =>
    have small : numwords < 2 ^ 31 := by
      decide
    have middle : (left + right) % 2 ^ 32 / 2 = (left + right) / 2 := by
      rw [Nat.mod_eq_of_lt (by omega)]
    have middleInside : (left + right) / 2 < wordsIndexes.length := by
      rw [length_wordsIndexes]
      omega
    have candidate := List.getElem?_eq_getElem middleInside
    rw [findFrom, middle, candidate]
    dsimp only
    rcases Nat.lt_trichotomy position ((left + right) / 2) with before | here | after
    · have down : ((left + right) / 2 + 2 ^ 32 - 1) % 2 ^ 32 = (left + right) / 2 - 1 := by
        omega
      rw [if_pos (word_lt listed candidate before), down, if_neg (by omega)]
      exact ih lower (by omega) (by omega) (by omega)
    · subst here
      cases candidate.symm.trans listed
      rw [if_neg (List.lt_irrefl _), if_neg (List.lt_irrefl _)]
    · have above := word_lt candidate listed after
      have up : ((left + right) / 2 + 1) % 2 ^ 32 = (left + right) / 2 + 1 := by
        omega
      rw [if_neg (List.lt_asymm above), if_pos above, up, if_neg (by omega)]
      exact ih (by omega) upper bound (by omega)

theorem findBinary_word {number : Nat} (inside : number < numwords) :
    findBinary (word number) = .found number := by
  obtain ⟨position, listed⟩ := wordsIndexes_complete inside
  have bound : position < wordsIndexes.length := (List.getElem?_eq_some_iff.mp listed).1
  rw [length_wordsIndexes] at bound
  exact findFrom_word listed (Nat.zero_le _) bound.le (Nat.le_refl _) (by omega)

end Finding

section Tokens

/-! ## The words of a phrase -/

theorem toLower_letter {c : UInt8} (letter : isLetter c = true) : toLower c = c := by
  unfold isLetter at letter
  rw [Bool.and_eq_true, decide_eq_true_eq, decide_eq_true_eq] at letter
  unfold toLower
  rw [if_neg (by omega)]

theorem isSpace_letter {c : UInt8} (letter : isLetter c = true) : isSpace c = false := by
  unfold isLetter at letter
  rw [Bool.and_eq_true, decide_eq_true_eq, decide_eq_true_eq] at letter
  have apart : (c == space) = false := by
    apply beq_false_of_ne
    rintro rfl
    exact absurd letter.1 (by decide)
  unfold isSpace
  rw [apart, Bool.false_or, decide_eq_false (by omega : ¬c.toNat ≤ 13), Bool.and_false]

variable {numbers : List Nat}

theorem word_of_mem (inside : ∀ number ∈ numbers, number < numwords) :
    ∀ w ∈ numbers.map word, w ≠ [] ∧ ∀ c ∈ w, isLetter c = true := by
  intro w listed
  obtain ⟨number, member, rfl⟩ := List.mem_map.mp listed
  exact word_letters (inside number member)

theorem map_toLower_intercalate {words : List (List UInt8)}
    (letters : ∀ w ∈ words, ∀ c ∈ w, isLetter c = true) :
    ([space].intercalate words).map toLower = [space].intercalate words := by
  induction words with
  | nil => rfl
  | cons w words ih =>
    have first : w.map toLower = w := by
      apply (List.map_congr_left fun c listed => ?_).trans (List.map_id w)
      exact toLower_letter (letters w List.mem_cons_self c listed)
    cases words with
    | nil =>
      rw [List.intercalate_singleton]
      exact first
    | cons next words =>
      rw [List.intercalate_cons_cons, List.map_append, List.map_append, first,
        ih fun other listed => letters other (List.mem_cons_of_mem w listed)]
      rfl

/-- A phrase is read as its words. -/
theorem tokens_phrase (nonempty : numbers ≠ [])
    (inside : ∀ number ∈ numbers, number < numwords) :
    tokens (phrase numbers) = numbers.map word := by
  have known := word_of_mem inside
  obtain ⟨first, rest, split⟩ : ∃ first rest, numbers.map word = first :: rest :=
    List.exists_cons_of_ne_nil fun empty => nonempty (List.map_eq_nil_iff.mp empty)
  have visible : ∀ w ∈ numbers.map word, ∀ c ∈ w, isSpace c = false := fun w listed c member =>
    isSpace_letter ((known w listed).2 c member)
  have blank : isSpace space = true := rfl
  have some : ∀ w ∈ numbers.map word, w ≠ [] := fun w listed => (known w listed).1
  have free : ∀ w ∈ numbers.map word, space ∉ w := by
    intro w listed member
    exact absurd (visible w listed space member) (by decide)
  unfold tokens phrase
  rw [split] at known visible some free ⊢
  rw [trimBoth_terminated blank some visible,
    map_toLower_intercalate fun w listed => (known w listed).2, collapse_intercalate some free]
  exact List.splitOn_intercalate space free (List.cons_ne_nil first rest)

theorem lookup_word {number : Nat} (inside : number < numwords) :
    lookup (word number) = .ok number := by
  unfold lookup
  rw [findBinary_word inside]

theorem mapM_lookup_words (inside : ∀ number ∈ numbers, number < numwords) :
    (numbers.map word).mapM lookup = .ok numbers := by
  induction numbers with
  | nil => rfl
  | cons number numbers ih =>
    rw [List.map_cons, List.mapM_cons, lookup_word (inside number List.mem_cons_self),
      ih fun other listed => inside other (List.mem_cons_of_mem number listed)]
    rfl

/-- The words that are looked up are those of their numbers. -/
theorem words_of_mapM_lookup {words : List (List UInt8)}
    (found : words.mapM lookup = .ok numbers) :
    words = numbers.map word ∧ ∀ number ∈ numbers, number < numwords := by
  induction words generalizing numbers with
  | nil =>
    cases found
    exact ⟨rfl, fun number listed => by cases listed⟩
  | cons w words ih =>
    rw [List.mapM_cons] at found
    cases first : lookup w with
    | error failure =>
      rw [first] at found
      cases found
    | ok number =>
      rw [first] at found
      cases rest : words.mapM lookup with
      | error failure =>
        rw [rest] at found
        cases found
      | ok others =>
        rw [rest] at found
        cases found
        have matched : number < numwords ∧ word number = w := by
          unfold lookup at first
          split at first
          · rename_i candidate search
            cases first
            exact findFrom_sound search
          · cases first
          · cases first
          · cases first
        obtain ⟨same, inside⟩ := ih rest
        refine ⟨by rw [List.map_cons, matched.2, ← same], fun other listed => ?_⟩
        rcases List.mem_cons.mp listed with rfl | later
        · exact matched.1
        · exact inside other later

end Tokens

section Values

/-! ## Triples and numbers -/

/-- How many triples of words there are. -/
def tripleCount : Nat := numwords * numwords * numwords

theorem digit_distance {previous digit : Nat} (inside : previous < numwords)
    (small : digit < numwords) :
    (numwords - previous + (digit + previous) % numwords) % numwords = digit := by
  unfold numwords at *
  omega

theorem distance_digit {previous next : Nat} (inside : previous < numwords)
    (insideNext : next < numwords) :
    ((numwords - previous + next) % numwords + previous) % numwords = next := by
  unfold numwords at *
  omega

theorem split_value (val : Nat) :
    val % numwords + numwords * (val / numwords % numwords) +
      numwords * numwords * (val / numwords / numwords) = val := by
  have low := Nat.mod_add_div val numwords
  have middle := Nat.mod_add_div (val / numwords) numwords
  calc
    val % numwords + numwords * (val / numwords % numwords) +
        numwords * numwords * (val / numwords / numwords) =
      val % numwords + numwords * (val / numwords % numwords +
        numwords * (val / numwords / numwords)) := by ring
    _ = val % numwords + numwords * (val / numwords) := by rw [middle]
    _ = val := low

theorem valueWords_lt (val : Nat) : ∀ number ∈ valueWords val, number < numwords := by
  have positive : 0 < numwords := by
    decide
  intro number listed
  simp only [valueWords, List.mem_cons, List.not_mem_nil, or_false] at listed
  rcases listed with rfl | rfl | rfl
  · exact Nat.mod_lt _ positive
  · exact Nat.mod_lt _ positive
  · exact Nat.mod_lt _ positive

/-- The words of a number that is small enough stand for it. -/
theorem tripleValues_valueWords {val : Nat} (small : val < tripleCount) (rest : List Nat) :
    tripleValues (valueWords val ++ rest) = val :: tripleValues rest := by
  have positive : 0 < numwords := by
    decide
  have high : val / numwords / numwords < numwords := by
    rw [Nat.div_div_eq_div_mul, Nat.div_lt_iff_lt_mul (by decide)]
    exact small.trans_eq (Nat.mul_comm _ _)
  have first : val % numwords < numwords := Nat.mod_lt _ positive
  have second : (val / numwords + val % numwords) % numwords < numwords := Nat.mod_lt _ positive
  have middle : val / numwords % numwords < numwords := Nat.mod_lt _ positive
  have shifted : (val / numwords + val % numwords) % numwords =
      (val / numwords % numwords + val % numwords) % numwords := (Nat.mod_add_mod _ _ _).symm
  have split := split_value val
  change tripleValue _ _ _ :: tripleValues rest = _
  unfold tripleValue
  rw [digit_distance second high, shifted, digit_distance first middle, split]

/-- The number of a triple has its words. -/
theorem valueWords_tripleValue {w1 w2 w3 : Nat} (first : w1 < numwords) (second : w2 < numwords)
    (third : w3 < numwords) :
    valueWords (tripleValue w1 w2 w3) = [w1, w2, w3] ∧ tripleValue w1 w2 w3 < tripleCount := by
  have positive : 0 < numwords := by
    decide
  have nextFirst := distance_digit first second
  have nextSecond := distance_digit second third
  have middle : (numwords - w1 + w2) % numwords < numwords := Nat.mod_lt _ positive
  have high : (numwords - w2 + w3) % numwords < numwords := Nat.mod_lt _ positive
  unfold tripleValue
  generalize (numwords - w1 + w2) % numwords = d1 at *
  generalize (numwords - w2 + w3) % numwords = d2 at *
  have low : (w1 + numwords * d1 + numwords * numwords * d2) % numwords = w1 := by
    unfold numwords at *
    omega
  have quotient : (w1 + numwords * d1 + numwords * numwords * d2) / numwords =
      d1 + numwords * d2 := by
    unfold numwords at *
    omega
  have top : (d1 + numwords * d2) / numwords = d2 := by
    unfold numwords at *
    omega
  refine ⟨?_, ?_⟩
  · have shifted : (d1 + numwords * d2 + w1) % numwords = w2 := by
      rw [Nat.add_right_comm, Nat.add_mul_mod_self_left]
      exact nextFirst
    unfold valueWords
    dsimp only
    rw [low, quotient, top, shifted, nextSecond]
  · unfold tripleCount numwords at *
    omega

theorem map_word_injective {numbers others : List Nat}
    (inside : ∀ number ∈ numbers, number < numwords)
    (insideToo : ∀ number ∈ others, number < numwords)
    (same : numbers.map word = others.map word) : numbers = others := by
  have found := mapM_lookup_words inside
  rw [same, mapM_lookup_words insideToo] at found
  cases found
  rfl

/-! ## Bytes -/

theorem binaryValues_lt (binary : List UInt8) : ∀ val ∈ binaryValues binary, val < 2 ^ 32 := by
  induction binary using binaryValues.induct with
  | case1 b0 b1 b2 b3 rest ih =>
    intro val listed
    rw [binaryValues] at listed
    rcases List.mem_cons.mp listed with rfl | later
    · have first := b0.toNat_lt
      have second := b1.toNat_lt
      have third := b2.toNat_lt
      have fourth := b3.toNat_lt
      omega
    · exact ih val later
  | case2 binary short =>
    intro val listed
    rw [binaryValues] at listed
    · cases listed
    · exact short

/-- The bytes of the numbers of some bytes. -/
theorem flatMap_binaryValues (binary : List UInt8) (fours : binary.length % 4 = 0) :
    ((binaryValues binary).flatMap fun val => Codec.writeUint 4 (val % 2 ^ 32)) = binary := by
  induction binary using binaryValues.induct with
  | case1 b0 b1 b2 b3 rest ih =>
    have small := binaryValues_lt (b0 :: b1 :: b2 :: b3 :: rest) _ List.mem_cons_self
    have read : Codec.readUint 4 [b0, b1, b2, b3] = some
        (b0.toNat + 256 * (b1.toNat + 256 * (b2.toNat + 256 * (b3.toNat + 256 * 0))), []) := rfl
    have written := Codec.writeUint_of_readUint read
    rw [Nat.mul_zero, Nat.add_zero, List.append_nil] at written
    rw [binaryValues, List.flatMap_cons, Nat.mod_eq_of_lt small, ← written.2,
      ih (by simp only [List.length_cons] at fours; omega)]
    rfl
  | case2 binary short =>
    rcases binary with _ | ⟨b0, _ | ⟨b1, _ | ⟨b2, _ | ⟨b3, rest⟩⟩⟩⟩
    · rfl
    · cases fours
    · cases fours
    · cases fours
    · exact absurd rfl (short b0 b1 b2 b3 rest)

theorem binaryValues_writeUint {val : Nat} (small : val < 2 ^ 32) (rest : List UInt8) :
    binaryValues (Codec.writeUint 4 val ++ rest) = val :: binaryValues rest := by
  simp only [Codec.writeUint, List.cons_append, List.nil_append, binaryValues]
  congr 1
  rw [toNat_ofNat_of_lt (Nat.mod_lt _ (by decide)), toNat_ofNat_of_lt (Nat.mod_lt _ (by decide)),
    toNat_ofNat_of_lt (Nat.mod_lt _ (by decide)), toNat_ofNat_of_lt (Nat.mod_lt _ (by decide))]
  omega

/-- The numbers of the bytes of some triples. -/
theorem binaryValues_flatMap (vals : List Nat) :
    binaryValues (vals.flatMap fun val => Codec.writeUint 4 (val % 2 ^ 32)) =
      vals.map (· % 2 ^ 32) := by
  induction vals with
  | nil => rfl
  | cons val vals ih =>
    rw [List.flatMap_cons, binaryValues_writeUint (Nat.mod_lt _ (by decide)), ih]
    rfl

/-! ## Reading what was written -/

/-- The numbers of the words of some bytes. -/
def wordNumbers (vals : List Nat) : List Nat := vals.flatMap valueWords

theorem phrase_wordNumbers (vals : List Nat) :
    (vals.flatMap fun val => phrase (valueWords val)) = phrase (wordNumbers vals) := by
  unfold phrase wordNumbers terminated
  rw [List.map_flatMap, List.flatMap_assoc]

theorem wordNumbers_lt (vals : List Nat) : ∀ number ∈ wordNumbers vals, number < numwords := by
  intro number listed
  obtain ⟨val, -, member⟩ := List.mem_flatMap.mp listed
  exact valueWords_lt val number member

theorem length_wordNumbers (vals : List Nat) : (wordNumbers vals).length = 3 * vals.length := by
  induction vals with
  | nil => rfl
  | cons val vals ih =>
    change (valueWords val ++ wordNumbers vals).length = 3 * (vals.length + 1)
    rw [List.length_append, ih]
    change 3 + 3 * vals.length = 3 * (vals.length + 1)
    omega

theorem tripleValues_wordNumbers {vals : List Nat} (small : ∀ val ∈ vals, val < tripleCount) :
    tripleValues (wordNumbers vals) = vals := by
  induction vals with
  | nil => rfl
  | cons val vals ih =>
    change tripleValues (valueWords val ++ wordNumbers vals) = val :: vals
    rw [tripleValues_valueWords (small val List.mem_cons_self),
      ih fun other listed => small other (List.mem_cons_of_mem val listed)]

/-- The text of bytes that come in fours is read as those bytes. -/
theorem text2binary_binary2text {binary : List UInt8} (fours : binary.length % 4 = 0) :
    ∃ text, binary2text binary = some text ∧ text2binary text = some binary := by
  refine ⟨phrase (wordNumbers (binaryValues binary)), ?_, ?_⟩
  · unfold binary2text
    rw [if_neg (not_not_intro fours), phrase_wordNumbers]
  · have written := flatMap_binaryValues binary fours
    have inside := wordNumbers_lt (binaryValues binary)
    have size := length_wordNumbers (binaryValues binary)
    have small : ∀ val ∈ binaryValues binary, val < tripleCount := fun val listed =>
      (binaryValues_lt binary val listed).trans (by decide)
    by_cases empty : binaryValues binary = []
    · -- The empty text has one empty word, which is no triple.
      rw [empty] at written ⊢
      rw [← written]
      rfl
    · have nonempty : wordNumbers (binaryValues binary) ≠ [] := by
        apply List.ne_nil_of_length_pos
        have some := List.length_pos_of_ne_nil empty
        omega
      unfold text2binary text2binaryThrow
      rw [tokens_phrase nonempty inside, mapM_lookup_words inside, List.length_map, size,
        if_neg (by omega)]
      change some (encodeNumbers _) = some binary
      unfold encodeNumbers
      rw [tripleValues_wordNumbers small, written]

/-! ## Writing what was read -/

/-- Every triple of the words of a text stands for a number of 32 bits. -/
def TriplesFit (text : List UInt8) : Prop :=
  ∀ numbers : List Nat, (∀ number ∈ numbers, number < numwords) →
    tokens text = numbers.map word → ∀ val ∈ tripleValues numbers, val < 2 ^ 32

/-- The words of a triple that is cut to 32 bits. -/
theorem valueWords_mod_iff {w1 w2 w3 : Nat} (first : w1 < numwords) (second : w2 < numwords)
    (third : w3 < numwords) :
    valueWords (tripleValue w1 w2 w3 % 2 ^ 32) = [w1, w2, w3] ↔
      tripleValue w1 w2 w3 < 2 ^ 32 := by
  constructor
  · intro same
    have cut : tripleValue w1 w2 w3 % 2 ^ 32 < 2 ^ 32 := Nat.mod_lt _ (by decide)
    have values := tripleValues_valueWords (cut.trans (by decide : 2 ^ 32 < tripleCount)) []
    rw [same, List.append_nil] at values
    have exactly : tripleValue w1 w2 w3 = tripleValue w1 w2 w3 % 2 ^ 32 :=
      (List.cons.inj values).1
    rw [exactly]
    exact cut
  · intro fits
    rw [Nat.mod_eq_of_lt fits]
    exact (valueWords_tripleValue first second third).1

/-- Triples that are cut to 32 bits keep their words exactly when nothing is cut. -/
theorem wordNumbers_mod_iff {numbers : List Nat} (threes : numbers.length % 3 = 0)
    (inside : ∀ number ∈ numbers, number < numwords) :
    wordNumbers ((tripleValues numbers).map (· % 2 ^ 32)) = numbers ↔
      ∀ val ∈ tripleValues numbers, val < 2 ^ 32 := by
  induction numbers using tripleValues.induct with
  | case1 w1 w2 w3 rest ih =>
    have settled := valueWords_mod_iff (inside w1 (by simp)) (inside w2 (by simp))
      (inside w3 (by simp))
    have others := ih (by simp only [List.length_cons] at threes; omega)
      fun number listed => inside number (by simp [listed])
    rw [tripleValues, List.forall_mem_cons, ← others, ← settled]
    change valueWords _ ++ wordNumbers _ = [w1, w2, w3] ++ rest ↔ _
    constructor
    · intro same
      exact List.append_inj same rfl
    · rintro ⟨front, back⟩
      rw [front, back]
  | case2 numbers short =>
    rcases numbers with _ | ⟨w1, _ | ⟨w2, _ | ⟨w3, rest⟩⟩⟩
    · exact ⟨fun _ val listed => absurd listed List.not_mem_nil, fun _ => rfl⟩
    · cases threes
    · cases threes
    · exact absurd rfl (short w1 w2 w3 rest)

/-- An accepted text consists of triples of words. -/
theorem accepted_words {text binary : List UInt8} (read : text2binary text = some binary)
    (accepted : binary ≠ []) :
    ∃ numbers, tokens text = numbers.map word ∧ (∀ number ∈ numbers, number < numwords) ∧
      numbers.length % 3 = 0 ∧ binary = encodeNumbers numbers := by
  unfold text2binary at read
  cases outcome : text2binaryThrow text with
  | error failure =>
    rw [outcome] at read
    cases failure with
    | thrown =>
      cases read
      exact absurd rfl accepted
    | undefined => cases read
  | ok bytes =>
    rw [outcome] at read
    cases read
    unfold text2binaryThrow at outcome
    split at outcome
    · cases outcome
    rename_i threes
    cases found : (tokens text).mapM lookup with
    | error failure =>
      rw [found] at outcome
      cases outcome
    | ok numbers =>
      rw [found] at outcome
      cases outcome
      obtain ⟨words, inside⟩ := words_of_mapM_lookup found
      rw [words, List.length_map, not_not] at threes
      exact ⟨numbers, words, inside, threes, rfl⟩

theorem binary2text_encodeNumbers (numbers : List Nat) :
    binary2text (encodeNumbers numbers) =
      some (phrase (wordNumbers ((tripleValues numbers).map (· % 2 ^ 32)))) := by
  have fours : (encodeNumbers numbers).length % 4 = 0 := by
    unfold encodeNumbers
    rw [List.length_flatMap]
    simp only [Codec.writeUint_length, List.map_const', List.sum_replicate, smul_eq_mul]
    exact Nat.mul_mod_left _ 4
  unfold binary2text
  rw [if_neg (not_not_intro fours), phrase_wordNumbers]
  unfold encodeNumbers
  rw [binaryValues_flatMap]

/-- An accepted text is written again with the same words exactly when its triples fit. -/
theorem rewritten_iff {text binary : List UInt8} (read : text2binary text = some binary)
    (accepted : binary ≠ []) :
    (∃ again, binary2text binary = some again ∧ tokens again = tokens text) ↔
      TriplesFit text := by
  obtain ⟨numbers, words, inside, threes, rfl⟩ := accepted_words read accepted
  have insideAgain := wordNumbers_lt ((tripleValues numbers).map (· % 2 ^ 32))
  have nonempty : wordNumbers ((tripleValues numbers).map (· % 2 ^ 32)) ≠ [] := by
    intro empty
    have size := length_wordNumbers ((tripleValues numbers).map (· % 2 ^ 32))
    rw [empty, List.length_map, List.length_nil] at size
    have none : tripleValues numbers = [] := List.eq_nil_of_length_eq_zero (by omega)
    apply accepted
    unfold encodeNumbers
    rw [none]
    rfl
  have kept := wordNumbers_mod_iff threes inside
  rw [binary2text_encodeNumbers]
  constructor
  · rintro ⟨again, given, same⟩ others insideOthers sameOthers
    cases given
    rw [tokens_phrase nonempty insideAgain, words] at same
    have exactly := map_word_injective inside insideOthers (words.symm.trans sameOthers)
    rw [← exactly]
    exact kept.mp (map_word_injective insideAgain inside same)
  · intro fits
    refine ⟨_, rfl, ?_⟩
    rw [kept.mpr (fits numbers inside words)] at nonempty ⊢
    rw [tokens_phrase nonempty inside, words]

end Values

end Mnemonic
end Virie
