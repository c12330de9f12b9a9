import Virie.Foundation.Codec

/-! # Base 58

A byte string is cut into blocks of eight bytes. Each block is read as a number whose most
significant byte comes first and written with eleven digits of an alphabet of 58 letters; a
shorter last block has a number of digits of its own. A block of digits that stands for too
large a number is refused. -/

open Foundation

namespace Virie

namespace Base58

def alphabet : List UInt8 :=
  "123456789ABCDEFGHJKLMNPQRSTUVWXYZabcdefghijkmnopqrstuvwxyz".toList.map fun letter =>
    UInt8.ofNat letter.toNat

def alphabetSize : Nat := 58

def encodedBlockSizes : List Nat := [0, 2, 3, 5, 6, 7, 9, 10, 11]

def fullBlockSize : Nat := 8

def fullEncodedBlockSize : Nat := 11

/-- The letter of a digit. -/
def letter (digit : Nat) : UInt8 := alphabet.getD digit 0

/-- The digits under the distances of their letters from the first letter. -/
def reverseAlphabetData : List (Option Nat) :=
  (List.range alphabetSize).foldl
    (fun data i => data.set ((letter i).toNat - (letter 0).toNat) (some i))
    (List.replicate ((letter (alphabetSize - 1)).toNat - (letter 0).toNat + 1) none)

/-- The digit of a letter. -/
def reverseAlphabet (c : UInt8) : Option Nat :=
  if c.toNat < (letter 0).toNat then none
  else (reverseAlphabetData[c.toNat - (letter 0).toNat]?).join

/-- The sizes of decoded blocks under the sizes of encoded ones. -/
def decodedBlockSizesData : List (Option Nat) :=
  (List.range (fullBlockSize + 1)).foldl
    (fun data i => data.set (encodedBlockSizes.getD i 0) (some i))
    (List.replicate (fullEncodedBlockSize + 1) none)

def decodedBlockSizes (encodedBlockSize : Nat) : Option Nat :=
  (decodedBlockSizesData[encodedBlockSize]?).join

/-! ## Blocks -/

/-- The number of a block of bytes. -/
def uint8beTo64 (data : List UInt8) : Nat :=
  data.foldl (fun res byte => res * 256 + byte.toNat) 0

/-- The last bytes of a number of eight. -/
def uint64To8be (num size : Nat) : List UInt8 :=
  (Codec.writeUint 8 num).reverse.drop (8 - size)

/-- Replace the letters before a position, from the last one on, by the digits of a number. -/
def encodeBlockLoop : Nat → Nat → List UInt8 → List UInt8
  | 0, _, res => res
  | i + 1, num, res =>
    if 0 < num then
      encodeBlockLoop i (num / alphabetSize) (res.set i (letter (num % alphabetSize)))
    else res

def encodeBlock (block : List UInt8) : List UInt8 :=
  let size := encodedBlockSizes.getD block.length 0
  encodeBlockLoop size (uint8beTo64 block) (List.replicate size (letter 0))

/-- The number of a block of letters, which are given from the last one on. -/
def decodeBlockLoop : List UInt8 → Nat → Nat → Option Nat
  | [], resNum, _ => some resNum
  | c :: rest, resNum, order => do
    let digit ← reverseAlphabet c
    let tmp := resNum + order * digit
    if tmp > 2 ^ 64 - 1 then none
    else decodeBlockLoop rest tmp (order * alphabetSize % 2 ^ 64)

def decodeBlock (block : List UInt8) : Option (List UInt8) :=
  match decodedBlockSizes block.length with
  | none => none
  | some 0 => none
  | some resSize => do
    let resNum ← decodeBlockLoop block.reverse 0 1
    if resSize < fullBlockSize ∧ 2 ^ (8 * resSize) ≤ resNum then none
    else some (uint64To8be resNum resSize)

/-! ## Strings -/

/-- Encode a number of full blocks and what follows them. -/
def encodeBlocks : Nat → List UInt8 → List UInt8
  | 0, last => if 0 < last.length then encodeBlock last else []
  | count + 1, data =>
    encodeBlock (data.take fullBlockSize) ++ encodeBlocks count (data.drop fullBlockSize)

def encode (data : List UInt8) : List UInt8 :=
  if data.isEmpty then [] else encodeBlocks (data.length / fullBlockSize) data

/-- Decode a number of full blocks and what follows them. -/
def decodeBlocks : Nat → List UInt8 → Option (List UInt8)
  | 0, last => if 0 < last.length then decodeBlock last else some []
  | count + 1, enc => do
    let front ← decodeBlock (enc.take fullEncodedBlockSize)
    let rest ← decodeBlocks count (enc.drop fullEncodedBlockSize)
    pure (front ++ rest)

def decode (enc : List UInt8) : Option (List UInt8) :=
  if enc.isEmpty then some []
  else
    match decodedBlockSizes (enc.length % fullEncodedBlockSize) with
    | none => none
    | some _ => decodeBlocks (enc.length / fullEncodedBlockSize) enc

/-! ## Letters and digits -/

theorem reverseAlphabet_letter {digit : Nat} (small : digit < 58) :
    reverseAlphabet (letter digit) = some digit := by
  have all : ∀ digit < 58, reverseAlphabet (letter digit) = some digit := by decide +kernel
  exact all digit small

theorem letter_of_reverseAlphabet {c : UInt8} {digit : Nat}
    (found : reverseAlphabet c = some digit) : digit < 58 ∧ letter digit = c := by
  have all : ∀ n < 256, ∀ digit ∈ reverseAlphabet (UInt8.ofNat n),
      digit < 58 ∧ letter digit = UInt8.ofNat n := by decide +kernel
  have byte := all c.toNat c.toNat_lt digit
  rw [UInt8.ofNat_toNat] at byte
  exact byte found

/-- Letters of as many digits that stand for the same number are the same. -/
theorem letters_eq {first second : List Nat} (sameLength : first.length = second.length)
    (small : ∀ digit ∈ first, digit < 58) (small' : ∀ digit ∈ second, digit < 58)
    (same : Nat.ofDigits 58 first = Nat.ofDigits 58 second) : first = second :=
  Nat.ofDigits_inj_of_len_eq (by decide) sameLength small small' same

/-! ## Bytes and numbers -/

theorem uint8beTo64_eq (data : List UInt8) :
    uint8beTo64 data = Nat.ofDigits 256 (data.reverse.map UInt8.toNat) := by
  unfold uint8beTo64
  induction data using List.reverseRecOn with
  | nil => rfl
  | append_singleton data byte ih =>
    rw [List.foldl_append, List.foldl_cons, List.foldl_nil, ih, List.reverse_append,
      List.reverse_singleton, List.singleton_append, List.map_cons, Nat.ofDigits_cons]
    omega

theorem toNat_small {bytes : List UInt8} : ∀ digit ∈ bytes.map UInt8.toNat, digit < 256 := by
  intro digit member
  obtain ⟨byte, _, rfl⟩ := List.mem_map.mp member
  exact byte.toNat_lt

theorem uint8beTo64_lt (data : List UInt8) : uint8beTo64 data < 256 ^ data.length := by
  rw [uint8beTo64_eq]
  have below := Nat.ofDigits_lt_base_pow_length (by decide : 1 < 256) (@toNat_small data.reverse)
  rwa [List.length_map, List.length_reverse] at below

/-- Blocks of as many bytes with the same number are the same. -/
theorem block_eq {first second : List UInt8} (sameLength : first.length = second.length)
    (same : uint8beTo64 first = uint8beTo64 second) : first = second := by
  rw [uint8beTo64_eq, uint8beTo64_eq] at same
  have digits := Nat.ofDigits_inj_of_len_eq (by decide) (by simpa using sameLength)
    toNat_small toNat_small same
  exact List.reverse_injective
    (List.map_injective_iff.mpr (fun _ _ equal => UInt8.toNat_inj.mp equal) digits)

theorem writeUint_value (width v : Nat) :
    Nat.ofDigits 256 ((Codec.writeUint width v).map UInt8.toNat) = v % 256 ^ width := by
  induction width generalizing v with
  | zero => rw [Nat.pow_zero, Nat.mod_one]; rfl
  | succ width ih =>
    rw [Codec.writeUint, List.map_cons, Nat.ofDigits_cons, ih, UInt8.toNat_ofNat',
      Nat.mod_eq_of_lt (Nat.mod_lt v (by decide)), Nat.pow_succ', Nat.mod_mul]

theorem writeUint_take {size width : Nat} (inside : size ≤ width) (v : Nat) :
    (Codec.writeUint width v).take size = Codec.writeUint size v := by
  induction size generalizing width v with
  | zero => rfl
  | succ size ih =>
    cases width with
    | zero => omega
    | succ width =>
      rw [Codec.writeUint, List.take_succ_cons, ih (by omega)]
      rfl

theorem uint64To8be_reverse {size : Nat} (small : size ≤ 8) (num : Nat) :
    (uint64To8be num size).reverse = Codec.writeUint size num := by
  rw [uint64To8be, List.reverse_drop, List.length_reverse, Codec.writeUint_length,
    List.reverse_reverse, Nat.sub_sub_self small, writeUint_take small]

theorem uint64To8be_length {size : Nat} (small : size ≤ 8) (num : Nat) :
    (uint64To8be num size).length = size := by
  rw [← List.length_reverse, uint64To8be_reverse small, Codec.writeUint_length]

theorem uint8beTo64_uint64To8be {size num : Nat} (small : size ≤ 8) (fits : num < 256 ^ size) :
    uint8beTo64 (uint64To8be num size) = num := by
  rw [uint8beTo64_eq, uint64To8be_reverse small, writeUint_value, Nat.mod_eq_of_lt fits]

/-! ## Encoding a block -/

/-- The loop writes the digits of the number, with leading zeros. -/
theorem encodeBlockLoop_eq {places num : Nat} (fits : num < 58 ^ places) (tail : List UInt8) :
    ∃ digits : List Nat, digits.length = places ∧ (∀ digit ∈ digits, digit < 58) ∧
      Nat.ofDigits 58 digits = num ∧
      encodeBlockLoop places num (List.replicate places (letter 0) ++ tail) =
        (digits.map letter).reverse ++ tail := by
  induction places generalizing num tail with
  | zero =>
    have zero : num = 0 := by rwa [Nat.pow_zero, Nat.lt_one_iff] at fits
    exact ⟨[], rfl, by simp, by rw [zero]; rfl, rfl⟩
  | succ i ih =>
    by_cases positive : 0 < num
    · have below : num / 58 < 58 ^ i := Nat.div_lt_of_lt_mul (by rwa [← Nat.pow_succ'])
      obtain ⟨digits, length, small, value, written⟩ := ih below (letter (num % 58) :: tail)
      refine ⟨num % 58 :: digits, by rw [List.length_cons, length], ?_, ?_, ?_⟩
      · intro digit member
        rcases List.mem_cons.mp member with rfl | later
        · exact Nat.mod_lt num (by decide)
        · exact small digit later
      · rw [Nat.ofDigits_cons, value]
        exact Nat.mod_add_div num 58
      · have replaced : (List.replicate (i + 1) (letter 0) ++ tail).set i (letter (num % 58)) =
            List.replicate i (letter 0) ++ letter (num % 58) :: tail := by
          rw [List.replicate_succ', List.append_assoc, List.set_append_right _ _ (by simp),
            List.length_replicate, Nat.sub_self]
          rfl
        rw [encodeBlockLoop, if_pos positive]
        change encodeBlockLoop i (num / 58) (List.set _ i (letter (num % 58))) = _
        rw [replaced, written, List.map_cons, List.reverse_cons, List.append_assoc]
        rfl
    · have zero : num = 0 := by omega
      refine ⟨List.replicate (i + 1) 0, List.length_replicate, ?_, ?_, ?_⟩
      · intro digit member
        rw [List.eq_of_mem_replicate member]
        decide
      · rw [zero, Nat.ofDigits_replicate_zero]
      · rw [encodeBlockLoop, if_neg positive, List.map_replicate, List.reverse_replicate]

/-! ## Decoding a block -/

/-- The power of the next digit is exact as long as a digit is left to read. -/
theorem order_eq {k : Nat} (inside : k + 1 ≤ 11) : 58 ^ k % 2 ^ 64 = 58 ^ k := by
  apply Nat.mod_eq_of_lt
  calc 58 ^ k ≤ 58 ^ 10 := Nat.pow_le_pow_right (by decide) (by omega)
    _ < 2 ^ 64 := by decide

theorem order_next (k : Nat) : 58 ^ k % 2 ^ 64 * alphabetSize % 2 ^ 64 = 58 ^ (k + 1) % 2 ^ 64 := by
  exact (Nat.mod_mul_mod (58 ^ k) alphabetSize (2 ^ 64)).trans (by rw [alphabetSize, pow_succ 58 k])

/-- The loop reads the number of the letters of digits, unless it is too large. -/
theorem decodeBlockLoop_letters {digits : List Nat} {resNum k : Nat}
    (small : ∀ digit ∈ digits, digit < 58) (inside : k + digits.length ≤ 11)
    (fits : resNum + 58 ^ k * Nat.ofDigits 58 digits < 2 ^ 64) :
    decodeBlockLoop (digits.map letter) resNum (58 ^ k % 2 ^ 64) =
      some (resNum + 58 ^ k * Nat.ofDigits 58 digits) := by
  induction digits generalizing resNum k with
  | nil => rfl
  | cons digit rest ih =>
    rw [List.length_cons] at inside
    have value : resNum + 58 ^ k * Nat.ofDigits 58 (digit :: rest) =
        resNum + 58 ^ k * digit + 58 ^ (k + 1) * Nat.ofDigits 58 rest := by
      rw [Nat.ofDigits_cons, Nat.pow_succ]
      ring
    rw [value] at fits ⊢
    have sum : ¬ resNum + 58 ^ k * digit > 2 ^ 64 - 1 := by omega
    have next := ih (fun digit member => small digit (.tail _ member)) (by omega) fits
    rw [List.map_cons, decodeBlockLoop, reverseAlphabet_letter (small digit (.head _)),
      order_next, order_eq (by omega)]
    change (if resNum + 58 ^ k * digit > 2 ^ 64 - 1 then none else _) = _
    rw [if_neg sum, next]

/-- What the loop accepts are the letters of digits, and it returns their number. -/
theorem decodeBlockLoop_some {letters : List UInt8} {resNum k num : Nat}
    (inside : k + letters.length ≤ 11) (bounded : resNum < 2 ^ 64)
    (run : decodeBlockLoop letters resNum (58 ^ k % 2 ^ 64) = some num) :
    ∃ digits : List Nat, letters = digits.map letter ∧ (∀ digit ∈ digits, digit < 58) ∧
      num = resNum + 58 ^ k * Nat.ofDigits 58 digits ∧ num < 2 ^ 64 := by
  induction letters generalizing resNum k with
  | nil =>
    cases run
    exact ⟨[], rfl, by simp, rfl, bounded⟩
  | cons c rest ih =>
    rw [List.length_cons] at inside
    rw [decodeBlockLoop, order_next, order_eq (by omega)] at run
    simp only [Option.bind_eq_bind, Option.bind_eq_some_iff, Option.ite_none_left_eq_some] at run
    obtain ⟨digit, found, sum, run⟩ := run
    obtain ⟨smallDigit, same⟩ := letter_of_reverseAlphabet found
    obtain ⟨digits, rfl, small, value, fits⟩ := ih (by omega) (by omega) run
    refine ⟨digit :: digits, by rw [List.map_cons, same], ?_, ?_, fits⟩
    · intro other member
      rcases List.mem_cons.mp member with rfl | later
      · exact smallDigit
      · exact small other later
    · rw [value, Nat.ofDigits_cons, Nat.pow_succ]
      ring

/-! ## Sizes of blocks -/

/-- The digits that a block is written with suffice, and their number tells its size. -/
theorem sizes_of_block {size : Nat} (positive : 0 < size) (small : size ≤ 8) :
    decodedBlockSizes (encodedBlockSizes.getD size 0) = some size ∧
      256 ^ size ≤ 58 ^ encodedBlockSizes.getD size 0 ∧ encodedBlockSizes.getD size 0 ≤ 11 := by
  have all : ∀ size ≤ 8, 0 < size → decodedBlockSizes (encodedBlockSizes.getD size 0) = some size ∧
      256 ^ size ≤ 58 ^ encodedBlockSizes.getD size 0 ∧ encodedBlockSizes.getD size 0 ≤ 11 := by
    decide
  exact all size small positive

/-- An encoded block has the size that belongs to the decoded one. -/
theorem decodedBlockSizes_some {encodedSize size : Nat}
    (found : decodedBlockSizes encodedSize = some size) :
    size ≤ 8 ∧ encodedBlockSizes.getD size 0 = encodedSize := by
  have small : encodedSize < 12 := by
    by_contra large
    have length : decodedBlockSizesData.length = 12 := by decide
    have outside : decodedBlockSizesData[encodedSize]? = none :=
      List.getElem?_eq_none (by omega)
    rw [decodedBlockSizes, outside] at found
    cases found
  have all : ∀ encodedSize < 12, ∀ size ∈ decodedBlockSizes encodedSize,
      size ≤ 8 ∧ encodedBlockSizes.getD size 0 = encodedSize := by
    decide
  exact all encodedSize small size found

/-! ## Blocks there and back -/

theorem encodeBlock_spec {block : List UInt8} (positive : 0 < block.length)
    (small : block.length ≤ 8) :
    ∃ digits : List Nat, digits.length = encodedBlockSizes.getD block.length 0 ∧
      (∀ digit ∈ digits, digit < 58) ∧ Nat.ofDigits 58 digits = uint8beTo64 block ∧
      encodeBlock block = (digits.map letter).reverse := by
  obtain ⟨_, suffice, _⟩ := sizes_of_block positive small
  obtain ⟨digits, length, smallDigits, value, written⟩ :=
    encodeBlockLoop_eq ((uint8beTo64_lt block).trans_le suffice) []
  rw [List.append_nil, List.append_nil] at written
  exact ⟨digits, length, smallDigits, value, written⟩

theorem encodeBlock_length {block : List UInt8} (positive : 0 < block.length)
    (small : block.length ≤ 8) :
    (encodeBlock block).length = encodedBlockSizes.getD block.length 0 := by
  obtain ⟨digits, length, _, _, written⟩ := encodeBlock_spec positive small
  rw [written, List.length_reverse, List.length_map, length]

theorem decodeBlock_of_size {enc : List UInt8} {size : Nat} (positive : 0 < size)
    (found : decodedBlockSizes enc.length = some size) :
    decodeBlock enc = (decodeBlockLoop enc.reverse 0 1).bind fun resNum =>
      if size < fullBlockSize ∧ 2 ^ (8 * size) ≤ resNum then none
      else some (uint64To8be resNum size) := by
  rw [decodeBlock, found]
  cases size with
  | zero => exact absurd positive (Nat.lt_irrefl 0)
  | succ size => rfl

/-- An encoded block is decoded to itself. -/
theorem decodeBlock_encodeBlock {block : List UInt8} (positive : 0 < block.length)
    (small : block.length ≤ 8) : decodeBlock (encodeBlock block) = some block := by
  obtain ⟨digits, length, smallDigits, value, written⟩ := encodeBlock_spec positive small
  obtain ⟨decoded, _, few⟩ := sizes_of_block positive small
  have below := uint8beTo64_lt block
  have word : uint8beTo64 block < 2 ^ 64 :=
    below.trans_le (Nat.pow_le_pow_right (n := 256) (by decide) small)
  have read := @decodeBlockLoop_letters digits 0 0 smallDigits (by rw [length]; omega)
    (by rw [value]; omega)
  rw [value, Nat.pow_zero, Nat.one_mul, Nat.zero_add] at read
  have fits : ¬ (block.length < fullBlockSize ∧ 2 ^ (8 * block.length) ≤ uint8beTo64 block) := by
    rintro ⟨_, large⟩
    rw [Nat.pow_mul] at large
    exact absurd below (Nat.not_lt_of_le large)
  obtain ⟨size, count⟩ := Nat.exists_eq_succ_of_ne_zero (Nat.ne_of_gt positive)
  rw [decodeBlock_of_size positive ((encodeBlock_length positive small).symm ▸ decoded), written,
    List.reverse_reverse]
  change (decodeBlockLoop (digits.map letter) 0 (1 % 2 ^ 64)).bind _ = _
  rw [read, Option.bind_some, if_neg fits]
  exact congrArg some (block_eq (uint64To8be_length small _) (uint8beTo64_uint64To8be small below))

/-- A block of letters that is accepted is the one its bytes are encoded to. -/
theorem encodeBlock_of_decodeBlock {enc block : List UInt8} (few : enc.length ≤ 11)
    (run : decodeBlock enc = some block) :
    decodedBlockSizes enc.length = some block.length ∧ 0 < block.length ∧
      encodeBlock block = enc := by
  unfold decodeBlock at run
  split at run
  · cases run
  · cases run
  · next size nonzero found =>
    obtain ⟨small, encodedSize⟩ := decodedBlockSizes_some found
    have positive : 0 < size := Nat.pos_of_ne_zero nonzero
    simp only [Option.bind_eq_bind, Option.bind_eq_some_iff, Option.ite_none_left_eq_some] at run
    obtain ⟨num, read, fits, run⟩ := run
    cases run
    have length := uint64To8be_length small num
    obtain ⟨digits, letters, smallDigits, value, word⟩ := @decodeBlockLoop_some _ 0 0 _
      (by rw [List.length_reverse]; omega) (by decide) read
    rw [Nat.pow_zero, Nat.one_mul, Nat.zero_add] at value
    have below : num < 256 ^ size := by
      rcases Nat.lt_or_eq_of_le small with short | full
      · have bound := not_and.mp fits short
        rw [Nat.pow_mul] at bound
        exact Nat.lt_of_not_le bound
      · rw [full]
        exact word
    rw [length]
    refine ⟨found, positive, ?_⟩
    obtain ⟨others, count, smallOthers, sameValue, written⟩ :=
      @encodeBlock_spec (uint64To8be num size) (by omega) (by omega)
    have letterCount := congrArg List.length letters
    rw [List.length_reverse, List.length_map] at letterCount
    rw [length, encodedSize, letterCount] at count
    rw [uint8beTo64_uint64To8be small below, value] at sameValue
    rw [written, letters_eq count smallOthers smallDigits sameValue, ← letters,
      List.reverse_reverse]

/-! ## Strings there and back -/

/-- What is left of some data after a full block. -/
theorem take_full_length {data : List UInt8} {count size : Nat}
    (length : data.length / size = count + 1) (positive : 0 < size) :
    (data.take size).length = size ∧ (data.drop size).length / size = count ∧
      (data.drop size).length % size = data.length % size := by
  have full : size ≤ data.length := by
    by_contra short
    rw [Nat.div_eq_of_lt (Nat.lt_of_not_le short)] at length
    cases length
  have split : data.length = (data.drop size).length + size := by
    rw [List.length_drop]
    omega
  refine ⟨List.length_take_of_le full, ?_, ?_⟩
  · rw [split, Nat.add_div_right _ positive] at length
    exact Nat.succ.inj length
  · rw [split, Nat.add_mod_right]

/-- Encoded strings have eleven letters for each full block. -/
theorem encodeBlocks_length {count : Nat} {data : List UInt8}
    (length : data.length / fullBlockSize = count) :
    (encodeBlocks count data).length =
      11 * count + encodedBlockSizes.getD (data.length % fullBlockSize) 0 := by
  induction count generalizing data with
  | zero =>
    have small : data.length < fullBlockSize := (Nat.div_eq_zero_iff_lt (by decide)).mp length
    rw [encodeBlocks, Nat.mul_zero, Nat.zero_add, Nat.mod_eq_of_lt small]
    by_cases positive : 0 < data.length
    · rw [if_pos positive, encodeBlock_length positive (Nat.le_of_lt small)]
    · rw [if_neg positive, Nat.eq_zero_of_not_pos positive]
      rfl
  | succ count ih =>
    obtain ⟨full, rest, last⟩ := take_full_length length (by decide)
    rw [encodeBlocks, List.length_append, encodeBlock_length (by rw [full]; decide)
      (by rw [full]; decide), ih rest, last, full]
    change 11 + _ = _
    omega

theorem decodeBlocks_encodeBlocks {count : Nat} {data : List UInt8}
    (length : data.length / fullBlockSize = count) :
    decodeBlocks count (encodeBlocks count data) = some data := by
  induction count generalizing data with
  | zero =>
    have small : data.length < 8 := (Nat.div_eq_zero_iff_lt (by decide)).mp length
    rw [encodeBlocks]
    by_cases positive : 0 < data.length
    · have written : 0 < (encodeBlock data).length := by
        rw [encodeBlock_length positive (by omega)]
        have sizes : ∀ size < 8, 0 < size → 0 < encodedBlockSizes.getD size 0 := by decide
        exact sizes _ small positive
      rw [if_pos positive, decodeBlocks, if_pos written,
        decodeBlock_encodeBlock positive (by omega)]
    · rw [if_neg positive, List.length_eq_zero_iff.mp (Nat.eq_zero_of_not_pos positive)]
      rfl
  | succ count ih =>
    obtain ⟨full, rest, _⟩ := take_full_length length (by decide)
    have eleven : (encodeBlock (data.take fullBlockSize)).length = fullEncodedBlockSize := by
      rw [encodeBlock_length (by rw [full]; decide) (by rw [full]; decide), full]
      rfl
    rw [encodeBlocks, decodeBlocks, List.take_left' eleven, List.drop_left' eleven,
      decodeBlock_encodeBlock (by rw [full]; decide) (by rw [full]; decide), ih rest]
    exact congrArg some (List.take_append_drop _ _)

/-- What is encoded is decoded again. -/
theorem decode_encode (data : List UInt8) : decode (encode data) = some data := by
  by_cases empty : data = []
  · rw [empty]
    rfl
  · have nonempty : data.isEmpty = false := List.isEmpty_eq_false_iff.mpr empty
    have positive := List.length_pos_iff.mpr empty
    have length := @encodeBlocks_length _ data rfl
    have last : data.length % fullBlockSize < 8 := Nat.mod_lt _ (by decide)
    have sizes : ∀ size < 8, encodedBlockSizes.getD size 0 < 11 ∧
        (0 < size → 0 < encodedBlockSizes.getD size 0) ∧
        decodedBlockSizes (encodedBlockSizes.getD size 0) = some size := by decide
    obtain ⟨below, above, decoded⟩ := sizes _ last
    have count : (encodeBlocks (data.length / fullBlockSize) data).length / fullEncodedBlockSize =
        data.length / fullBlockSize := by
      rw [length, fullEncodedBlockSize, Nat.mul_add_div (by decide), Nat.div_eq_of_lt below]
      rfl
    have remainder : (encodeBlocks (data.length / fullBlockSize) data).length %
        fullEncodedBlockSize = encodedBlockSizes.getD (data.length % fullBlockSize) 0 := by
      rw [length, fullEncodedBlockSize, Nat.mul_add_mod, Nat.mod_eq_of_lt below]
    have written : (encodeBlocks (data.length / fullBlockSize) data).isEmpty = false := by
      rw [List.isEmpty_eq_false_iff, ← List.length_pos_iff, length]
      rcases Nat.eq_zero_or_pos (data.length % fullBlockSize) with whole | part
      · have some : 0 < data.length / fullBlockSize := by
          have split := Nat.div_add_mod data.length fullBlockSize
          rw [whole] at split
          apply Nat.pos_of_ne_zero
          intro none
          rw [none] at split
          omega
        omega
      · have := above part
        omega
    rw [encode, nonempty, if_neg Bool.false_ne_true, decode, written, if_neg Bool.false_ne_true,
      remainder, decoded, count]
    exact decodeBlocks_encodeBlocks rfl

theorem encodeBlocks_of_decodeBlocks {count size : Nat} {enc data : List UInt8}
    (length : enc.length / fullEncodedBlockSize = count)
    (last : decodedBlockSizes (enc.length % fullEncodedBlockSize) = some size)
    (run : decodeBlocks count enc = some data) :
    data.length = 8 * count + size ∧ encodeBlocks count data = enc := by
  induction count generalizing enc data with
  | zero =>
    have small : enc.length < fullEncodedBlockSize :=
      (Nat.div_eq_zero_iff_lt (by decide)).mp length
    rw [Nat.mod_eq_of_lt small] at last
    rw [decodeBlocks] at run
    by_cases positive : 0 < enc.length
    · rw [if_pos positive] at run
      obtain ⟨decoded, some, same⟩ := encodeBlock_of_decodeBlock (Nat.le_of_lt small) run
      rw [decoded, Option.some.injEq] at last
      refine ⟨by omega, ?_⟩
      rw [encodeBlocks, if_pos some, same]
    · rw [if_neg positive] at run
      cases run
      have empty := List.length_eq_zero_iff.mp (Nat.eq_zero_of_not_pos positive)
      rw [empty] at last
      cases last
      exact ⟨rfl, by rw [empty]; rfl⟩
  | succ count ih =>
    obtain ⟨full, rest, tail⟩ := take_full_length length (by decide)
    simp only [decodeBlocks, Option.bind_eq_bind, Option.bind_eq_some_iff, Option.pure_def,
      Option.some.injEq] at run
    obtain ⟨front, first, others, later, rfl⟩ := run
    obtain ⟨decoded, _, same⟩ := encodeBlock_of_decodeBlock (by rw [full]; decide) first
    have eight : front.length = fullBlockSize := by
      rw [full] at decoded
      have known : decodedBlockSizes fullEncodedBlockSize = some fullBlockSize := by decide
      rw [known, Option.some.injEq] at decoded
      exact decoded.symm
    obtain ⟨count', sameRest⟩ := ih rest (by rwa [tail]) later
    constructor
    · rw [List.length_append, eight, count', fullBlockSize]
      omega
    · rw [encodeBlocks, List.take_left' eight, List.drop_left' eight, same, sameRest]
      exact List.take_append_drop _ _

/-- A string that is accepted is the one that its bytes are encoded to. -/
theorem encode_of_decode {enc data : List UInt8} (run : decode enc = some data) :
    encode data = enc := by
  unfold decode at run
  by_cases empty : enc.isEmpty = true
  · rw [if_pos empty] at run
    cases run
    rw [List.isEmpty_iff.mp empty]
    rfl
  · rw [if_neg empty] at run
    split at run
    · cases run
    · next size last =>
      obtain ⟨length, same⟩ := encodeBlocks_of_decodeBlocks rfl last run
      have small : size < 8 := by
        have all : ∀ encodedSize < 11, ∀ size ∈ decodedBlockSizes encodedSize, size < 8 := by
          decide
        exact all _ (Nat.mod_lt _ (by decide)) size last
      have count : data.length / fullBlockSize = enc.length / fullEncodedBlockSize := by
        rw [length, fullBlockSize, Nat.mul_add_div (by decide), Nat.div_eq_of_lt small]
        rfl
      have nonempty : data.isEmpty = false := by
        rw [List.isEmpty_eq_false_iff]
        rintro rfl
        rw [← count] at same
        exact empty (List.isEmpty_iff.mpr same.symm)
      rw [encode, nonempty, if_neg Bool.false_ne_true, count, same]

end Base58
end Virie
