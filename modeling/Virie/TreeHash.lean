import Virie.Foundation.MerkleTree

/-! # The tree hash

`tree_hash` finds the largest power of two below the number of leaves, folds a suffix of the leaves
so that this many values are left, and halves them in place until two are left. Arrays are accessed
with checks here: reading beyond the end or a place that was not written, and writing beyond the
end, have no result. There always is one, and it is the root of a tree whose leaves are the given
hashes in their order. -/

open Foundation

namespace Virie.TreeHash

variable {H : Type} {cnFastHash : H → H → H}

/-- The 64 bytes at an entry of an array: the entry and the one after it. A place that was not
written has no value. -/
def read64 (array : List (Option H)) (i : Nat) : Option (H × H) := do
  let a ← (array[i]?).join
  let b ← (array[i + 1]?).join
  pure (a, b)

def write (array : List (Option H)) (j : Nat) (h : H) : Option (List (Option H)) :=
  if j < array.length then some (array.set j (some h)) else none

/-- The shifts of the first loop: `i` starts at 1 and is doubled below the 64 bits of `size_t`. -/
def shifts : List Nat := [1, 2, 4, 8, 16, 32]

/-- `cnt` after the first loop and the mask. -/
def cntOf (count : Nat) : Nat :=
  let cnt := shifts.foldl (fun cnt i => cnt ||| cnt >>> i) (count - 1)
  cnt &&& ((2 ^ 64 - 1) ^^^ (cnt >>> 1))

/-- The loop that hashes the suffix of the leaves, with the final `i`. -/
def foldSuffix (cnFastHash : H → H → H) (hashes : List (Option H)) (cnt i j : Nat)
    (ints : List (Option H)) : Option (List (Option H) × Nat) :=
  if j < cnt then do
    let (a, b) ← read64 hashes i
    let ints ← write ints j (cnFastHash a b)
    foldSuffix cnFastHash hashes cnt (i + 2) (j + 1) ints
  else some (ints, i)
termination_by cnt - j

/-- The inner loop, which reads and writes the same array. -/
def halve (cnFastHash : H → H → H) (cnt i j : Nat) (ints : List (Option H)) : Option (List (Option H)) :=
  if j < cnt then do
    let (a, b) ← read64 ints i
    let ints ← write ints j (cnFastHash a b)
    halve cnFastHash cnt (i + 2) (j + 1) ints
  else some ints
termination_by cnt - j

/-- The outer loop. -/
def halvings (cnFastHash : H → H → H) (cnt : Nat) (ints : List (Option H)) : Option (List (Option H)) :=
  if cnt > 2 then do
    let ints ← halve cnFastHash (cnt / 2) 0 0 ints
    halvings cnFastHash (cnt / 2) ints
  else some ints
termination_by cnt

/-- The last branch of `tree_hash`. The number of leaves that are copied is computed in `size_t`;
a copy beyond either array has no result. -/
def treeHashMany (cnFastHash : H → H → H) (hashes : List (Option H)) (count : Nat) : Option H := do
  let cnt := cntOf count
  let copied := (2 * cnt + 2 ^ 64 - count) % 2 ^ 64
  if copied > cnt ∨ copied > count then none
  else
    let ints := hashes.take copied ++ List.replicate (cnt - copied) none
    let (ints, i) ← foldSuffix cnFastHash hashes cnt copied copied ints
    if i ≠ count then none
    else
      let ints ← halvings cnFastHash cnt ints
      let (a, b) ← read64 ints 0
      pure (cnFastHash a b)

/-- `tree_hash`. Where an assertion of the function fails there is no result. -/
def treeHash (cnFastHash : H → H → H) (hashes : List H) : Option H :=
  if hashes.length = 0 then none
  else if hashes.length = 1 then hashes[0]?
  else if hashes.length = 2 then do
    let (a, b) ← read64 (hashes.map some) 0
    pure (cnFastHash a b)
  else treeHashMany cnFastHash (hashes.map some) hashes.length

/-! ## The power of two -/

/-- A number whose highest bit is `k` and whose `s` highest bits are set. -/
def Filled (k s m : Nat) : Prop := m < 2 ^ (k + 1) ∧ ∀ j, j ≤ k → k < j + s → m.testBit j = true

theorem filled_smear {k s m : Nat} (filled : Filled k s m) :
    Filled k (s + s) (m ||| m >>> s) := by
  refine ⟨Nat.or_lt_two_pow filled.1 (lt_of_le_of_lt (Nat.shiftRight_le m s) filled.1), ?_⟩
  intro j below near
  rw [Nat.testBit_or, Nat.testBit_shiftRight]
  by_cases already : k < j + s
  · rw [filled.2 j below already, Bool.true_or]
  · rw [filled.2 (s + j) (by omega) (by omega), Bool.or_true]

/-- After the loop all bits up to the highest one are set. -/
theorem smeared {k m : Nat} (low : 2 ^ k ≤ m) (high : m < 2 ^ (k + 1)) (word : k < 64) :
    shifts.foldl (fun cnt i => cnt ||| cnt >>> i) m = 2 ^ (k + 1) - 1 := by
  have start : Filled k 1 m := by
    refine ⟨high, fun j below near => ?_⟩
    have top : j = k := by omega
    rw [top]
    exact Nat.testBit_of_two_pow_le_and_two_pow_add_one_gt low high
  have all : Filled k 64 (shifts.foldl (fun cnt i => cnt ||| cnt >>> i) m) :=
    filled_smear (filled_smear (filled_smear (filled_smear (filled_smear (filled_smear start)))))
  refine Nat.eq_of_testBit_eq fun j => ?_
  rw [Nat.testBit_two_pow_sub_one]
  by_cases below : j < k + 1
  · rw [all.2 j (by omega) (by omega), decide_eq_true below]
  · rw [decide_eq_false below]
    refine Nat.testBit_lt_two_pow (lt_of_lt_of_le all.1 ?_)
    exact Nat.pow_le_pow_right (by decide) (by omega)

theorem cntOf_eq {k count : Nat} (low : 2 ^ k < count) (high : count ≤ 2 ^ (k + 1))
    (word : k < 64) : cntOf count = 2 ^ k := by
  have positive : 0 < 2 ^ k := Nat.two_pow_pos k
  rw [cntOf, smeared (k := k) (by omega) (by omega) word]
  refine Nat.eq_of_testBit_eq fun j => ?_
  rw [Nat.testBit_and, Nat.testBit_xor, Nat.testBit_shiftRight, Nat.testBit_two_pow_sub_one,
    Nat.testBit_two_pow_sub_one, Nat.testBit_two_pow_sub_one, Nat.testBit_two_pow]
  by_cases same : k = j
  · subst same
    simp [word]
  · by_cases below : j < k + 1
    · have inside : 1 + j < k + 1 := by omega
      simp [below, inside, same, show j < 64 by omega]
    · simp [below, same]

/-! ## The loops -/

theorem read64_of_drop {array rest : List (Option H)} {i : Nat} {a b : H}
    (left : array.drop i = some a :: some b :: rest) : read64 array i = some (a, b) := by
  have first : array[i]? = some (some a) := by
    rw [← Nat.add_zero i, ← List.getElem?_drop, left]
    rfl
  have second : array[i + 1]? = some (some b) := by
    rw [← List.getElem?_drop, left]
    rfl
  simp only [read64, first, second, Option.join_some, Option.bind_eq_bind, Option.bind_some,
    Option.pure_def]

/-- Two leaves are left at the front while a loop goes on. -/
theorem two_left {n : Nat} {rest : List H} (even : rest.length = 2 * (n + 1)) :
    ∃ a b later, rest = a :: b :: later ∧ later.length = 2 * n := by
  cases rest with
  | nil => cases even
  | cons a rest =>
    cases rest with
    | nil => simp at even; omega
    | cons b later => exact ⟨a, b, later, rfl, by simpa [Nat.mul_succ] using even⟩

theorem foldSuffix_eq {leaves rest done : List H} {cnt i j n : Nat}
    (left : leaves.drop i = rest) (even : rest.length = 2 * n) (written : done.length = j)
    (remaining : j + n = cnt) :
    foldSuffix cnFastHash (leaves.map some) cnt i j (done.map some ++ List.replicate n none) =
      some ((done ++ pairUp cnFastHash rest).map some, i + 2 * n) := by
  induction n generalizing i j done rest with
  | zero =>
    rw [List.length_eq_zero_iff.1 even, foldSuffix, if_neg (by omega)]
    simp [pairUp]
  | succ n ih =>
    obtain ⟨a, b, later, rfl, even'⟩ := two_left even
    have pair : read64 (leaves.map some) i = some (a, b) := by
      have dropped : (leaves.map some).drop i = some a :: some b :: later.map some := by
        rw [← List.map_drop, left]
        rfl
      exact read64_of_drop dropped
    have wrote : write (done.map some ++ List.replicate (n + 1) none) j (cnFastHash a b) =
        some ((done ++ [cnFastHash a b]).map some ++ List.replicate n none) := by
      have inside : j < (done.map some ++ List.replicate (n + 1) (none : Option H)).length := by
        simp [written]
      have front : (done.map (some : H → Option H)).length = j := by simp [written]
      rw [write, if_pos inside, List.set_append, if_neg (by omega), front, Nat.sub_self]
      simp [List.replicate_succ]
    have after : leaves.drop (i + 2) = later := by
      rw [← List.drop_drop, left]
      rfl
    have next := @ih later (done ++ [cnFastHash a b]) (i + 2) (j + 1) after even'
      (by simp [written]) (by omega)
    rw [foldSuffix, if_pos (by omega), pair]
    simp only [Option.bind_eq_bind, Option.bind_some, wrote, next, pairUp]
    simp only [List.append_assoc, List.singleton_append]
    congr 2
    omega

theorem halve_eq {ints tail : List (Option H)} {rest done : List H} {cnt i j n : Nat}
    (front : ints.take j = done.map some) (written : done.length = j)
    (left : ints.drop i = rest.map some ++ tail) (twice : i = 2 * j)
    (even : rest.length = 2 * n) (remaining : j + n = cnt) :
    ∃ after, halve cnFastHash cnt i j ints = some after ∧
      after.take cnt = (done ++ pairUp cnFastHash rest).map some := by
  induction n generalizing i j ints done rest with
  | zero =>
    refine ⟨ints, ?_, ?_⟩
    · rw [halve, if_neg (by omega)]
    · rw [List.length_eq_zero_iff.1 even, ← remaining, Nat.add_zero, front, pairUp,
        List.append_nil]
  | succ n ih =>
    obtain ⟨a, b, later, rfl, even'⟩ := two_left even
    have pair : read64 ints i = some (a, b) :=
      read64_of_drop left
    have long : i < ints.length := by
      by_contra short
      rw [List.drop_eq_nil_of_le (Nat.le_of_not_lt short)] at left
      cases left
    have inside : j < ints.length := by omega
    have wrote : write ints j (cnFastHash a b) = some (ints.set j (some (cnFastHash a b))) := by
      rw [write, if_pos inside]
    have front' : (ints.set j (some (cnFastHash a b))).take (j + 1) =
        (done ++ [cnFastHash a b]).map some := by
      rw [List.take_add_one, List.take_set_of_le (Nat.le_refl j), front,
        List.getElem?_set_self inside, List.map_append]
      rfl
    have left' : (ints.set j (some (cnFastHash a b))).drop (i + 2) = later.map some ++ tail := by
      rw [List.drop_set_of_lt (by omega), ← List.drop_drop, left]
      rfl
    obtain ⟨after, result, taken⟩ := ih front' (by simp [written]) left' (by omega) even'
      (by omega)
    refine ⟨after, ?_, ?_⟩
    · rw [halve, if_pos (by omega), pair]
      simp only [Option.bind_eq_bind, Option.bind_some, wrote, result]
    · rw [taken, pairUp, List.append_assoc, List.singleton_append]

theorem halvings_eq {k : Nat} {ints : List (Option H)} {level : List H}
    (front : ints.take (2 ^ (k + 1)) = level.map some) (full : level.length = 2 ^ (k + 1)) :
    ∃ after, halvings cnFastHash (2 ^ (k + 1)) ints = some after ∧
      after.take 2 = (pairLevels cnFastHash k level).map some := by
  induction k generalizing ints level with
  | zero =>
    refine ⟨ints, ?_, front⟩
    rw [halvings, if_neg (by decide)]
  | succ k ih =>
    have positive : 0 < 2 ^ k := Nat.two_pow_pos k
    have double : 2 ^ (k + 1 + 1) = 2 * 2 ^ (k + 1) := Nat.pow_succ'
    have above : 2 ^ (k + 1 + 1) > 2 := by
      rw [double, Nat.pow_succ']
      omega
    have half : 2 ^ (k + 1 + 1) / 2 = 2 ^ (k + 1) := by omega
    have left : ints.drop 0 = level.map some ++ ints.drop (2 ^ (k + 1 + 1)) := by
      rw [← front, List.take_append_drop]
      rfl
    obtain ⟨halved, result, taken⟩ := @halve_eq H cnFastHash ints _ level [] (2 ^ (k + 1)) 0 0
      (2 ^ (k + 1)) rfl rfl left rfl (full.trans double) (Nat.zero_add _)
    rw [List.nil_append] at taken
    obtain ⟨after, results, last⟩ := ih taken (pairUp_length (full.trans double))
    refine ⟨after, ?_, last⟩
    rw [halvings, if_pos above, half, result]
    exact results

/-! ## The levels of the tree -/

/-- The number of halvings for a number of leaves. -/
def depth (count : Nat) : Nat := Nat.log2 (count - 1)

/-- The number of leaves at the front that are not hashed with a neighbour on the lowest level. -/
def copiedOf (count : Nat) : Nat := 2 * 2 ^ depth count - count

/-- The hash of a list as the only member of the highest level. -/
def topLevel {α : Type} (combine : α → α → α) (values : List α) : List α :=
  if values.length = 1 then values
  else pairLevels combine (depth values.length)
    (values.take (copiedOf values.length) ++
      pairUp combine (values.drop (copiedOf values.length)))

theorem depth_bounds {count : Nat} (several : 2 ≤ count) :
    2 ^ depth count < count ∧ count ≤ 2 ^ (depth count + 1) := by
  have positive : count - 1 ≠ 0 := by omega
  have low := Nat.log2_self_le positive
  have high := Nat.lt_log2_self (n := count - 1)
  rw [depth]
  omega

/-- The leaves behind the copied ones are paired, and a power of two of values is left. -/
theorem lowest_level {α : Type} {combine : α → α → α} {values : List α}
    (several : 2 ≤ values.length) :
    (values.drop (copiedOf values.length)).length =
        2 * (2 ^ depth values.length - copiedOf values.length) ∧
      copiedOf values.length ≤ 2 ^ depth values.length ∧
      (values.take (copiedOf values.length) ++
        pairUp combine (values.drop (copiedOf values.length))).length =
          2 ^ depth values.length := by
  obtain ⟨low, high⟩ := depth_bounds several
  rw [Nat.pow_succ'] at high
  have even : (values.drop (copiedOf values.length)).length =
      2 * (2 ^ depth values.length - copiedOf values.length) := by
    rw [List.length_drop, copiedOf]
    omega
  refine ⟨even, by rw [copiedOf]; omega, ?_⟩
  rw [List.length_append, pairUp_length even, List.length_take, copiedOf]
  omega

/-- The highest level has one member. -/
theorem topLevel_length {α : Type} {combine : α → α → α} {values : List α}
    (any : 1 ≤ values.length) : (topLevel combine values).length = 1 := by
  rw [topLevel]
  split
  · assumption
  · refine pairLevels_length ?_
    rw [(lowest_level (by omega)).2.2, Nat.mul_one]

theorem topLevel_map {α β : Type} {combine : α → α → α} {combine' : β → β → β} {f : α → β}
    (respects : ∀ a b, f (combine a b) = combine' (f a) (f b)) (values : List α) :
    (topLevel combine values).map f = topLevel combine' (values.map f) := by
  rw [topLevel, topLevel, List.length_map]
  split
  · rfl
  · rw [pairLevels_map respects, List.map_append, pairUp_map respects, List.map_take,
      List.map_drop]

theorem topLevel_leaves {α : Type} {trees : List (MerkleTree α)} (any : 1 ≤ trees.length) :
    (topLevel .node trees).flatMap MerkleTree.leaves = trees.flatMap MerkleTree.leaves := by
  rw [topLevel]
  split
  · rfl
  · have lowest := @lowest_level _ MerkleTree.node trees (by omega)
    rw [MerkleTree.pairLevels_leaves (n := 1) (by rw [lowest.2.2, Nat.mul_one]),
      List.flatMap_append, MerkleTree.pairUp_leaves lowest.1, ← List.flatMap_append,
      List.take_append_drop]

/-- The number of copied leaves in `size_t`. -/
theorem copied_eq {count : Nat} (several : 2 ≤ count) (word : count < 2 ^ 64) :
    cntOf count = 2 ^ depth count ∧
      (2 * cntOf count + 2 ^ 64 - count) % 2 ^ 64 = copiedOf count := by
  obtain ⟨low, high⟩ := depth_bounds several
  have small : depth count < 64 :=
    (Nat.pow_lt_pow_iff_right (by decide)).1 (low.trans word)
  have cnt := cntOf_eq low high small
  rw [Nat.pow_succ'] at high
  refine ⟨cnt, ?_⟩
  rw [cnt, copiedOf]
  omega

/-- The two values that are left are read. -/
theorem read64_of_take {array : List (Option H)} {a b : H}
    (front : array.take 2 = [some a, some b]) : read64 array 0 = some (a, b) := by
  have split : array.drop 0 = some a :: some b :: array.drop 2 := by
    rw [List.drop_zero, ← List.take_append_drop 2 array, front]
    simp
  exact read64_of_drop split

/-- The last branch computes the highest level. -/
theorem treeHashMany_eq {hashes : List H} (several : 3 ≤ hashes.length)
    (word : hashes.length < 2 ^ 64) :
    ∃ root, topLevel cnFastHash hashes = [root] ∧
      treeHashMany cnFastHash (hashes.map some) hashes.length = some root := by
  obtain ⟨even, fewer, full⟩ := @lowest_level H cnFastHash hashes (by omega)
  obtain ⟨cnt, copied⟩ := copied_eq (by omega) word
  rw [cnt] at copied
  obtain ⟨k, deep⟩ : ∃ k, depth hashes.length = k + 1 := by
    refine Nat.exists_eq_succ_of_ne_zero fun zero => ?_
    have high := (@depth_bounds hashes.length (by omega)).2
    rw [zero] at high
    omega
  generalize level_def : hashes.take (copiedOf hashes.length) ++
    pairUp cnFastHash (hashes.drop (copiedOf hashes.length)) = level at full
  have short : copiedOf hashes.length ≤ hashes.length := by
    have low := (@depth_bounds hashes.length (by omega)).1
    omega
  have folded : foldSuffix cnFastHash (hashes.map some) (2 ^ depth hashes.length)
      (copiedOf hashes.length) (copiedOf hashes.length)
      ((hashes.map some).take (copiedOf hashes.length) ++
        List.replicate (2 ^ depth hashes.length - copiedOf hashes.length) none) =
      some (level.map some, hashes.length) := by
    have result := @foldSuffix_eq H cnFastHash hashes _ (hashes.take (copiedOf hashes.length))
      (2 ^ depth hashes.length) (copiedOf hashes.length) (copiedOf hashes.length) _ rfl even
      (by rw [List.length_take]; omega) (by omega)
    rw [List.map_take] at result
    rw [result, level_def]
    congr 2
    rw [List.length_drop] at even
    omega
  rw [deep] at full
  obtain ⟨after, halved, front⟩ := @halvings_eq H cnFastHash k (level.map some) level
    (by rw [← full, ← List.length_map, List.take_length]) full
  have two : (pairLevels cnFastHash k level).length = 2 :=
    pairLevels_length (full.trans (Nat.pow_succ 2 k))
  obtain ⟨a, b, pair⟩ := List.length_eq_two.1 two
  rw [pair] at front
  refine ⟨cnFastHash a b, ?_, ?_⟩
  · rw [topLevel, if_neg (by omega), level_def, deep, pairLevels_succ, pair]
    rfl
  · rw [treeHashMany]
    simp only [cnt, copied]
    rw [if_neg (by omega), folded]
    simp only [Option.bind_eq_bind, Option.bind_some, ne_eq, not_true_eq_false, if_false]
    rw [deep, halved]
    simp only [Option.bind_some, read64_of_take front, Option.pure_def]

/-- `tree_hash` has a result, the highest level. -/
theorem treeHash_eq (cnFastHash : H → H → H) {hashes : List H} (any : 1 ≤ hashes.length)
    (word : hashes.length < 2 ^ 64) :
    ∃ root, topLevel cnFastHash hashes = [root] ∧ treeHash cnFastHash hashes = some root := by
  rw [treeHash, if_neg (by omega)]
  by_cases one : hashes.length = 1
  · obtain ⟨a, rfl⟩ := List.length_eq_one_iff.1 one
    exact ⟨a, rfl, rfl⟩
  · rw [if_neg one]
    by_cases two : hashes.length = 2
    · obtain ⟨a, b, rfl⟩ := List.length_eq_two.1 two
      exact ⟨cnFastHash a b, rfl, rfl⟩
    · rw [if_neg two]
      exact treeHashMany_eq (by omega) word

/-- `tree_hash` has a result for every number of leaves: the root of a tree with the leaves in their
order, the tree it computes where hashing is keeping. Its shape is the tree of leaves without
values. -/
theorem treeHash_tree (cnFastHash : H → H → H) {hashes : List H} (any : 1 ≤ hashes.length)
    (word : hashes.length < 2 ^ 64) :
    ∃ tree : MerkleTree H, treeHash MerkleTree.node (hashes.map MerkleTree.leaf) = some tree ∧
      tree.leaves = hashes ∧ treeHash cnFastHash hashes = some (tree.root cnFastHash) ∧
      treeHash MerkleTree.node (List.replicate hashes.length (MerkleTree.leaf ())) =
        some tree.shape := by
  obtain ⟨tree, top, result⟩ := @treeHash_eq (MerkleTree H) MerkleTree.node
    (hashes.map MerkleTree.leaf) (by rwa [List.length_map]) (by rwa [List.length_map])
  refine ⟨tree, result, ?_, ?_, ?_⟩
  · have leaves := @topLevel_leaves H (hashes.map MerkleTree.leaf) (by rwa [List.length_map])
    rw [top] at leaves
    simpa [MerkleTree.leaves, List.flatMap_map] using leaves
  · obtain ⟨root, topRoot, hashed⟩ := treeHash_eq cnFastHash any word
    have mapped := @topLevel_map _ _ MerkleTree.node cnFastHash (MerkleTree.root cnFastHash)
      (fun _ _ => rfl) (hashes.map MerkleTree.leaf)
    rw [top, List.map_map] at mapped
    have same : hashes.map (MerkleTree.root cnFastHash ∘ MerkleTree.leaf) = hashes :=
      List.map_id hashes
    rw [same, topRoot] at mapped
    rw [hashed, ← List.head_eq_of_cons_eq mapped]
  · obtain ⟨shape, topShape, shaped⟩ := @treeHash_eq (MerkleTree Unit) MerkleTree.node
      (List.replicate hashes.length (MerkleTree.leaf ())) (by rwa [List.length_replicate])
      (by rwa [List.length_replicate])
    have mapped := @topLevel_map _ _ MerkleTree.node MerkleTree.node MerkleTree.shape
      (fun _ _ => rfl) (hashes.map MerkleTree.leaf)
    have same : (hashes.map MerkleTree.leaf).map MerkleTree.shape =
        List.replicate hashes.length (MerkleTree.leaf ()) := by
      rw [List.map_map]
      exact List.map_const'
    rw [top, same, topShape] at mapped
    rw [shaped, ← List.head_eq_of_cons_eq mapped]

end Virie.TreeHash
