import Virie.Storage.AltChain

/-! # Timestamps on a branch and on the main chain

An alternative block is judged by the newest timestamps of its branch above the genesis
block, the same window that the main-chain test would take if the branch were the main
chain; the order of the two lists differs, their median does not. The limits on future
times are another matter: the main-chain test applies them to every block, the alternative
path only the one for stakes, and only when the window is full. -/

open Foundation

namespace Virie

/-! ## The window -/

/-- The timestamps of the last `n` blocks above genesis, oldest first. -/
def timestampWindow (n : Nat) (blocks : List BlockExtendedInfo) : List Nat :=
  (blocks.drop (max 1 (blocks.length - n))).map fun bei => bei.bl.timestamp

theorem median_perm {first second : List Nat} (same : first.Perm second) :
    median first = median second := by
  have sorted : first.insertionSort (· ≤ ·) = second.insertionSort (· ≤ ·) := by
    refine List.Perm.eq_of_pairwise (fun a b _ _ => Nat.le_antisymm)
      (List.pairwise_insertionSort _ _) (List.pairwise_insertionSort _ _) ?_
    exact (List.perm_insertionSort _ _).trans (same.trans (List.perm_insertionSort _ _).symm)
  have empty : first.isEmpty = second.isEmpty := by
    rw [Bool.eq_iff_iff, List.isEmpty_iff_length_eq_zero, List.isEmpty_iff_length_eq_zero,
      same.length_eq]
  unfold median
  rw [sorted, same.length_eq, empty]

section Window

variable (chain : Chain) (altChain : AltChain) (connectionHeight : Nat)

/-- The blocks of a branch: the main chain below the split, then the alternative ancestors. -/
def branchBlocks : List BlockExtendedInfo :=
  chain.db.blocks.take connectionHeight ++
    altChain.map fun entry => entry.2.toBlockExtendedInfo

/-- The storage with a branch as its main chain. -/
def branchAsMain : Chain :=
  { chain with db := { chain.db with blocks := branchBlocks chain altChain connectionHeight } }

/-- The timestamp test of the alternative path. -/
def altTimestampAccepts (b : Block) : Bool :=
  match chain.altTimestamps altChain connectionHeight with
  | .ok timestamps => checkBlockTimestamp chain timestamps b
  | .error _ => false

variable {chain altChain connectionHeight}

theorem lastTimestamps_eq {db : Db} {n : Nat} (some : db.blocks ≠ []) (positive : 0 < n) :
    db.getLastNBlocksTimestamps n = timestampWindow n db.blocks := by
  have inside : 0 < db.blocks.length := List.length_pos_iff.mpr some
  have found : db.completeTimestampsVector (db.blocks.length - 1) [] n =
      .ok (timestampWindow n db.blocks) := by
    unfold Db.completeTimestampsVector
    rw [if_neg (by rw [List.length_nil]; omega), decide_eq_true (by omega)]
    change Except.ok _ = _
    rw [List.nil_append, List.length_nil, Nat.sub_zero, Nat.sub_add_cancel inside,
      List.take_of_length_le (Nat.le_refl _)]
    unfold timestampWindow
    congr 3
    split <;> omega
  rw [Db.getLastNBlocksTimestamps, found]

theorem length_branchBlocks (below : connectionHeight ≤ chain.db.blocks.length) :
    (branchBlocks chain altChain connectionHeight).length =
      connectionHeight + altChain.length := by
  rw [branchBlocks, List.length_append, List.length_take, List.length_map, Nat.min_eq_left below]

/-- The alternative path collects the window of the branch, in another order. -/
theorem altTimestamps_perm (positive : 0 < connectionHeight)
    (below : connectionHeight ≤ chain.db.blocks.length) :
    ∃ timestamps, chain.altTimestamps altChain connectionHeight = .ok timestamps ∧
      timestamps.Perm (timestampWindow blockchainTimestampCheckWindow
        (branchBlocks chain altChain connectionHeight)) := by
  have length : (branchBlocks chain altChain connectionHeight).length = _ :=
    length_branchBlocks below
  have prefixLength : (chain.db.blocks.take connectionHeight).length = connectionHeight := by
    rw [List.length_take, Nat.min_eq_left below]
  have collected : (altChain.newestFirst.take blockchainTimestampCheckWindow).length =
      min blockchainTimestampCheckWindow altChain.length := by
    rw [List.length_take, AltChain.newestFirst, List.length_map, List.length_reverse]
  unfold Chain.altTimestamps Db.completeTimestampsVector
  rw [List.length_map, collected]
  by_cases full : blockchainTimestampCheckWindow ≤ altChain.length
  · -- the branch alone fills the window
    rw [if_pos (by omega)]
    refine ⟨_, rfl, ?_⟩
    unfold timestampWindow
    rw [length, branchBlocks, List.drop_append, List.drop_of_length_le (by
      rw [prefixLength, blockchainTimestampCheckWindow] at *; omega), List.nil_append,
      prefixLength]
    refine List.Perm.map _ ?_
    rw [AltChain.newestFirst, ← List.map_take, ← List.map_drop, List.take_reverse]
    refine List.Perm.map _ ((List.reverse_perm _).trans (List.Perm.of_eq ?_))
    congr 1
    rw [blockchainTimestampCheckWindow] at *
    omega
  · rw [if_neg (by omega), decide_eq_true (by omega)]
    refine ⟨_, rfl, ?_⟩
    rw [Nat.sub_add_cancel positive]
    unfold timestampWindow
    rw [length, branchBlocks, List.drop_append_of_le_length (by
      rw [prefixLength, blockchainTimestampCheckWindow] at *; omega), List.map_append]
    refine List.perm_append_comm.trans (List.Perm.append (List.Perm.of_eq ?_) (List.Perm.map _ ?_))
    · congr 2
      rw [blockchainTimestampCheckWindow] at *
      split <;> omega
    · rw [AltChain.newestFirst, List.take_of_length_le (by
        rw [List.length_map, List.length_reverse]; omega), List.map_reverse]
      exact List.reverse_perm _

/-- A block that fails the test is refused. -/
theorem validateAltBlock_rejects (E : Env) {node : Node} {b : Block} {id : Hash}
    {position : AltPosition}
    (rejects : altTimestampAccepts node.chain position.altChain position.connectionHeight b =
      false) : ∃ stop, validateAltBlock E node b id position = .error stop := by
  unfold altTimestampAccepts at rejects
  unfold validateAltBlock
  dsimp only
  cases collected : node.chain.altTimestamps position.altChain position.connectionHeight with
  | error stop => exact ⟨stop, rfl⟩
  | ok timestamps =>
    rw [collected] at rejects
    dsimp only at rejects
    refine ⟨.refused, ?_⟩
    change (Outcome.require (checkBlockTimestamp node.chain timestamps b) >>= _) = _
    rw [rejects]
    rfl

end Window

/-! ## The two tests -/

section Tests

variable {chain : Chain} {altChain : AltChain} {connectionHeight : Nat} {b : Block}

/-- A block lies within the future limits that the main-chain test applies. -/
def withinFutureLimits (coreTime : Nat) (b : Block) : Prop :=
  b.timestamp ≤ coreTime + currencyBlockFutureTimeLimit ∧
    (isPosBlock b = true → b.timestamp ≤ coreTime + currencyPosBlockFutureTimeLimit)

/-- A full window refuses a block for its stake limit or for the median. -/
def refusedByWindow (coreTime : Nat) (window : List Nat) (b : Block) : Prop :=
  blockchainTimestampCheckWindow ≤ window.length ∧
    (isPosBlock b = true ∧ coreTime + currencyPosBlockFutureTimeLimit < b.timestamp ∨
      b.timestamp < median window)

theorem checkBlockTimestamp_iff {timestamps : List Nat} :
    checkBlockTimestamp chain timestamps b = true ↔
      ¬ refusedByWindow chain.coreTime timestamps b := by
  unfold checkBlockTimestamp refusedByWindow
  by_cases short : timestamps.length < blockchainTimestampCheckWindow
  · rw [if_pos short]
    simp only [true_iff, not_and]
    exact fun full => absurd full (Nat.not_le.mpr short)
  · rw [if_neg short]
    have full := Nat.le_of_not_lt short
    by_cases late : (isPosBlock b && decide (b.timestamp >
        chain.coreTime + currencyPosBlockFutureTimeLimit)) = true
    · rw [if_pos late]
      rw [Bool.and_eq_true, decide_eq_true_iff] at late
      simp only [Bool.false_eq_true, false_iff, not_not]
      exact ⟨full, .inl late⟩
    · rw [if_neg late]
      rw [Bool.and_eq_true, decide_eq_true_iff] at late
      rw [decide_eq_true_iff]
      constructor
      · rintro above ⟨_, stake | old⟩
        · exact late stake
        · omega
      · intro stays
        by_contra old
        exact stays ⟨full, .inr (Nat.lt_of_not_le old)⟩

theorem refusedByWindow_perm {coreTime : Nat} {first second : List Nat}
    (same : first.Perm second) :
    refusedByWindow coreTime first b ↔ refusedByWindow coreTime second b := by
  unfold refusedByWindow
  rw [same.length_eq, median_perm same]

theorem altTimestampAccepts_iff (positive : 0 < connectionHeight)
    (below : connectionHeight ≤ chain.db.blocks.length) :
    altTimestampAccepts chain altChain connectionHeight b = true ↔
      ¬ refusedByWindow chain.coreTime (timestampWindow blockchainTimestampCheckWindow
        (branchBlocks chain altChain connectionHeight)) b := by
  obtain ⟨timestamps, collected, same⟩ :
      ∃ timestamps, chain.altTimestamps altChain connectionHeight = .ok timestamps ∧ _ :=
    altTimestamps_perm positive below
  unfold altTimestampAccepts
  rw [collected]
  dsimp only
  rw [checkBlockTimestamp_iff, refusedByWindow_perm same]

theorem branchBlocks_ne_nil (positive : 0 < connectionHeight)
    (below : connectionHeight ≤ chain.db.blocks.length) :
    branchBlocks chain altChain connectionHeight ≠ [] := by
  intro empty
  have length : (branchBlocks chain altChain connectionHeight).length = _ :=
    length_branchBlocks below
  rw [empty, List.length_nil] at length
  omega

theorem checkBlockTimestampMain_iff (some : chain.db.blocks ≠ []) :
    checkBlockTimestampMain chain b = true ↔
      withinFutureLimits chain.coreTime b ∧ ¬ refusedByWindow chain.coreTime
        (timestampWindow blockchainTimestampCheckWindow chain.db.blocks) b := by
  unfold checkBlockTimestampMain withinFutureLimits
  rw [lastTimestamps_eq some (by decide)]
  by_cases late : b.timestamp > chain.coreTime + currencyBlockFutureTimeLimit
  · rw [if_pos late]
    simp only [Bool.false_eq_true, false_iff]
    rintro ⟨⟨early, _⟩, _⟩
    omega
  · rw [if_neg late]
    by_cases lateStake : (isPosBlock b && decide (b.timestamp >
        chain.coreTime + currencyPosBlockFutureTimeLimit)) = true
    · rw [if_pos lateStake]
      rw [Bool.and_eq_true, decide_eq_true_iff] at lateStake
      simp only [Bool.false_eq_true, false_iff]
      rintro ⟨⟨_, early⟩, _⟩
      have bound := early lateStake.1
      omega
    · rw [if_neg lateStake, checkBlockTimestamp_iff]
      rw [Bool.and_eq_true, decide_eq_true_iff] at lateStake
      refine (and_iff_right ⟨Nat.le_of_not_lt late, fun stake => ?_⟩).symm
      by_contra beyond
      exact lateStake ⟨stake, Nat.lt_of_not_le beyond⟩

/-- A main chain of one block. -/
def genesisOnly : Chain := { db := { blocks := [default] } }

end Tests

end Virie
