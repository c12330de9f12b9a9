import Virie.Node

/-! # Accepted alternative blocks

Where an accepted alternative block stands and what its acceptance checked: the branch
below it consists of stored blocks, leaves the main chain above a block that names its
bottom, and fixes the height and the difficulties of the new entry. -/

open Foundation

namespace Virie

/-- A position above a branch of stored blocks that leaves the main chain, or above a main-chain
block. -/
structure AltPlaced (E : Env) (chain : Chain) (bl : Block) (position : AltPosition) : Prop where
  branch : position.altChain =
    altAncestors chain.alternativeChains chain.alternativeChains.size bl.prevId
  low : position.connectionHeight ≤ chain.db.blocks.length
  split : ∀ first, position.altChain.head? = some first →
    first.2.height = position.connectionHeight ∧
    ∃ parent, chain.db.blocks[position.connectionHeight - 1]? = some parent ∧
      getBlockHash E parent.bl = first.2.bl.prevId
  top : ∀ last, position.altChain.getLast? = some last →
    position.height = last.2.height + 1 ∧
    position.parentAdjusted = last.2.cumulativeDiffAdjusted
  alone : position.altChain = [] → ∃ parent,
    chain.db.blocksIndex.get bl.prevId = some (position.connectionHeight - 1) ∧
    chain.db.blocks[position.connectionHeight - 1]? = some parent ∧
    position.height = position.connectionHeight ∧ 1 ≤ position.connectionHeight ∧
    position.parentAdjusted = parent.cumulativeDiffAdjusted

/-- What the checks of an alternative block establish about the entry that is stored for it. -/
structure AltAccepted (E : Env) (node : Node) (bl : Block) (id : Hash) (position : AltPosition)
    (accepted : AltAcceptance) : Prop where
  height : getBlockHeight bl = position.height
  split : position.connectionHeight ≠ 0
  coinbase : prevalidateMinerTransaction bl position.height (isPosBlock bl) = true
  difficulty : node.chain.getNextDiffConditional2 (isPosBlock bl) position.altChain
    position.connectionHeight = .ok accepted.entry.difficulty
  cumulative : altCumulativeDifficulties E node.chain (isPosBlock bl) accepted.entry.difficulty
    position = .ok (accepted.entry.cumulativeDiffPrecise, accepted.entry.cumulativeDiffAdjusted)
  entryBl : accepted.entry.bl = bl
  entryHeight : accepted.entry.height = position.height
  txs : ∃ base abei : AltBlockExtendedInfo, base.height = position.height ∧
    validateAltBlockTxs E node position.connectionHeight position.altChain id bl base =
      .ok (accepted.keyimages, abei) ∧
    accepted.entry.gindexLookupTable = abei.gindexLookupTable ∧
    accepted.entry.outputsPubKeys = abei.outputsPubKeys ∧ base.outputsPubKeys = ∅

section AltBlocks

variable {E : Env} {node : Node}

/-! ## The branch below a block -/

/-- The ancestors of a block are stored. -/
theorem mem_altAncestors {stored : Container Hash AltBlockExtendedInfo} {fuel : Nat} {id : Hash}
    {entry : Hash × AltBlockExtendedInfo} (member : entry ∈ altAncestors stored fuel id) :
    stored.get entry.1 = some entry.2 := by
  induction fuel generalizing id with
  | zero => cases member
  | succ fuel ih =>
    unfold altAncestors at member
    split at member
    · cases member
    · next found =>
      rcases List.mem_append.mp member with below | top
      · exact ih below
      · rw [List.mem_singleton.mp top]
        exact found

/-- The steps of an accepted offer. -/
theorem prepareAltBlock_ok {bl : Block} {id : Hash} {position : AltPosition}
    {accepted : AltAcceptance}
    (prepared : prepareAltBlock E node bl id = .ok (some (position, accepted))) :
    ∃ altChain, node.chain.buildAltSubchain E bl = .ok altChain ∧
      (altChain.isEmpty && (node.chain.db.checkedGetHeightById bl.prevId).isNone) = false ∧
      node.chain.altPosition altChain ((node.chain.db.checkedGetHeightById bl.prevId).getD 0) =
        .ok position ∧
      validateAltBlock E node bl id position = .ok accepted := by
  simp only [prepareAltBlock, Outcome.bind_ok] at prepared
  obtain ⟨_, _, altChain, built, prepared⟩ := prepared
  split at prepared
  · simp at prepared
  · next placed =>
    simp only [Outcome.bind_ok, Outcome.pure_ok, Option.some.injEq, Prod.mk.injEq] at prepared
    obtain ⟨_, positioned, _, validated, rfl, rfl⟩ := prepared
    exact ⟨altChain, built, Bool.eq_false_iff.mpr placed, positioned, validated⟩

theorem buildAltSubchain_ok {chain : Chain} {bl : Block} {altChain : AltChain}
    (built : chain.buildAltSubchain E bl = .ok altChain) :
    altChain = altAncestors chain.alternativeChains chain.alternativeChains.size bl.prevId ∧
      ∀ first, altChain.head? = some first → first.2.height ≤ chain.db.blocks.length ∧
        ∃ parent, chain.db.blocks[first.2.height - 1]? = some parent ∧
          getBlockHash E parent.bl = first.2.bl.prevId := by
  unfold Chain.buildAltSubchain at built
  dsimp only at built
  generalize altAncestors chain.alternativeChains chain.alternativeChains.size bl.prevId = found
    at built ⊢
  cases found with
  | nil =>
    simp only [List.head?_nil, Outcome.pure_ok] at built
    subst built
    exact ⟨rfl, fun first top => by cases top⟩
  | cons first rest =>
    simp only [List.head?_cons, Outcome.bind_ok, Outcome.require_ok, Db.blockAt, Outcome.demand_ok,
      Outcome.pure_ok, decide_eq_true_eq, beq_iff_eq] at built
    obtain ⟨_, low, parent, present, _, linked, rfl⟩ := built
    refine ⟨rfl, fun other top => ?_⟩
    cases top
    exact ⟨low, parent, present, linked⟩

/-- The position above a branch, and the one above a main-chain block. -/
theorem altPosition_ok {chain : Chain} {altChain : AltChain} {height : Nat}
    {position : AltPosition} (positioned : chain.altPosition altChain height = .ok position) :
    position.altChain = altChain ∧
      ((∃ first last, altChain.head? = some first ∧ altChain.getLast? = some last ∧
        position.height = last.2.height + 1 ∧ position.connectionHeight = first.2.height ∧
        position.parentAdjusted = last.2.cumulativeDiffAdjusted) ∨
      altChain = [] ∧ position.height = height + 1 ∧ position.connectionHeight = height + 1 ∧
        ∃ parent, chain.db.blocks[height]? = some parent ∧
          position.parentAdjusted = parent.cumulativeDiffAdjusted) := by
  unfold Chain.altPosition at positioned
  cases altChain with
  | nil =>
    simp only [List.head?_nil, List.getLast?_nil, Outcome.bind_ok, Db.blockAt, Outcome.demand_ok,
      Outcome.pure_ok] at positioned
    obtain ⟨parent, present, rfl⟩ := positioned
    exact ⟨rfl, .inr ⟨rfl, rfl, rfl, parent, present, rfl⟩⟩
  | cons first rest =>
    obtain ⟨last, newest⟩ : ∃ last, (first :: rest).getLast? = some last :=
      ⟨_, List.getLast?_eq_some_getLast (List.cons_ne_nil _ _)⟩
    simp only [List.head?_cons, newest, Outcome.pure_ok] at positioned
    subst positioned
    exact ⟨rfl, .inl ⟨first, last, rfl, newest, rfl, rfl, rfl⟩⟩

/-- An accepted offer has a position. -/
theorem altPlaced_of_prepare {bl : Block} {id : Hash} {position : AltPosition}
    {accepted : AltAcceptance}
    (prepared : prepareAltBlock E node bl id = .ok (some (position, accepted))) :
    AltPlaced E node.chain bl position := by
  obtain ⟨altChain, built, placed, positioned, _⟩ := prepareAltBlock_ok prepared
  obtain ⟨branch, bottom⟩ := buildAltSubchain_ok built
  obtain ⟨rfl, place⟩ := altPosition_ok positioned
  rcases place with ⟨first, last, head, newest, height, connection, adjusted⟩ |
    ⟨none, height, connection, parent, present, adjusted⟩
  · obtain ⟨low, parent, present, linked⟩ := bottom first head
    refine ⟨branch, by omega, fun other top => ?_, fun other top => ?_, fun none => ?_⟩
    · cases top.symm.trans head
      rw [connection]
      exact ⟨rfl, parent, present, linked⟩
    · cases top.symm.trans newest
      exact ⟨height, adjusted⟩
    · simp [none] at head
  · have stored : ∃ h, node.chain.db.checkedGetHeightById bl.prevId = some h := by
      rw [none] at placed
      exact Option.isSome_iff_exists.mp (by simpa using placed)
    obtain ⟨h, indexed⟩ := stored
    rw [indexed, Option.getD_some] at height connection present
    simp only [Db.checkedGetHeightById, Option.filter_eq_some_iff, decide_eq_true_eq] at indexed
    refine ⟨branch, by omega, fun other top => ?_, fun other top => ?_, fun _ => ?_⟩
    · simp [none] at top
    · simp [none] at top
    · rw [connection, Nat.add_sub_cancel]
      exact ⟨parent, indexed.1, present, height, by omega, adjusted⟩

/-- The branch of a position consists of stored blocks. -/
theorem AltPlaced.mem_branch {bl : Block} {position : AltPosition}
    (placed : AltPlaced E node.chain bl position) {entry : Hash × AltBlockExtendedInfo}
    (member : entry ∈ position.altChain) :
    node.chain.alternativeChains.get entry.1 = some entry.2 := by
  rw [placed.branch] at member
  exact mem_altAncestors member

/-- Blocks are only offered to a chain with a block on it. -/
theorem AltPlaced.nonempty {chain : Chain} {bl : Block} {position : AltPosition}
    (placed : AltPlaced E chain bl position) : chain.db.blocks ≠ [] := by
  intro none
  cases branch : position.altChain with
  | nil =>
    obtain ⟨_, _, present, _⟩ := placed.alone branch
    rw [none] at present
    cases present
  | cons first rest =>
    obtain ⟨_, _, present, _⟩ := placed.split first (by rw [branch]; rfl)
    rw [none] at present
    cases present

/-- Alternative blocks stand above the genesis block. -/
theorem AltPlaced.height_pos {chain : Chain} {bl : Block} {position : AltPosition}
    (placed : AltPlaced E chain bl position) : 1 ≤ position.height := by
  cases newest : position.altChain.getLast? with
  | none =>
    obtain ⟨parent, _, _, height, above, _⟩ := placed.alone (List.getLast?_eq_none_iff.mp newest)
    omega
  | some last =>
    have height := (placed.top last newest).1
    omega

/-! ## The checks of an accepted block -/

theorem updateAltOutIndex_info (db : Db) (abei : AltBlockExtendedInfo) (o : TxOut) :
    (updateAltOutIndex db abei o).toBlockExtendedInfo = abei.toBlockExtendedInfo := by
  unfold updateAltOutIndex
  cases o.target <;> rfl

theorem updateAltOutIndexesForTxInBlock_info (db : Db) (tx : TransactionPrefix)
    (abei : AltBlockExtendedInfo) :
    (updateAltOutIndexesForTxInBlock db tx abei).toBlockExtendedInfo =
      abei.toBlockExtendedInfo := by
  unfold updateAltOutIndexesForTxInBlock
  induction tx.vout generalizing abei with
  | nil => rfl
  | cons out rest ih => rw [List.foldl_cons, ih, updateAltOutIndex_info]

theorem validateAltTxs_info {splitHeight : Nat} {altChain : AltChain} {id : Hash}
    {collected result : KeySet KeyImage} {abei after : AltBlockExtendedInfo} {txIds : List Hash}
    (run : validateAltTxs E node splitHeight altChain id collected abei txIds =
      .ok (result, after)) : after.toBlockExtendedInfo = abei.toBlockExtendedInfo := by
  induction txIds generalizing collected abei with
  | nil =>
    cases run
    rfl
  | cons txId rest ih =>
    simp only [validateAltTxs, Outcome.bind_ok] at run
    obtain ⟨_, _, run⟩ := run
    rw [ih run, updateAltOutIndexesForTxInBlock_info]

theorem validateAltBlockTxs_info {splitHeight : Nat} {altChain : AltChain} {id : Hash} {bl : Block}
    {result : KeySet KeyImage} {abei after : AltBlockExtendedInfo}
    (run : validateAltBlockTxs E node splitHeight altChain id bl abei = .ok (result, after)) :
    after.toBlockExtendedInfo = abei.toBlockExtendedInfo := by
  simp only [validateAltBlockTxs, Outcome.bind_ok] at run
  obtain ⟨_, _, _, _, run⟩ := run
  rw [validateAltTxs_info run, updateAltOutIndexesForTxInBlock_info]

theorem altAccepted_of_prepare {bl : Block} {id : Hash} {position : AltPosition}
    {accepted : AltAcceptance}
    (prepared : prepareAltBlock E node bl id = .ok (some (position, accepted))) :
    AltAccepted E node bl id position accepted := by
  obtain ⟨_, _, _, _, validated⟩ := prepareAltBlock_ok prepared
  simp only [validateAltBlock, Outcome.bind_ok, Outcome.require_ok, Outcome.pure_ok, beq_iff_eq,
    bne_iff_ne] at validated
  obtain ⟨_, _, _, _, _, height, _, split, _, _, _, _, diff, difficulty, _, _, proof, _, _,
    coinbase, ⟨keyimages, abei⟩, txs, ⟨precise, adjusted⟩, cumulative, _, _, rfl⟩ := validated
  have info := validateAltBlockTxs_info txs
  exact ⟨height, split, coinbase, difficulty, cumulative, congrArg BlockExtendedInfo.bl info,
    congrArg BlockExtendedInfo.height info, _, abei, rfl, txs, rfl, rfl, rfl⟩

/-- The branch that an accepted block completes leaves the main chain where its first block says,
and ends with the new block. -/
theorem AltPlaced.completed {bl : Block} {id : Hash} {position : AltPosition}
    {accepted : AltAcceptance} (placed : AltPlaced E node.chain bl position)
    (checked : AltAccepted E node bl id position accepted) :
    ∃ first, (position.altChain ++ [(id, accepted.entry)]).head? = some first ∧
      first.2.height ≤ node.chain.db.blocks.length ∧
      (position.altChain ++ [(id, accepted.entry)]).getLast?.map (fun entry => entry.2.bl) =
        some bl := by
  have newest : (position.altChain ++ [(id, accepted.entry)]).getLast?.map
      (fun entry => entry.2.bl) = some bl := by
    rw [List.getLast?_concat, Option.map_some, checked.entryBl]
  cases branch : position.altChain with
  | nil =>
    rw [branch] at newest
    refine ⟨(id, accepted.entry), rfl, ?_, newest⟩
    obtain ⟨parent, _, present, height, above, _⟩ := placed.alone branch
    have inside := (List.getElem?_eq_some_iff.mp present).1
    rw [checked.entryHeight, height]
    omega
  | cons first rest =>
    rw [branch] at newest
    refine ⟨first, rfl, ?_, newest⟩
    rw [(placed.split first (by rw [branch]; rfl)).1]
    exact placed.low

/-- The completed branch leaves the main chain at the height of its first block. -/
theorem AltPlaced.completed_height {bl : Block} {id : Hash} {position : AltPosition}
    {accepted : AltAcceptance} (placed : AltPlaced E node.chain bl position)
    (checked : AltAccepted E node bl id position accepted) {first : Hash × AltBlockExtendedInfo}
    (head : (position.altChain ++ [(id, accepted.entry)]).head? = some first) :
    first.2.height = position.connectionHeight := by
  cases branch : position.altChain with
  | nil =>
    rw [branch] at head
    cases head
    obtain ⟨_, _, _, height, _⟩ := placed.alone branch
    rw [checked.entryHeight, height]
  | cons bottom rest =>
    rw [branch] at head
    cases head
    exact (placed.split _ (by rw [branch]; rfl)).1

end AltBlocks
end Virie
