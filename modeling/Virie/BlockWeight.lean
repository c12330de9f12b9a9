import Virie.Chainstate.Running
import Virie.Chainstate.Weights

/-! # The weight that blocks add

A block of the main chain or of a branch is heavier than its parent exactly when its
weight, computed without bounds, is not rounded down to nothing and fits the difficulty
type together with the chain below it. Scaling a proof-of-stake block divides by the
newest proof-of-stake difficulty, and a block whose product is smaller adds nothing. -/

open Foundation

namespace Virie

/-! ## What a block should add -/

/-- A block is heavier than the chain below it, and its intermediate product and its
corrected weight fit the difficulty type. -/
structure AddsWeight (E : Env) (below : List BlockExtendedInfo) (bei : BlockExtendedInfo) :
    Prop where
  heavier : chainWeight below < bei.cumulativeDiffAdjusted
  product : Scaled below bei → scaledProduct below bei < 2 ^ 128
  corrected : blockWeight E below bei < 2 ^ 128

/-- The scaling of a block does not round down to zero, and neither its product nor the sum
of all weights outgrows the difficulty type. -/
structure WeightFits (E : Env) (below : List BlockExtendedInfo) (bei : BlockExtendedInfo) :
    Prop where
  product : Scaled below bei → scaledProduct below bei < 2 ^ 128
  quotient : Scaled below bei → lastPosDiff below ≤ scaledProduct below bei
  total : chainWeight below + blockWeight E below bei < 2 ^ 128

/-- An entry that the alternative path accepted over the blocks a node had below it. -/
def AcceptedOn (E : Env) (below : List BlockExtendedInfo) (entry : AltBlockExtendedInfo) : Prop :=
  ∃ origin id position accepted, Built E origin.chain.db ∧
    prepareAltBlock E origin entry.bl id = .ok (some (position, accepted)) ∧
    accepted.entry = entry ∧ below = origin.chain.blocksBelow position

section BlockWeight

variable {E : Env} {node : Node} {below : List BlockExtendedInfo} {bei : BlockExtendedInfo}
  {height : Nat}

/-! ## One block -/

theorem recordedWeight_of_product (fits : Scaled below bei → scaledProduct below bei < 2 ^ 128) :
    recordedWeight E below bei = blockWeight E below bei := by
  unfold recordedWeight blockWeight
  by_cases scaled : Scaled below bei
  · rw [if_pos scaled, if_pos scaled, Nat.mod_eq_of_lt (fits scaled)]
  · rw [if_neg scaled, if_neg scaled]

/-- A product that fits bounds the weight. -/
theorem RecordedOn.blockWeight_lt (recorded : RecordedOn E below bei)
    (fits : Scaled below bei → scaledProduct below bei < 2 ^ 128) :
    blockWeight E below bei < 2 ^ 128 := by
  refine (sequenceCorrected_le _).trans_lt ?_
  split
  · next scaled => exact (Nat.div_le_self _ _).trans_lt (fits scaled)
  · exact recorded.bounded

/-- A weight that is not rounded down is positive. -/
theorem RecordedOn.blockWeight_pos (recorded : RecordedOn E below bei)
    (quotient : Scaled below bei → lastPosDiff below ≤ scaledProduct below bei) :
    1 ≤ blockWeight E below bei := by
  refine sequenceCorrected_pos ?_
  split
  · next scaled => exact Nat.div_pos (quotient scaled) (Nat.pos_of_ne_zero scaled.2)
  · exact recorded.positive

/-- A weight that is rounded down is nothing. -/
theorem blockWeight_eq_zero (scaled : Scaled below bei)
    (small : scaledProduct below bei < lastPosDiff below) : blockWeight E below bei = 0 := by
  rw [blockWeight, if_pos scaled, Nat.div_eq_of_lt small]
  exact Nat.le_zero.mp (sequenceCorrected_le 0)

/-- A recorded block adds weight exactly when its weight fits. -/
theorem RecordedOn.addsWeight_iff (recorded : RecordedOn E below bei) :
    AddsWeight E below bei ↔ WeightFits E below bei := by
  constructor
  · rintro ⟨heavier, product, corrected⟩
    rw [recorded.adjusted, recordedWeight_of_product product] at heavier
    refine ⟨product, fun scaled => ?_, ?_⟩
    · by_contra small
      rw [blockWeight_eq_zero scaled (Nat.lt_of_not_le small), Nat.add_zero] at heavier
      exact absurd (Nat.mod_le _ _) (Nat.not_le.mpr heavier)
    · by_contra wraps
      have split := Nat.mod_add_div (chainWeight below + blockWeight E below bei) (2 ^ 128)
      have carry : 1 ≤ (chainWeight below + blockWeight E below bei) / 2 ^ 128 :=
        Nat.div_pos (Nat.le_of_not_lt wraps) (by decide)
      have light := recorded.blockWeight_lt product
      omega
  · rintro ⟨product, quotient, total⟩
    refine ⟨?_, product, recorded.blockWeight_lt product⟩
    have positive := recorded.blockWeight_pos quotient
    rw [recorded.adjusted, recordedWeight_of_product product, Nat.mod_eq_of_lt total]
    omega

/-! ## Chains -/

/-- Every block of a built chain is recorded on the blocks below it. -/
theorem Built.recordedOn {db : Db} (built : Built E db) (found : db.blocks[height]? = some bei) :
    RecordedOn E (db.blocks.take height) bei := by
  refine built.invariant (P := fun db => ∀ height bei, db.blocks[height]? = some bei →
    RecordedOn E (db.blocks.take height) bei) ?_ ?_ ?_ height bei found
  · intro height bei found
    simp at found
  · intro a b same all
    rwa [same.blocks]
  · intro before after bei txs _ connects _ all height other found
    rw [connects.blocks] at found ⊢
    rcases Nat.lt_or_ge height before.blocks.length with inside | outside
    · rw [List.getElem?_append_left inside] at found
      rw [List.take_append_of_le_length (Nat.le_of_lt inside)]
      exact all height other found
    · rw [List.getElem?_append_right outside, List.getElem?_singleton] at found
      split at found
      · next top =>
        cases found
        have here : height = before.blocks.length := by omega
        rw [here, List.take_left]
        exact connects.recordedOn
      · cases found

theorem chainWeight_take (blocks : List BlockExtendedInfo) (found : blocks[height]? = some bei) :
    chainWeight (blocks.take (height + 1)) = bei.cumulativeDiffAdjusted := by
  have inside := (List.getElem?_eq_some_iff.mp found).1
  rw [chainWeight, List.getLast?_eq_getElem?, List.length_take, Nat.min_eq_left (by omega),
    Nat.add_sub_cancel, List.getElem?_take_of_lt (Nat.lt_succ_self height), found]
  rfl

/-- When every block adds weight, longer chains are heavier. -/
theorem weights_increase {blocks : List BlockExtendedInfo}
    (adds : ∀ height bei, blocks[height]? = some bei → AddsWeight E (blocks.take height) bei) :
    (blocks.map BlockExtendedInfo.cumulativeDiffAdjusted).Pairwise (· < ·) := by
  refine List.isChain_iff_pairwise.mp (List.isChain_iff_getElem.mpr fun i inside => ?_)
  rw [List.length_map] at inside
  rw [List.getElem_map, List.getElem_map]
  have heavier := (adds (i + 1) blocks[i + 1] (List.getElem?_eq_getElem inside)).heavier
  rwa [chainWeight_take blocks (List.getElem?_eq_getElem (Nat.lt_of_succ_lt inside))] at heavier

theorem AcceptedOn.recordedOn {entry : AltBlockExtendedInfo} (accepted : AcceptedOn E below entry) :
    RecordedOn E below entry.toBlockExtendedInfo := by
  obtain ⟨origin, id, position, accepted, _, prepared, rfl, rfl⟩ := accepted
  exact (altAccepted_of_prepare prepared).recordedOn (altPlaced_of_prepare prepared)

/-! ## Runs -/

/-- Stored alternative blocks were accepted over some chain. -/
theorem storeRule_acceptedOn : StoreRule E (fun _ => True) anyBlock (fun _ _ => True)
    fun _ entry => 1 ≤ entry.height ∧ ∃ below, AcceptedOn E below entry where
  aboveGenesis _ _ stored := stored.1
  isKnown _ _ _ := trivial
  stores node bl position accepted before known offered prepared := by
    refine ⟨?_, node.chain.blocksBelow position, node, getBlockHash E bl, position, accepted,
      before.built, ?_, rfl, rfl⟩
    · rw [(altAccepted_of_prepare prepared).entryHeight]
      exact (altPlaced_of_prepare prepared).height_pos
    · rwa [(altAccepted_of_prepare prepared).entryBl]

/-- The blocks of a reachable state add weight exactly when their weights fit: the blocks of the
main chain over the blocks below them, and every stored alternative block over the blocks that it
was accepted on. A main chain of fitting blocks gains weight with every block. -/
theorem blocksAddWeight_iff (reached : (nodeSystem E anyBlock).Reachable node) :
    (∀ height bei, node.chain.db.blocks[height]? = some bei →
      (AddsWeight E (node.chain.db.blocks.take height) bei ↔
        WeightFits E (node.chain.db.blocks.take height) bei)) ∧
    ((∀ height bei, node.chain.db.blocks[height]? = some bei →
        WeightFits E (node.chain.db.blocks.take height) bei) →
      (node.chain.db.blocks.map BlockExtendedInfo.cumulativeDiffAdjusted).Pairwise (· < ·)) ∧
    (∀ id entry, node.chain.alternativeChains.get id = some entry →
      ∃ below, AcceptedOn E below entry) ∧
    ∀ below entry, AcceptedOn E below entry →
      (AddsWeight E below entry.toBlockExtendedInfo ↔
        WeightFits E below entry.toBlockExtendedInfo) := by
  have before : NodeBuilt E (fun _ => True) anyBlock
      (Stored fun _ entry => 1 ≤ entry.height ∧ ∃ below, AcceptedOn E below entry) node :=
    (reached.invariant (fun _ initial => NodeBuilt.start initial) fun event node holds =>
      holds.1.step storeRule_acceptedOn holds.2 (by cases event <;> trivial)
        (goodSubmission_trivial event node)).1
  have main : ∀ height bei, node.chain.db.blocks[height]? = some bei →
      (AddsWeight E (node.chain.db.blocks.take height) bei ↔
        WeightFits E (node.chain.db.blocks.take height) bei) :=
    fun height bei found => (before.built.recordedOn found).addsWeight_iff
  refine ⟨main, fun fits => ?_, fun id entry found => (before.keeps.frame id entry found).2,
    fun below entry accepted => accepted.recordedOn.addsWeight_iff⟩
  exact weights_increase fun height bei found => (main height bei found).mpr (fits height bei found)

end BlockWeight

/-! ## A block that adds nothing -/

namespace WeightlessStake

/-- Stakes are allowed from the second block on. -/
def env : Env := { Env.plain with posMinimumHeigh := 2, minCoinstakeAge := 1 }

def genesis : Block := .plain 1 0 premineAmount nullHash []

/-- The proof-of-work block at a height, two minutes after the one below it. -/
def mined (height : Nat) : Block :=
  { Block.plain (height + 1) height coin ⟨height⟩ [] with timestamp := 120 * height }

/-- A proof-of-stake block that spends the coin with a global index. -/
def staked (height timestamp globalIndex : Nat) : Block :=
  let base := Block.plain (height + 1) height (2 * coin) ⟨height⟩ []
  { base with
    timestamp
    flags := 1
    minerTx :=
      { base.minerTx with
        vin := [.gen height, .toKey
          { amount := coin
            keyOffsets := [.index globalIndex]
            kImage := ⟨height⟩
            etcDetails := [] }]
        signatures := [[⟨0⟩]] } }

/-- Two stakes follow each other within seconds, so that the difficulty of the third is eight;
the fourth comes late and has difficulty one. -/
def chain : Node :=
  (nodeSystem env anyBlock).after (addNewBlock env genesis (Node.fresh 1000000)).2
    (((List.range' 1 12).map fun height => Event.submitBlock (mined height)) ++
      [.submitBlock (staked 13 1500 0), .submitBlock (staked 14 1515 1),
        .submitBlock (staked 15 3000 2), .submitBlock (staked 16 4500 3)])

theorem chain_reachable : (nodeSystem env anyBlock).Reachable chain := by
  refine System.Reachable.after ?_ _
  exact .start ⟨genesis, 1000000, trivial, rfl, by decide, rfl⟩

theorem chain_weights : chain.chain.db.blocks.map BlockExtendedInfo.cumulativeDiffAdjusted =
    [1, 2, 3, 4, 5, 6, 7, 8, 9, 10, 11, 12, 13, 14, 15, 20, 20] := by
  decide +kernel

/-- The stake after the hard one is on top of the main chain and adds nothing to its weight. -/
theorem late_stake_weightless : (nodeSystem env anyBlock).Reachable chain ∧
    ∃ bei, chain.chain.db.blocks[16]? = some bei ∧
      ¬ AddsWeight env (chain.chain.db.blocks.take 16) bei := by
  refine ⟨chain_reachable, ?_⟩
  have weights := congrArg (fun weights => (weights[15]?, weights[16]?)) chain_weights
  simp only [List.getElem?_map, Prod.mk.injEq] at weights
  obtain ⟨parent, parentFound, parentWeight⟩ := Option.map_eq_some_iff.mp weights.1
  obtain ⟨bei, found, weight⟩ := Option.map_eq_some_iff.mp weights.2
  refine ⟨bei, found, fun adds => ?_⟩
  have heavier := adds.heavier
  rw [chainWeight_take _ parentFound, parentWeight, weight] at heavier
  exact absurd heavier (Nat.lt_irrefl 20)

theorem chain_tall : 15 < chain.chain.db.blocks.length := by
  have length := congrArg List.length chain_weights
  rw [List.length_map] at length
  rw [length]
  decide

/-- The hard stake itself adds weight. -/
theorem hard_stake_adds : ∃ bei, chain.chain.db.blocks[15]? = some bei ∧
    AddsWeight env (chain.chain.db.blocks.take 15) bei := by
  have found := List.getElem?_eq_getElem chain_tall
  refine ⟨_, found, ?_⟩
  refine ((blocksAddWeight_iff chain_reachable).1 15 _ found).mpr ⟨?_, ?_, ?_⟩ <;> decide +kernel

end WeightlessStake
end Virie
