import Virie.Chainstate.Submissions

/-! # Checkpoint finality

Every block of the main chain at the height of a checkpoint is the block of that
checkpoint. Once the chain contains it, no submission changes the chain up to it: a
branch that leaves the main chain below may be connected, but then the blocks that were
disconnected for it cannot be stored and the switch is aborted. -/

open Foundation

namespace Virie

open Procedure

section CheckpointFinality

variable {E : Env} {node node' : Node} {db : Db} {bei : BlockExtendedInfo} {bl : Block}
  {c height top : Nat} {id : Hash}

/-! ## The zone of a checkpoint -/

theorem isInCheckpointZone_of_point (point : E.points.get c = some id) :
    isInCheckpointZone E c = true := by
  have member := (Container.mem_toList E.points c id).mpr point
  obtain ⟨last, newest⟩ : ∃ last, E.points.toList.getLast? = some last :=
    ⟨_, List.getLast?_eq_some_getLast (List.ne_nil_of_mem member)⟩
  obtain ⟨older, split⟩ := List.getLast?_eq_some_iff.mp newest
  have sorted := E.points.sorted_toList
  rw [split] at sorted member
  have highest : c ≤ last.1 := by
    rcases List.mem_append.mp member with below | here
    · have below := (List.pairwise_append.mp sorted).2.2 _ below last (List.mem_singleton.mpr rfl)
      exact Nat.le_of_lt (Nat.compare_eq_lt.mp below)
    · rw [← List.mem_singleton.mp here]
  have nonempty : E.points.toList.isEmpty = false := by simp [split]
  simp [isInCheckpointZone, getTopCheckpointHeight, newest, nonempty, highest]

/-- A height at or below a checkpoint that is part of the chain has passed. -/
theorem isHeightPassedZone_of_point (point : E.points.get c = some id) (low : height ≤ c)
    (passed : c ≤ top) : isHeightPassedZone E height top = true := by
  have member := (Container.mem_toList E.points c id).mpr point
  unfold isHeightPassedZone
  rw [decide_eq_true (le_trans low passed), Bool.true_and]
  cases found : E.points.toList.find? fun point => decide (height ≤ point.1) with
  | none =>
    have missed := List.find?_eq_none.mp found (c, id) member
    simp [low] at missed
  | some lowest =>
    obtain ⟨_, before, after, split, earlier⟩ := List.find?_eq_some_iff_append.mp found
    have sorted := E.points.sorted_toList
    rw [split] at sorted member
    refine decide_eq_true (le_trans ?_ passed)
    rcases List.mem_append.mp member with below | above
    · have missed := earlier _ below
      simp [low] at missed
    · rcases List.mem_cons.mp above with here | above
      · rw [← here]
      · have ordered := (List.pairwise_append.mp sorted).2.1
        exact Nat.le_of_lt (Nat.compare_eq_lt.mp (List.rel_of_pairwise_cons ordered above))

/-! ## The main chain -/

/-- The block at the height of a checkpoint is the block of the checkpoint. -/
theorem Built.checkpoint (built : Built E db) (point : E.points.get height = some id)
    (found : db.blocks[height]? = some bei) : getBlockHash E bei.bl = id := by
  refine built.allBlocks (P := fun height bei => ∀ id, E.points.get height = some id →
    getBlockHash E bei.bl = id) ?_ found id point
  intro before after bei txs connects id point
  have checked := connects.checkpoint
  rw [connects.height, isInCheckpointZone_of_point point, Bool.not_true, Bool.false_or, checkBlock,
    point] at checked
  exact (beq_iff_eq.mp checked).symm

/-! ## Submissions above a checkpoint -/

/-- A block that is accepted beside a main chain with a checkpoint is above the checkpoint. -/
theorem above_of_prepare {position : AltPosition} {accepted : AltAcceptance}
    (prepared : prepareAltBlock E node bl id = .ok (some (position, accepted))) {point : Hash}
    (checkpoint : E.points.get c = some point) (passed : c < node.chain.db.blocks.length) :
    c < getBlockHeight bl := by
  by_contra low
  have zone : isHeightPassedZone E (getBlockHeight bl) node.chain.db.getTopBlockHeight = true :=
    isHeightPassedZone_of_point checkpoint (Nat.le_of_not_lt low) (by
      rw [Db.getTopBlockHeight]
      omega)
  rw [prepareAltBlock, zone] at prepared
  cases prepared

/-- A block below a checkpoint of the main chain cannot be stored beside it. -/
theorem storeDisconnected_refuses {point : Hash} (checkpoint : E.points.get c = some point)
    (passed : c < node.chain.db.blocks.length) (low : getBlockHeight bl ≤ c) (rest : List Block) :
    storeDisconnected E (bl :: rest) node ≠ .ok true node' := by
  have zone : isHeightPassedZone E (getBlockHeight bl) node.chain.db.getTopBlockHeight = true :=
    isHeightPassedZone_of_point checkpoint low (by
      rw [Db.getTopBlockHeight]
      omega)
  have refused : prepareAltBlock E node bl (getBlockHash E bl) = .error .refused := by
    rw [prepareAltBlock, zone]
    rfl
  intro run
  rw [storeDisconnected, bind_of_ok (handleAlternativeBlock_of_error refused)] at run
  cases (pure_ok.mp run).1

/-- A committed switch leaves the main chain above every checkpoint that is part of it. -/
theorem SwitchStages.above_checkpoint {good : TransactionPrefix → Prop} {J : Chain → Prop}
    {altChain : AltChain} {splitHeight : Nat} {lowered raised stored switched : Node}
    (stages : SwitchStages E good J altChain splitHeight node lowered raised stored switched)
    (built : Built E node.chain.db) (newest : altChain.getLast?.map (fun entry => entry.2.bl) = some bl)
    {point : Hash} (checkpoint : E.points.get c = some point)
    (passed : c < node.chain.db.blocks.length) (above : c < getBlockHeight bl) : c < splitHeight := by
  by_contra low
  obtain ⟨added, blocks, same⟩ := stages.raisedBlocks
  have top : raised.chain.db.TipIs bl := by
    rw [Db.TipIs, blocks, ← List.getLast?_map, List.map_append, List.getLast?_append, same,
      List.getLast?_map, newest, Option.some_or]
  rw [Db.TipIs, List.getLast?_eq_getElem?, Option.map_eq_some_iff] at top
  obtain ⟨tip, found, rfl⟩ := top
  have raisedHeight := stages.raisedBuilt.built.coinbaseHeight found
  have inside : splitHeight < node.chain.db.blocks.length := by omega
  have lowest := built.coinbaseHeight (List.getElem?_eq_getElem inside)
  have store := stages.stores
  rw [List.drop_eq_getElem_cons inside, List.map_cons] at store
  exact storeDisconnected_refuses checkpoint (by omega) (by omega) _ store

/-- A submission keeps the main chain up to a checkpoint that is part of it. -/
theorem addNewBlock_keeps_checkpoint
    (before : NodeBuilt E (fun _ => True) anyBlock AboveGenesis node)
    (checkpoint : E.points.get c = some id) (passed : c < node.chain.db.blocks.length) (bl : Block) :
    (addNewBlock E bl node).2.chain.db.blocks.take (c + 1) = node.chain.db.blocks.take (c + 1) := by
  unfold addNewBlock
  cases run : submitBlock E bl node with
  | error reason after => rfl
  | ok submission after =>
    dsimp only
    cases commits : submission.committed with
    | false => rfl
    | true =>
      change after.chain.db.blocks.take (c + 1) = _
      rcases submitBlock_committed run commits with
        ⟨_, _, connected, linked, handled, finalized⟩ |
        ⟨altChain, offered, success, switched, linked, starts, switch, finalized⟩
      · rw [finalizeLinked_chain finalized]
        obtain ⟨bei, txs, _, connects⟩ := connects_of_handleBlockToMainChain before.keeps.sound handled
        rw [connects.blocks, List.take_append_of_le_length passed]
      · rw [finalizeLinked_chain finalized]
        obtain ⟨_, position, accepted, lowered, raised, stored, prepared, chain, rfl, stages⟩ :=
          switchStages_of_starts before starts switch
        have newest : (position.altChain ++ [(getBlockHash E bl, accepted.entry)]).getLast?.map
            (fun entry => entry.2.bl) = some bl := by
          rw [List.getLast?_concat, Option.map_some, (altAccepted_of_prepare prepared).entryBl]
        rw [← chain] at newest
        have above := stages.above_checkpoint before.built newest checkpoint passed
          (above_of_prepare prepared checkpoint passed)
        obtain ⟨_, _, store, storeDb, _⟩ := storeDisconnected_runs (E := E)
          ((node.chain.db.blocks.drop position.connectionHeight).map BlockExtendedInfo.bl) raised
        cases store.symm.trans stages.stores
        obtain ⟨_, erase, eraseDb, _⟩ := eraseBranch_runs (E := E) altChain stored
        cases erase.symm.trans stages.erases
        obtain ⟨added, blocks, _⟩ := stages.raisedBlocks
        have low : position.connectionHeight ≤ node.chain.db.blocks.length := stages.low
        have loweredBlocks : lowered.chain.db.blocks =
            node.chain.db.blocks.take position.connectionHeight := stages.loweredBlocks
        rw [eraseDb, storeDb, blocks, loweredBlocks, List.take_append_of_le_length, List.take_take,
          Nat.min_eq_left above]
        rw [List.length_take]
        omega

/-! ## Runs -/

theorem step_keeps_checkpoint (before : NodeBuilt E (fun _ => True) anyBlock AboveGenesis node)
    (checkpoint : E.points.get c = some id) (passed : c < node.chain.db.blocks.length)
    (event : Event) (extends_ : ∀ toHeight, event ≠ .truncate toHeight) :
    (step E event node).chain.db.blocks.take (c + 1) = node.chain.db.blocks.take (c + 1) := by
  by_cases submits : ∃ bl, event = .submitBlock bl
  · obtain ⟨bl, rfl⟩ := submits
    exact addNewBlock_keeps_checkpoint before checkpoint passed bl
  · rw [step_db (fun bl same => submits ⟨bl, same⟩) extends_]

/-- In every run the blocks of the main chain are the ones of the checkpoints, and what follows the
connection of such a block keeps the main chain up to it, truncations apart. -/
theorem checkpointFinality (reached : (nodeSystem E anyBlock).Reachable node) :
    (∀ height bei id, E.points.get height = some id →
      node.chain.db.blocks[height]? = some bei → getBlockHash E bei.bl = id) ∧
    ∀ (c : Nat) (id : Hash) (later : List Event), E.points.get c = some id →
      c < node.chain.db.blocks.length → (∀ toHeight, Event.truncate toHeight ∉ later) →
      ((nodeSystem E anyBlock).after node later).chain.db.blocks.take (c + 1) =
        node.chain.db.blocks.take (c + 1) := by
  refine ⟨fun height bei id point found =>
    (NodeBuilt.reachable reached).1.built.checkpoint point found, ?_⟩
  intro c id later checkpoint passed extends_
  induction later generalizing node with
  | nil => rfl
  | cons event rest ih =>
    have kept := step_keeps_checkpoint (NodeBuilt.reachable reached).1 checkpoint passed event
      fun toHeight same => extends_ toHeight (same ▸ List.mem_cons_self)
    have still : c < (step E event node).chain.db.blocks.length := by
      have lengths := congrArg List.length kept
      rw [List.length_take, List.length_take] at lengths
      omega
    rw [← kept]
    exact ih (.step reached event trivial) still fun toHeight member =>
      extends_ toHeight (List.mem_cons_of_mem _ member)

end CheckpointFinality

/-! ## A branch from below a checkpoint -/

namespace PassedCheckpoint

/-- The third block above the genesis block is a checkpoint. -/
def env : Env := { Env.plain with points := (∅ : Container Nat Hash).set 3 ⟨4⟩ }

def genesis : Block := .plain 1 0 premineAmount nullHash []

/-- The checkpoint is connected while a branch from below it is stored. -/
def crossed : Node :=
  (nodeSystem env anyBlock).after (addNewBlock env genesis (Node.fresh 100)).2
    [.submitBlock (.plain 2 1 coin ⟨1⟩ []), .submitBlock (.plain 3 2 coin ⟨2⟩ []),
      .submitBlock (.plain 5 1 coin ⟨1⟩ []), .submitBlock (.plain 4 3 coin ⟨3⟩ [])]

theorem crossed_reachable : (nodeSystem env anyBlock).Reachable crossed := by
  refine System.Reachable.after ?_ _
  exact .start ⟨genesis, 100, trivial, rfl, by decide, rfl⟩

/-- The branch cannot grow past the checkpoint. -/
theorem crossed_final :
    ((nodeSystem env anyBlock).after crossed
      [.submitBlock (.plain 6 2 coin ⟨5⟩ [])]).chain.db.blocks.take (3 + 1) =
        crossed.chain.db.blocks.take (3 + 1) := by
  refine (checkpointFinality crossed_reachable).2 3 ⟨4⟩ _ ?_ ?_ ?_
  · decide
  · decide +kernel
  · simp

end PassedCheckpoint
end Virie
