import Virie.Chainstate.Running

/-! # The ways a submission can go

A submitted block is known already, is declined, is stored beside the main chain,
completes a branch that the node switches to, or continues the tip. What holds of every
submission is shown once for each of these ways. -/

open Foundation

namespace Virie

open Procedure

/-- A node with an accepted alternative block in its books. -/
def Node.storing (id : Hash) (accepted : AltAcceptance) (node : Node) : Node :=
  { node with chain := storeAltBlock id accepted node.chain }

/-- The ways a submission can go, with the result that each leads to. -/
inductive Submits (E : Env) (bl : Block) (node : Node) : EStateM.Result Stop Node Submission → Prop
  | known (present : node.chain.haveBlock (getBlockHash E bl) = true) :
      Submits E bl node (.ok ⟨false, false, ⟨false, false, false, true, false⟩⟩ node)
  | declined (absent : node.chain.haveBlock (getBlockHash E bl) = false)
      (apart : bl.prevId ≠ node.chain.db.getTopBlockId E)
      (unplaced : ∀ place, prepareAltBlock E node bl (getBlockHash E bl) ≠ .ok (some place))
      {submission : Submission} {after : Node} (chain : after.chain = node.chain)
      (pool : after.pool = node.pool ∨ after.pool = onFinalizeDbTransaction node.pool)
      (aborts : submission.committed = false)
      (unadded : submission.bvc.addedToMainChain = false) :
      Submits E bl node (.ok submission after)
  | stored (absent : node.chain.haveBlock (getBlockHash E bl) = false)
      (apart : bl.prevId ≠ node.chain.db.getTopBlockId E)
      {position : AltPosition} {accepted : AltAcceptance} {top : BlockExtendedInfo}
      (prepared : prepareAltBlock E node bl (getBlockHash E bl) = .ok (some (position, accepted)))
      (tip : node.chain.db.blocks.getLast? = some top)
      (lighter :
        isReorganizeRequired top accepted.entry.cumulativeDiffAdjusted accepted.proof = false) :
      Submits E bl node (.ok ⟨false, true, ⟨false, false, false, false, true⟩⟩
        (node.storing (getBlockHash E bl) accepted))
  | switches {altChain : AltChain} {offered : Node}
      (starts : StartsSwitch E bl node altChain offered) :
      Submits E bl node (reorganize E altChain offered)
  | continues (absent : node.chain.haveBlock (getBlockHash E bl) = false)
      (linked : bl.prevId = node.chain.db.getTopBlockId E) :
      Submits E bl node (submitToTip E bl (getBlockHash E bl) node)

section Submissions

variable {E : Env} {bl : Block} {node node' : Node}

/-! ## Offers -/

theorem handleAlternativeBlock_of_error {id : Hash} {reason : Stop}
    (prepared : prepareAltBlock E node bl id = .error reason) :
    handleAlternativeBlock E bl id node = .ok .failed node := by
  rw [handleAlternativeBlock, get_bind, prepared]
  rfl

theorem handleAlternativeBlock_of_none {id : Hash}
    (prepared : prepareAltBlock E node bl id = .ok none) :
    handleAlternativeBlock E bl id node =
      .ok (.orphaned (node.chain.db.validateBlockchainPrevLinks E)) node := by
  rw [handleAlternativeBlock, get_bind, prepared]
  rfl

theorem handleAlternativeBlock_of_some {id : Hash} {position : AltPosition}
    {accepted : AltAcceptance}
    (prepared : prepareAltBlock E node bl id = .ok (some (position, accepted))) :
    handleAlternativeBlock E bl id node =
      .ok (.added (position.altChain ++ [(id, accepted.entry)]) accepted.proof)
        (node.storing id accepted) := by
  rw [handleAlternativeBlock, get_bind, prepared]
  rfl

/-- An offer that adds a block was prepared, and the block is in the books. -/
theorem prepared_of_added {id : Hash} {altChain : AltChain} {proof : Hash}
    (offer : handleAlternativeBlock E bl id node = .ok (.added altChain proof) node') :
    ∃ position accepted, prepareAltBlock E node bl id = .ok (some (position, accepted)) ∧
      altChain = position.altChain ++ [(id, accepted.entry)] ∧ proof = accepted.proof ∧
      node' = node.storing id accepted := by
  cases prepared : prepareAltBlock E node bl id with
  | error reason =>
    rw [handleAlternativeBlock_of_error prepared] at offer
    cases offer
  | ok place =>
    cases place with
    | none =>
      rw [handleAlternativeBlock_of_none prepared] at offer
      cases offer
    | some place =>
      rw [handleAlternativeBlock_of_some prepared] at offer
      cases offer
      exact ⟨place.1, place.2, rfl, rfl, rfl, rfl⟩

/-! ## Submissions -/

theorem finalizeLinked_pool {linked : Bool} (run : finalizeLinked E node = .ok linked node') :
    node'.pool = node.pool ∨ node'.pool = onFinalizeDbTransaction node.pool := by
  rw [finalizeLinked, get_bind] at run
  split at run
  · obtain ⟨_, _, finalized, run⟩ := bind_ok.mp run
    obtain ⟨_, cleared, rfl⟩ := onPool_ok.mp finalized
    rw [← (pure_ok.mp run).2]
    exact .inr (modify_ok.mp cleared)
  · rw [(pure_ok.mp run).2]
    exact .inl rfl

/-- Every submission goes one of the ways. -/
theorem submits (bl : Block) (node : Node) : Submits E bl node (submitBlock E bl node) := by
  rw [submitBlock, get_bind]
  cases present : node.chain.haveBlock (getBlockHash E bl) with
  | true => exact .known present
  | false =>
    rw [if_neg Bool.false_ne_true]
    by_cases apart : bl.prevId ≠ node.chain.db.getTopBlockId E
    · rw [if_pos apart, submitAlternative]
      cases prepared : prepareAltBlock E node bl (getBlockHash E bl) with
      | error reason =>
        obtain ⟨linked, after, finalized, chain⟩ := finalizeLinked_runs (E := E) node
        rw [bind_of_ok (handleAlternativeBlock_of_error prepared)]
        dsimp only
        rw [bind_of_ok finalized]
        exact .declined present apart (fun place same => by simp [prepared] at same) chain
          (finalizeLinked_pool finalized) rfl rfl
      | ok place =>
        cases place with
        | none =>
          rw [bind_of_ok (handleAlternativeBlock_of_none prepared)]
          exact .declined present apart (fun place same => by simp [prepared] at same) rfl (.inl rfl)
            rfl rfl
        | some place =>
          obtain ⟨position, accepted⟩ := place
          have offer := handleAlternativeBlock_of_some prepared
          obtain ⟨top, tip⟩ : ∃ top, node.chain.db.blocks.getLast? = some top :=
            ⟨_, List.getLast?_eq_some_getLast (altPlaced_of_prepare prepared).nonempty⟩
          have entry : (node.storing (getBlockHash E bl) accepted).chain.alternativeChains.get
              (getBlockHash E bl) = some accepted.entry := Container.get_set_self _ _ _
          have sameTip : (node.storing (getBlockHash E bl) accepted).chain.db.blocks.getLast? =
              some top := tip
          rw [bind_of_ok offer]
          dsimp only
          rw [get_bind, sameTip, demand_bind, entry, demand_bind]
          cases required : isReorganizeRequired top accepted.entry.cumulativeDiffAdjusted
              accepted.proof with
          | true =>
            rw [if_pos rfl]
            exact .switches ⟨present, apart, _, top, accepted.entry, offer, tip, entry, required⟩
          | false =>
            rw [if_neg Bool.false_ne_true]
            exact .stored present apart prepared tip required
    · rw [if_neg apart]
      exact .continues present (not_not.mp apart)

/-! ## Submissions that are committed -/

/-- A committed submission continued the tip or switched without a rollback. -/
theorem submitBlock_committed {submission : Submission}
    (run : submitBlock E bl node = .ok submission node') (commits : submission.committed = true) :
    (node.chain.haveBlock (getBlockHash E bl) = false ∧
      bl.prevId = node.chain.db.getTopBlockId E ∧ ∃ connected linked,
        handleBlockToMainChain E bl (getBlockHash E bl) node = .ok () connected ∧
        finalizeLinked E connected = .ok linked node') ∨
    ∃ altChain offered success switched linked, StartsSwitch E bl node altChain offered ∧
      runSwitch E altChain offered = .ok ⟨success, false⟩ switched ∧
      finalizeLinked E switched = .ok linked node' := by
  have way := submits (E := E) bl node
  rw [run] at way
  generalize result : EStateM.Result.ok submission node' = ended at way
  cases way with
  | known present =>
    cases result
    cases commits
  | declined absent apart unplaced chain pool aborts unadded =>
    cases result
    rw [aborts] at commits
    cases commits
  | stored absent apart prepared tip lighter =>
    cases result
    cases commits
  | switches starts =>
    obtain ⟨⟨success, rolled⟩, switched, switch, ends⟩ := bind_ok.mp result.symm
    cases rolled with
    | true =>
      rw [(pure_ok.mp ends).1.symm] at commits
      cases commits
    | false =>
      obtain ⟨linked, after, finalized, ends⟩ := bind_ok.mp ends
      obtain ⟨_, rfl⟩ := pure_ok.mp ends
      exact .inr ⟨_, _, success, switched, linked, starts, switch, finalized⟩
  | continues absent linked =>
    obtain ⟨connected, middle, attempted, ends⟩ := bind_ok.mp result.symm
    cases connected with
    | true =>
      obtain ⟨⟨⟩, handled⟩ := attempt_true.mp attempted
      obtain ⟨links, after, finalized, ends⟩ := bind_ok.mp ends
      obtain ⟨_, rfl⟩ := pure_ok.mp ends
      exact .inl ⟨absent, linked, middle, links, handled, finalized⟩
    | false =>
      obtain ⟨_, _, _, ends⟩ := bind_ok.mp ends
      obtain ⟨_, _, _, ends⟩ := bind_ok.mp ends
      rw [(pure_ok.mp ends).1.symm] at commits
      cases commits

/-! ## Switches that are committed -/

/-- The stages of a switch that is committed: the node without the blocks from the split on, with
the branch in their place, with the disconnected blocks stored, and with the branch erased. -/
structure SwitchStages (E : Env) (good : TransactionPrefix → Prop) (J : Chain → Prop)
    (altChain : AltChain) (splitHeight : Nat) (node lowered raised stored switched : Node) :
    Prop where
  above : 1 ≤ splitHeight
  low : splitHeight ≤ node.chain.db.blocks.length
  disconnects : disconnectBlocks E (node.chain.db.blocks.length - splitHeight) node =
    .ok ((node.chain.db.blocks.drop splitHeight).map BlockExtendedInfo.bl) lowered
  loweredBuilt : NodeBuilt E good anyBlock J lowered
  loweredBlocks : lowered.chain.db.blocks = node.chain.db.blocks.take splitHeight
  connects : connectBranch E altChain lowered = .ok [] raised
  raisedBuilt : NodeBuilt E good anyBlock J raised
  raisedBlocks : ∃ added, raised.chain.db.blocks = lowered.chain.db.blocks ++ added ∧
    added.map BlockExtendedInfo.bl = altChain.map fun entry => entry.2.bl
  stores : storeDisconnected E ((node.chain.db.blocks.drop splitHeight).map BlockExtendedInfo.bl)
    raised = .ok true stored
  erases : eraseBranch E altChain stored = .ok () switched

variable {good : TransactionPrefix → Prop} {J : Chain → Prop}

/-- A switch that returns disconnected the blocks from the split on, continued with the branch as
far as it connects, and ended with what became of it. -/
theorem runSwitch_ok (before : NodeBuilt E good anyBlock J node) {altChain : AltChain}
    {first : Hash × AltBlockExtendedInfo} (head : altChain.head? = some first)
    (above : 1 ≤ first.2.height) (low : first.2.height ≤ node.chain.db.blocks.length)
    {result : SwitchResult} (run : runSwitch E altChain node = .ok result node') :
    ∃ lowered failing raised, NodeBuilt E good anyBlock J lowered ∧
      lowered.chain.db.blocks = node.chain.db.blocks.take first.2.height ∧
      disconnectBlocks E (node.chain.db.blocks.length - first.2.height) node =
        .ok ((node.chain.db.blocks.drop first.2.height).map BlockExtendedInfo.bl) lowered ∧
      connectBranch E altChain lowered = .ok failing raised ∧
      finishSwitch E altChain first.2.height
        ((node.chain.db.blocks.drop first.2.height).map BlockExtendedInfo.bl) failing raised =
        .ok result node' := by
  obtain ⟨lowered, built, blocks, disconnect, switch⟩ := switch_runs before head above low
  refine ⟨lowered, ?_⟩
  rw [runSwitch, switch] at run
  cases connect : connectBranch E altChain lowered with
  | error reason raised =>
    rw [bind_of_error connect] at run
    cases reason with
    | refused => exact absurd connect (connectBranch_avoids_refused altChain _ _)
    | thrown => cases run
  | ok failing raised =>
    refine ⟨failing, raised, built, blocks, disconnect, rfl, ?_⟩
    rw [bind_of_ok connect] at run
    cases finish : finishSwitch E altChain first.2.height
        ((node.chain.db.blocks.drop first.2.height).map BlockExtendedInfo.bl) failing raised with
    | error reason after =>
      rw [finish] at run
      cases reason with
      | refused => exact absurd finish (finishSwitch_avoids_refused _ _ _ _ _ _)
      | thrown => cases run
    | ok other after =>
      rw [finish] at run
      exact run

/-- A switch without a rollback went through all stages. -/
theorem switchStages_of_run (free : CacheFree J) (before : NodeBuilt E good anyBlock J node)
    {altChain : AltChain} {first : Hash × AltBlockExtendedInfo} (head : altChain.head? = some first)
    (above : 1 ≤ first.2.height) (low : first.2.height ≤ node.chain.db.blocks.length)
    {success : Bool} (run : runSwitch E altChain node = .ok ⟨success, false⟩ node') :
    success = true ∧ ∃ lowered raised stored,
      SwitchStages E good J altChain first.2.height node lowered raised stored node' := by
  obtain ⟨lowered, failing, raised, built, blocks, disconnect, connect, finish⟩ :=
    runSwitch_ok before head above low run
  obtain ⟨rfl, succeeded, stored, store, erase⟩ := finishSwitch_committed finish rfl
  have started : lowered.chain.db.blocks ≠ [] := by
    apply List.ne_nil_of_length_pos
    rw [blocks, List.length_take]
    omega
  obtain ⟨raisedBuilt, added, raisedBlocks, same⟩ :=
    connectBranch_extends free built started (fun _ _ => trivial) connect
  exact ⟨succeeded, lowered, raised, stored, above, low, disconnect, built, blocks, connect,
    raisedBuilt, ⟨added, raisedBlocks, same⟩, store, erase⟩

/-- The stored alternative blocks of any run are above the genesis block. -/
abbrev AboveGenesis : Chain → Prop := Stored fun _ entry => 1 ≤ entry.height

/-- A submission that starts a switch was accepted, and its branch leaves the main chain above the
genesis block. -/
theorem branch_of_starts (before : NodeBuilt E (fun _ => True) anyBlock AboveGenesis node)
    {altChain : AltChain} {offered : Node} (starts : StartsSwitch E bl node altChain offered) :
    ∃ position accepted first,
      prepareAltBlock E node bl (getBlockHash E bl) = .ok (some (position, accepted)) ∧
      altChain = position.altChain ++ [(getBlockHash E bl, accepted.entry)] ∧
      offered = node.storing (getBlockHash E bl) accepted ∧
      NodeBuilt E (fun _ => True) anyBlock AboveGenesis offered ∧
      altChain.head? = some first ∧ first.2.height = position.connectionHeight ∧
      1 ≤ first.2.height ∧ first.2.height ≤ offered.chain.db.blocks.length := by
  obtain ⟨_, _, proof, top, abei, offer, _, _, _⟩ := starts
  obtain ⟨position, accepted, prepared, chain, _, same⟩ := prepared_of_added offer
  obtain ⟨built, stored⟩ := before.offer storeRule_height trivial trivial offer
  obtain ⟨entries, first, head, low, _⟩ := stored altChain proof rfl
  have placed := altPlaced_of_prepare prepared
  have split : first.2.height = position.connectionHeight :=
    placed.completed_height (altAccepted_of_prepare prepared) (chain ▸ head)
  exact ⟨position, accepted, first, prepared, chain, same, built, head, split,
    entries first (List.mem_of_mem_head? head), low⟩

/-- A submission that switches and is committed goes through all stages, from the split below the
branch that it completes. -/
theorem switchStages_of_starts (before : NodeBuilt E (fun _ => True) anyBlock AboveGenesis node)
    {altChain : AltChain} {offered : Node} (starts : StartsSwitch E bl node altChain offered)
    {success : Bool} {switched : Node}
    (run : runSwitch E altChain offered = .ok ⟨success, false⟩ switched) :
    success = true ∧ ∃ position accepted lowered raised stored,
      prepareAltBlock E node bl (getBlockHash E bl) = .ok (some (position, accepted)) ∧
      altChain = position.altChain ++ [(getBlockHash E bl, accepted.entry)] ∧
      offered = node.storing (getBlockHash E bl) accepted ∧
      SwitchStages E (fun _ => True) AboveGenesis altChain position.connectionHeight offered lowered
        raised stored switched := by
  obtain ⟨position, accepted, first, prepared, chain, same, built, head, split, above, low⟩ :=
    branch_of_starts before starts
  obtain ⟨succeeded, lowered, raised, stored, stages⟩ := switchStages_of_run cacheFree_stored built
    head above low run
  rw [split] at stages
  exact ⟨succeeded, position, accepted, lowered, raised, stored, prepared, chain, same, stages⟩

/-! ## Switches that are given up -/

/-- A switch reaches a block of its branch that the main chain refuses, in a node that has the part
of the branch below it. -/
def SwitchRefuses (E : Env) (altChain : AltChain) (node reached : Node)
    (entry : Hash × AltBlockExtendedInfo) (rest : AltChain) : Prop :=
  ∃ first disconnected lowered connected raised, altChain.head? = some first ∧
    altChain = connected ++ entry :: rest ∧
    disconnectBlocks E (node.chain.db.blocks.length - first.2.height) node =
      .ok disconnected lowered ∧
    connectBranch E connected lowered = .ok [] reached ∧
    handleBlockToMainChain E entry.2.bl (getBlockHash E entry.2.bl) reached = .error .refused raised

section Books

variable {I : Chain → Prop}

/-- A property of the storage that does not depend on the books about alternative blocks. -/
def BooksFree (I : Chain → Prop) : Prop :=
  ∀ (chain : Chain) alternativeChains alternativeChainsTxs altblocksKeyimages invalidBlocks,
    I chain → I { chain with
      alternativeChains, alternativeChainsTxs, altblocksKeyimages, invalidBlocks }

theorem keepsChain_handleAlternativeBlock (free : BooksFree I) (bl : Block) (id : Hash) :
    Preserves (fun node : Node => I node.chain) (handleAlternativeBlock E bl id) := by
  intro node holds
  cases prepared : prepareAltBlock E node bl id with
  | error reason =>
    rw [handleAlternativeBlock_of_error prepared]
    exact holds
  | ok place =>
    cases place with
    | none =>
      rw [handleAlternativeBlock_of_none prepared]
      exact holds
    | some place =>
      obtain ⟨position, accepted⟩ := place
      rw [handleAlternativeBlock_of_some prepared]
      exact free node.chain _ _ _ node.chain.invalidBlocks holds

theorem keepsChain_storeDisconnected (free : BooksFree I) (blocks : List Block) :
    Preserves (fun node : Node => I node.chain) (storeDisconnected E blocks) := by
  induction blocks with
  | nil => exact preserves_pure true
  | cons bl rest ih =>
    exact preserves_bind (keepsChain_handleAlternativeBlock free _ _) fun _ =>
      preserves_ite (fun _ => ih) fun _ => preserves_pure _

theorem keepsChain_doEraseAltblock (free : BooksFree I) (id : Hash) (bl : Block)
    (holds : I node.chain) : I (doEraseAltblock E id bl node).chain :=
  free node.chain _ _ _ node.chain.invalidBlocks holds

theorem keepsChain_eraseBranch (free : BooksFree I) (altChain : AltChain) :
    Preserves (fun node : Node => I node.chain) (eraseBranch E altChain) :=
  preserves_forEach fun _ _ => preserves_modify fun _ holds =>
    keepsChain_doEraseAltblock free _ _ holds

theorem keepsChain_invalidateBranch (free : BooksFree I) (altChain : AltChain) :
    Preserves (fun node : Node => I node.chain) (invalidateBranch E altChain) := by
  refine preserves_forEach fun _ _ => preserves_bind (keepsChain_onChain (preserves_modify ?_))
    fun _ => preserves_modify fun _ holds => keepsChain_doEraseAltblock free _ _ holds
  intro chain holds
  unfold addBlockAsInvalid
  split
  · exact holds
  · exact free chain chain.alternativeChains chain.alternativeChainsTxs chain.altblocksKeyimages _
      holds

/-- Returning the transactions of connected blocks to the pool leaves the storage alone. -/
theorem keepsChain_rollback (height : Nat) :
    Preserves (fun node : Node => I node.chain) (rollbackBlockchainSwitching E height) := by
  refine preserves_get_bind fun node _ => preserves_forEach fun bei _ =>
    preserves_forEach fun txId _ => preserves_get_bind fun node _ =>
    preserves_bind (preserves_demand _ _) fun entry => preserves_onlyIf (preserves_bind ?_ fun _ =>
    preserves_pure _)
  exact keepsChain_addTx _ _ _ (fun free => by cases free) (fun free => by cases free)

/-- After the branch is connected or refused, a switch changes the books only. -/
theorem keepsChain_finishSwitch (free : BooksFree I) (altChain : AltChain) (splitHeight : Nat)
    (disconnected : List Block) (failing : AltChain) :
    Preserves (fun node : Node => I node.chain)
      (finishSwitch E altChain splitHeight disconnected failing) :=
  preserves_ite
    (fun _ => preserves_bind (keepsChain_storeDisconnected free _) fun _ => preserves_ite
      (fun _ => preserves_bind (keepsChain_eraseBranch free _) fun _ => preserves_pure _)
      (fun _ => preserves_bind (preserves_attempt (keepsChain_rollback _)) fun _ =>
        preserves_bind (preserves_attempt (preserves_get_bind fun _ _ => preserves_require _)) fun _ =>
        preserves_bind (preserves_onlyIf (keepsChain_eraseBranch free _)) fun _ =>
        preserves_pure _))
    (fun _ => preserves_bind (preserves_attempt (keepsChain_rollback _)) fun _ =>
      preserves_bind (keepsChain_invalidateBranch free _) fun _ => preserves_pure _)

theorem keepsChain_pruneAgedAltBlocks (free : BooksFree I) (holds : I node.chain) :
    I (pruneAgedAltBlocks E node).chain := by
  unfold pruneAgedAltBlocks
  generalize node.chain.alternativeChains.toList = entries
  induction entries generalizing node with
  | nil => exact holds
  | cons head rest ih =>
    rw [List.foldl_cons]
    apply ih
    dsimp only
    split
    · exact keepsChain_doEraseAltblock free _ _ holds
    · exact holds

end Books

end Submissions
end Virie
