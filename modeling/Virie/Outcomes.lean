import Virie.Chainstate.Running

/-! # What a submission reports

After a submission the verification flags say whether the block was added to the main
chain. They agree with the state except when a switch succeeds and one of the blocks it
disconnected cannot be stored as an alternative one. -/

open Foundation

namespace Virie

/-- The flag for the main chain agrees with the state: a block that was added is the tip, and
otherwise the main chain is what it was. -/
def ReportsTruly (E : Env) (bl : Block) (node : Node) : Prop :=
  ((addNewBlock E bl node).1.2.addedToMainChain = true →
    (addNewBlock E bl node).2.chain.db.TipIs bl) ∧
  ((addNewBlock E bl node).1.2.addedToMainChain = false →
    (addNewBlock E bl node).2.chain.db = node.chain.db)

/-- A switch to a branch connects it as a whole, and one of the blocks it disconnected is not
accepted as an alternative block. -/
def SwitchStoringFails (E : Env) (altChain : AltChain) (node : Node) : Prop :=
  ∃ first disconnected lowered raised after, altChain.head? = some first ∧
    disconnectBlocks E (node.chain.db.blocks.length - first.2.height) node =
      .ok disconnected lowered ∧
    connectBranch E altChain lowered = .ok [] raised ∧
    storeDisconnected E disconnected raised = .ok false after

/-- A submitted block starts a switch that connects its branch as a whole and cannot store one of
the blocks it disconnected. -/
def StoringFails (E : Env) (bl : Block) (node : Node) : Prop :=
  ∃ altChain offered, StartsSwitch E bl node altChain offered ∧
    SwitchStoringFails E altChain offered

open Procedure

section Outcomes

variable {E : Env} {good : TransactionPrefix → Prop} {known : Block → Prop} {J : Chain → Prop}
  {node node' : Node}

/-! ## Rolling back -/

/-- Returning the transactions of a built chain to the pool raises no exception and leaves the
database alone. -/
theorem quiet_rollbackBlockchainSwitching (height : Nat) :
    Quiet (fun node => NodeBuilt E good known J node) (rollbackBlockchainSwitching E height) := by
  have returns : ∀ txId, Quiet (fun node => NodeBuilt E good known J node)
      (returnConnectedTx E txId) := by
    intro txId node built
    rw [returnConnectedTx, get_bind]
    cases found : node.chain.db.transactions.get txId with
    | none => exact ⟨built, fun after same => by cases same⟩
    | some entry =>
      rw [demand_bind]
      cases coinbase : entry.tx.isCoinbase with
      | true => exact ⟨built, fun after same => by cases same⟩
      | false =>
        have admissible := (built.keeps.txs txId entry found).2.resolve_left (by simp [coinbase])
        obtain ⟨tvc, after, adding, chain⟩ := addTx_runs entry.tx node admissible
          (built.built.offsetsRead txId entry found)
        have kept := (keeps_addTx (J := J) admissible.semantic admissible.good 0 true true).of_ok
          adding built.keeps
        simp only [Bool.not_false, onlyIf_true]
        rw [bind_of_ok adding]
        exact ⟨built.congr kept (congrArg Chain.db chain), fun after same => by cases same⟩
  intro node built
  rw [rollbackBlockchainSwitching, get_bind]
  exact quiet_forEach (fun _ _ => quiet_forEach fun txId _ => returns txId) node built

/-! ## Switches that claim a success they roll back -/

/-- A switch that connects its branch and fails to store a block answers a success and asks for
the database transaction to be aborted. -/
theorem switch_of_storingFails (before : NodeBuilt E good anyBlock (fun _ => True) node)
    {altChain : AltChain} {first : Hash × AltBlockExtendedInfo} (top : altChain.head? = some first)
    (above : 1 ≤ first.2.height) (low : first.2.height ≤ node.chain.db.blocks.length)
    (fails : SwitchStoringFails E altChain node) :
    ∃ after, switchToAlternativeBlockchain E altChain node = .ok ⟨true, true⟩ after := by
  obtain ⟨other, disconnected, lowered, raised, middle, sameTop, disconnect, connect, store⟩ :=
    fails
  cases sameTop.symm.trans top
  obtain ⟨_, built, blocks, disconnects, switch⟩ := switch_runs before top above low
  rw [disconnect] at disconnects
  cases disconnects
  have started : lowered.chain.db.blocks ≠ [] := by
    apply List.ne_nil_of_length_pos
    rw [blocks, List.length_take]
    omega
  have connected := (connectBranch_ok cacheFree_true built started (fun _ _ => trivial) connect).1
  obtain ⟨_, _, stores, sameDb, _⟩ := storeDisconnected_runs (E := E)
    ((node.chain.db.blocks.drop first.2.height).map BlockExtendedInfo.bl) raised
  rw [store] at stores
  cases stores
  have stored := connected.congr ((keeps_storeDisconnected _).of_ok store connected.keeps) sameDb
  obtain ⟨_, rolled, rollback, rolledBuilt⟩ :=
    (quiet_rollbackBlockchainSwitching first.2.height).attempt stored
  obtain ⟨after, erase, _⟩ := eraseBranch_runs (E := E) altChain rolled
  refine ⟨after, ?_⟩
  rw [switch, bind_of_ok connect, finishSwitch, if_pos List.isEmpty_nil, bind_of_ok store,
    if_neg Bool.false_ne_true, bind_of_ok rollback]
  have linked : attempt (requirePrevLinks E) rolled = .ok true rolled := by
    refine attempt_true.mpr ⟨(), ?_⟩
    rw [requirePrevLinks, get_bind]
    exact require_ok.mpr ⟨rolledBuilt.built.prevLinks _, rfl⟩
  rw [bind_of_ok linked, onlyIf_true, bind_of_ok erase]
  rfl

/-- Only such a switch claims a success that it rolls back. -/
theorem storingFails_of_switch (before : NodeBuilt E good anyBlock (fun _ => True) node)
    {altChain : AltChain} {first : Hash × AltBlockExtendedInfo} (top : altChain.head? = some first)
    (above : 1 ≤ first.2.height) (low : first.2.height ≤ node.chain.db.blocks.length)
    (run : switchToAlternativeBlockchain E altChain node = .ok ⟨true, true⟩ node') :
    SwitchStoringFails E altChain node := by
  obtain ⟨lowered, built, blocks, disconnect, switch⟩ := switch_runs before top above low
  rw [switch] at run
  obtain ⟨failing, raised, connect, run⟩ := bind_ok.mp run
  cases failing with
  | nil =>
    obtain ⟨stored, middle, store, run⟩ := bind_ok.mp run
    cases stored with
    | true =>
      obtain ⟨_, _, _, run⟩ := bind_ok.mp run
      cases (pure_ok.mp run).1
    | false => exact ⟨first, _, lowered, raised, middle, top, disconnect, connect, store⟩
  | cons head rest =>
    obtain ⟨_, _, _, run⟩ := bind_ok.mp run
    obtain ⟨_, _, _, run⟩ := bind_ok.mp run
    cases (pure_ok.mp run).1

/-! ## Submissions -/

theorem NodeBuilt.sound (built : NodeBuilt E good known J node) :
    NodeBuilt E good known (fun _ => True) node :=
  ⟨built.keeps.sound, built.built, built.known⟩

theorem switch_of_rolled {altChain : AltChain} {result : SwitchResult}
    (run : runSwitch E altChain node = .ok result node') (rolled : result.hadRollback = true) :
    switchToAlternativeBlockchain E altChain node = .ok result node' := by
  unfold runSwitch at run
  split at run
  · cases run
    cases rolled
  · exact run

/-- A submission that stores a disconnected block in vain reports a block that was not added. -/
theorem submitBlock_of_storingFails (reached : (nodeSystem E anyBlock).Reachable node) {bl : Block}
    (fails : StoringFails E bl node) :
    ∃ after, submitBlock E bl node =
      .ok ⟨false, true, ⟨true, false, false, false, false⟩⟩ after := by
  obtain ⟨before, _⟩ := NodeBuilt.reachable reached
  obtain ⟨altChain, offered, ⟨absent, apart, proof, top, abei, offer, tip, entry, required⟩, fails⟩ :=
    fails
  obtain ⟨built, stored⟩ := before.offer storeRule_height trivial trivial offer
  obtain ⟨entries, first, head, low, _⟩ := stored altChain proof rfl
  obtain ⟨after, switch⟩ := switch_of_storingFails built.sound head
    (entries first (List.mem_of_mem_head? head)) low fails
  refine ⟨after, ?_⟩
  rw [submitBlock, get_bind, absent, if_neg Bool.false_ne_true,
    if_pos apart, submitAlternative, bind_of_ok offer]
  dsimp only
  rw [get_bind, tip, demand_bind, entry,
    demand_bind, if_pos required, reorganize,
    bind_of_ok (show runSwitch E altChain offered = .ok ⟨true, true⟩ after by
      rw [runSwitch, switch])]
  rfl

/-- A submission that is not committed reports an added block only then. -/
theorem storingFails_of_submitBlock (reached : (nodeSystem E anyBlock).Reachable node) {bl : Block}
    {submission : Submission} (run : submitBlock E bl node = .ok submission node')
    (aborts : submission.committed = false) (added : submission.bvc.addedToMainChain = true) :
    StoringFails E bl node := by
  obtain ⟨before, started⟩ := NodeBuilt.reachable reached
  rw [submitBlock, get_bind] at run
  cases present : node.chain.haveBlock (getBlockHash E bl) with
  | true =>
    rw [present, if_pos rfl] at run
    cases (pure_ok.mp run).1
    cases added
  | false =>
    rw [present, if_neg Bool.false_ne_true] at run
    by_cases apart : bl.prevId ≠ node.chain.db.getTopBlockId E
    · rw [if_pos apart] at run
      simp only [submitAlternative, bind_ok] at run
      obtain ⟨verdict, offered, offer, run⟩ := run
      obtain ⟨built, stored⟩ := before.offer storeRule_height trivial trivial offer
      cases verdict with
      | failed =>
        obtain ⟨_, _, _, run⟩ := bind_ok.mp run
        cases (pure_ok.mp run).1
        cases added
      | orphaned linked =>
        cases (pure_ok.mp run).1
        cases added
      | added altChain proof =>
        obtain ⟨entries, first, head, low, _⟩ := stored altChain proof rfl
        simp only [bind_ok, get_ok, demand_ok] at run
        obtain ⟨_, _, ⟨rfl, rfl⟩, top, _, ⟨tip, rfl⟩, abei, _, ⟨entry, rfl⟩, run⟩ := run
        by_cases required : isReorganizeRequired top abei.cumulativeDiffAdjusted proof = true
        · rw [if_pos required] at run
          obtain ⟨⟨success, rolled⟩, middle, switch, run⟩ := bind_ok.mp run
          cases rolled with
          | false =>
            obtain ⟨_, _, _, run⟩ := bind_ok.mp run
            cases (pure_ok.mp run).1
            cases aborts
          | true =>
            cases (pure_ok.mp run).1
            cases success with
            | false => cases added
            | true =>
              exact ⟨altChain, offered, ⟨present, apart, proof, top, abei, offer, tip, entry,
                required⟩, storingFails_of_switch built.sound head
                  (entries first (List.mem_of_mem_head? head)) low (switch_of_rolled switch rfl)⟩
        · rw [if_neg required] at run
          cases (pure_ok.mp run).1
          cases added
    · rw [if_neg apart] at run
      rw [(before.submitToTip trivial (fun none => absurd none started) run).2 aborts] at added
      cases added

/-- A submission reports truly what became of the main chain, unless a switch cannot store one of
the blocks it disconnected. -/
theorem reportsTruly_iff (reached : (nodeSystem E anyBlock).Reachable node) (bl : Block) :
    ReportsTruly E bl node ↔ ¬ StoringFails E bl node := by
  obtain ⟨before, started⟩ := NodeBuilt.reachable reached
  constructor
  · rintro ⟨tip, _⟩ fails
    obtain ⟨after, run⟩ := submitBlock_of_storingFails reached fails
    rw [addNewBlock, run] at tip
    have isTip : node.chain.db.TipIs bl := tip rfl
    rw [Db.TipIs, List.getLast?_eq_getElem?, Option.map_eq_some_iff] at isTip
    obtain ⟨bei, found, rfl⟩ := isTip
    have indexed := (before.built.blocksIndex_get _ _).mpr ⟨bei, found, rfl⟩
    obtain ⟨_, _, ⟨absent, _⟩, _⟩ := fails
    simp [Chain.haveBlock, Container.has, indexed] at absent
  · intro sound
    unfold ReportsTruly addNewBlock
    cases run : submitBlock E bl node with
    | error reason after => exact ⟨fun added => (by cases added), fun _ => rfl⟩
    | ok submission after =>
      dsimp only
      cases commits : submission.committed with
      | true =>
        have adds := (before.submitBlock storeRule_height started
          (goodSubmission_trivial _ node)).2 submission after run commits
        refine ⟨fun _ => adds.tip, fun fails => ?_⟩
        rw [adds.added] at fails
        cases fails
      | false =>
        exact ⟨fun added => absurd (storingFails_of_submitBlock reached run commits added) sound,
          fun _ => rfl⟩

end Outcomes

/-! ## A block that cannot be stored -/

namespace UnstorableBlock

/-- The block at height two is a checkpoint, so that no other block below it can be stored once it
is part of the main chain. -/
def env : Env := { Env.plain with points := (∅ : Container Nat Hash).set 2 ⟨4⟩ }

def genesis : Block := .plain 1 0 premineAmount nullHash []
def main1 : Block := .plain 2 1 coin ⟨1⟩ []
def alt1 : Block := .plain 3 1 coin ⟨1⟩ []
def alt2 : Block := .plain 4 2 coin ⟨3⟩ []

/-- A main chain of two blocks and an alternative block. -/
def forked : Node :=
  (nodeSystem env anyBlock).after (addNewBlock env genesis (Node.fresh 100)).2
    [.submitBlock main1, .submitBlock alt1]

theorem forked_reachable : (nodeSystem env anyBlock).Reachable forked := by
  refine System.Reachable.after ?_ _
  exact .start ⟨genesis, 100, trivial, rfl, by decide, rfl⟩

/-- The switch to the checkpoint is reported as done and undone. -/
theorem reports_unadded_block :
    (nodeSystem env anyBlock).Reachable forked ∧ ¬ ReportsTruly env alt2 forked := by
  refine ⟨forked_reachable, fun truly => ?_⟩
  have added : (addNewBlock env alt2 forked).1.2.addedToMainChain = true := by decide +kernel
  have tip : (addNewBlock env alt2 forked).2.chain.db.TipIs alt2 := truly.1 added
  revert tip
  unfold Db.TipIs
  decide +kernel

/-- A block that continues the main chain is reported truly. -/
theorem main2_reportsTruly_iff :
    ReportsTruly env (.plain 5 2 coin ⟨2⟩ []) forked ↔
      ¬ StoringFails env (.plain 5 2 coin ⟨2⟩ []) forked :=
  reportsTruly_iff forked_reachable _

end UnstorableBlock
end Virie
