import Virie.Chainstate.AltBlocks
import Virie.Chainstate.History

/-! # Runs of the node

What a chain switch does between the database it starts from and the one it leaves, and
what a run of the node keeps: databases stay built, and every stored alternative block
has the property that its acceptance established. -/

open Foundation

namespace Virie

open Procedure

section Switching

variable {E : Env} {good : TransactionPrefix → Prop} {known : Block → Prop} {J : Chain → Prop}
  {node node' : Node}

/-! ## The parts of a switch -/

/-- Disconnecting blocks above the genesis block succeeds. -/
theorem disconnectBlocks_runs (count : Nat) (before : NodeBuilt E good known J node)
    (above : count < node.chain.db.blocks.length) :
    ∃ node', disconnectBlocks E count node =
        .ok ((node.chain.db.blocks.drop (node.chain.db.blocks.length - count)).map
          BlockExtendedInfo.bl) node' ∧
      NodeBuilt E good known J node' ∧
      node'.chain.db.blocks = node.chain.db.blocks.take (node.chain.db.blocks.length - count) := by
  induction count generalizing node with
  | zero => exact ⟨node, by simp [disconnectBlocks], before, by simp⟩
  | succ count ih =>
    obtain ⟨popped, pop, built, blocks⟩ := before.pop (by omega) true
    have shorter : popped.chain.db.blocks.length = node.chain.db.blocks.length - 1 := by
      rw [blocks, List.length_dropLast]
    obtain ⟨node', run, after, rest⟩ := ih built (by omega)
    obtain ⟨below, bei, split⟩ : ∃ below bei, node.chain.db.blocks = below ++ [bei] :=
      ⟨_, _, (List.dropLast_append_getLast (List.length_pos_iff.mp (by omega))).symm⟩
    rw [split, List.dropLast_concat] at blocks
    refine ⟨node', ?_, after, ?_⟩
    · simp only [disconnectBlocks, bind_ok, get_ok, demand_ok, requirePrevLinks, require_ok, pure_ok]
      refine ⟨node, node, ⟨rfl, rfl⟩, bei, node, ⟨by rw [split]; simp, rfl⟩, (), popped, pop,
        (), popped, ⟨popped, popped, ⟨rfl, rfl⟩, built.built.prevLinks _, rfl⟩, _, node', run, ?_,
        rfl⟩
      rw [blocks, split]
      rw [split, List.length_append, List.length_singleton] at above
      have cut : below.length + 1 - (count + 1) = below.length - count := by omega
      rw [List.length_append, List.length_singleton, cut,
        List.drop_append_of_le_length (Nat.sub_le _ _), List.map_append]
      rfl
    · rw [rest, blocks, split, List.length_append, List.length_singleton,
        List.take_append_of_le_length (by omega)]
      congr 1
      omega

theorem connectBranch_avoids_refused (altChain : AltChain) :
    Avoids .refused (connectBranch E altChain) := by
  induction altChain with
  | nil => exact avoids_pure []
  | cons head rest ih =>
    exact avoids_bind (attempt_avoids_refused _) fun _ => avoids_ite ih (avoids_pure _)

/-- A branch that connects as a whole is on top of the main chain. -/
theorem connectBranch_extends (free : CacheFree J) {altChain : AltChain}
    (before : NodeBuilt E good known J node) (started : node.chain.db.blocks ≠ [])
    (areKnown : ∀ entry ∈ altChain, known entry.2.bl)
    (run : connectBranch E altChain node = .ok [] node') :
    NodeBuilt E good known J node' ∧ ∃ added,
      node'.chain.db.blocks = node.chain.db.blocks ++ added ∧
      added.map BlockExtendedInfo.bl = altChain.map fun entry => entry.2.bl := by
  induction altChain generalizing node with
  | nil =>
    obtain ⟨-, rfl⟩ := pure_ok.mp run
    exact ⟨before, [], by simp⟩
  | cons head rest ih =>
    simp only [connectBranch, bind_ok] at run
    obtain ⟨connected, middle, first, run⟩ := run
    cases connected with
    | false => simp at run
    | true =>
      obtain ⟨_, first⟩ := attempt_true.mp first
      obtain ⟨pushed, bei, txs, same, connects⟩ := before.push free (areKnown head (.head _))
        (fun none => absurd none started) first
      obtain ⟨after, added, blocks, others⟩ := ih pushed (by simp [connects.blocks])
        (fun entry member => areKnown entry (.tail _ member)) run
      refine ⟨after, bei :: added, ?_, ?_⟩
      · rw [blocks, connects.blocks, List.append_assoc, List.singleton_append]
      · rw [List.map_cons, List.map_cons, others, same]

theorem connectBranch_ok (free : CacheFree J) {altChain : AltChain}
    (before : NodeBuilt E good known J node) (started : node.chain.db.blocks ≠ [])
    (areKnown : ∀ entry ∈ altChain, known entry.2.bl)
    (run : connectBranch E altChain node = .ok [] node') :
    NodeBuilt E good known J node' ∧ node'.chain.db.blocks.map BlockExtendedInfo.bl =
      node.chain.db.blocks.map BlockExtendedInfo.bl ++ altChain.map fun entry => entry.2.bl := by
  obtain ⟨after, added, blocks, same⟩ := connectBranch_extends free before started areKnown run
  exact ⟨after, by rw [blocks, List.map_append, same]⟩

/-- A branch connects as a whole or up to a block that the main chain refuses. -/
theorem connectBranch_cases {altChain failing : AltChain}
    (run : connectBranch E altChain node = .ok failing node') :
    (failing = [] ∧ connectBranch E altChain node = .ok [] node') ∨
    ∃ connected entry rest middle, failing = entry :: rest ∧ altChain = connected ++ entry :: rest ∧
      connectBranch E connected node = .ok [] middle ∧
      handleBlockToMainChain E entry.2.bl (getBlockHash E entry.2.bl) middle =
        .error .refused node' := by
  induction altChain generalizing node with
  | nil =>
    obtain ⟨rfl, rfl⟩ := pure_ok.mp run
    exact .inl ⟨rfl, rfl⟩
  | cons head rest ih =>
    have whole := run
    obtain ⟨connected, middle, first, run⟩ := bind_ok.mp run
    cases connected with
    | false =>
      obtain ⟨rfl, rfl⟩ := pure_ok.mp run
      exact .inr ⟨[], head, rest, node, rfl, rfl, rfl, attempt_false.mp first⟩
    | true =>
      rcases ih run with ⟨none, _⟩ | ⟨connected, entry, others, reached, last, split, before, refused⟩
      · rw [none] at whole ⊢
        exact .inl ⟨rfl, whole⟩
      · refine .inr ⟨head :: connected, entry, others, reached, last, ?_, ?_, refused⟩
        · rw [split, List.cons_append]
        · exact bind_ok.mpr ⟨true, middle, first, before⟩

/-- Offering a block to the alternative chains always returns and leaves the database alone. -/
theorem handleAlternativeBlock_runs (bl : Block) (id : Hash) (node : Node) :
    ∃ verdict node', handleAlternativeBlock E bl id node = .ok verdict node' ∧
      node'.chain.db = node.chain.db ∧ node'.pool = node.pool := by
  cases prepared : prepareAltBlock E node bl id with
  | error reason => exact ⟨.failed, node, by simp [handleAlternativeBlock, bind_ok, prepared], rfl, rfl⟩
  | ok place =>
    cases place with
    | none =>
      exact ⟨.orphaned (node.chain.db.validateBlockchainPrevLinks E), node,
        by simp [handleAlternativeBlock, bind_ok, prepared], rfl, rfl⟩
    | some place =>
      refine ⟨.added (place.1.altChain ++ [(id, place.2.entry)]) place.2.proof,
        { node with chain := storeAltBlock id place.2 node.chain }, ?_, rfl, rfl⟩
      simp only [handleAlternativeBlock, bind_ok, get_ok]
      refine ⟨node, node, ⟨rfl, rfl⟩, ?_⟩
      simp only [prepared, bind_ok, onChain_ok, modify_ok, pure_ok]
      exact ⟨⟨⟩, _, ⟨_, rfl, rfl⟩, trivial, rfl⟩

theorem storeDisconnected_runs (blocks : List Block) (node : Node) :
    ∃ stored node', storeDisconnected E blocks node = .ok stored node' ∧
      node'.chain.db = node.chain.db ∧ node'.pool = node.pool := by
  induction blocks generalizing node with
  | nil => exact ⟨true, node, rfl, rfl, rfl⟩
  | cons bl rest ih =>
    obtain ⟨verdict, middle, offered, db, pool⟩ :=
      handleAlternativeBlock_runs (E := E) bl (getBlockHash E bl) node
    simp only [storeDisconnected, bind_ok]
    cases returned : verdict.returned with
    | false => exact ⟨false, middle, ⟨verdict, middle, offered, by simp [returned]⟩, db, pool⟩
    | true =>
      obtain ⟨stored, node', others, restDb, restPool⟩ := ih middle
      exact ⟨stored, node', ⟨verdict, middle, offered, by rwa [returned, if_pos rfl]⟩,
        restDb.trans db, restPool.trans pool⟩

theorem eraseBranch_runs (altChain : AltChain) (node : Node) :
    ∃ node', eraseBranch E altChain node = .ok () node' ∧ node'.chain.db = node.chain.db ∧
      node'.pool = node.pool := by
  induction altChain generalizing node with
  | nil => exact ⟨node, rfl, rfl, rfl⟩
  | cons head rest ih =>
    obtain ⟨node', run, db, pool⟩ := ih (doEraseAltblock E head.1 head.2.bl node)
    exact ⟨node', bind_ok.mpr ⟨⟨⟩, _, modify_ok.mpr rfl, run⟩, db, pool⟩

theorem invalidateBranch_runs (altChain : AltChain) (node : Node) :
    ∃ node', invalidateBranch E altChain node = .ok () node' := by
  induction altChain generalizing node with
  | nil => exact ⟨node, rfl⟩
  | cons head rest ih =>
    let marked : Node := { node with
      chain := addBlockAsInvalid head.2.toBlockExtendedInfo head.1 node.chain }
    obtain ⟨node', run⟩ := ih (doEraseAltblock E head.1 head.2.bl marked)
    refine ⟨node', bind_ok.mpr ⟨⟨⟩, _, ?_, run⟩⟩
    simp only [bind_ok, onChain_ok, modify_ok]
    exact ⟨⟨⟩, marked, ⟨_, rfl, rfl⟩, rfl⟩

/-! ## Stored alternative blocks -/

/-- Every stored alternative block has a property. -/
def Stored (Q : Hash → AltBlockExtendedInfo → Prop) (chain : Chain) : Prop :=
  ∀ id entry, chain.alternativeChains.get id = some entry → Q id entry

/-- Blocks that are offered to the alternative chains in turn meet a condition. -/
def OffersMeet (E : Env) (offered : Node → Block → Prop) : List Block → Node → Prop
  | [], _ => True
  | bl :: rest, node => offered node bl ∧ ∀ verdict after,
      handleAlternativeBlock E bl (getBlockHash E bl) node = .ok verdict after →
      verdict.returned = true → OffersMeet E offered rest after

/-- The blocks that a switch to a branch disconnects meet a condition where it offers them to the
alternative chains. -/
def SwitchOffersMeet (E : Env) (offered : Node → Block → Prop) (altChain : AltChain)
    (node : Node) : Prop :=
  ∀ first disconnected lowered raised, altChain.head? = some first →
    disconnectBlocks E (node.chain.db.blocks.length - first.2.height) node =
      .ok disconnected lowered →
    connectBranch E altChain lowered = .ok [] raised → OffersMeet E offered disconnected raised

/-- A submitted block is known, and every block that the step offers to the alternative chains
meets a condition in the state it is offered in. -/
def GoodSubmission (E : Env) (known : Block → Prop) (offered : Node → Block → Prop) (event : Event)
    (node : Node) : Prop :=
  match event with
  | .submitBlock bl => known bl ∧ (node.chain.haveBlock (getBlockHash E bl) = false →
      bl.prevId ≠ node.chain.db.getTopBlockId E → offered node bl ∧
      ∀ altChain proof after, handleAlternativeBlock E bl (getBlockHash E bl) node =
        .ok (.added altChain proof) after → SwitchOffersMeet E offered altChain after)
  | _ => True

/-- What the acceptance of an alternative block establishes about its entry. -/
structure StoreRule (E : Env) (good : TransactionPrefix → Prop) (known : Block → Prop)
    (offered : Node → Block → Prop) (Q : Hash → AltBlockExtendedInfo → Prop) : Prop where
  aboveGenesis : ∀ id entry, Q id entry → 1 ≤ entry.height
  isKnown : ∀ id entry, Q id entry → known entry.bl
  stores : ∀ node bl position accepted, NodeBuilt E good known (Stored Q) node → known bl →
    offered node bl →
    prepareAltBlock E node bl (getBlockHash E bl) = .ok (some (position, accepted)) →
    Q (getBlockHash E bl) accepted.entry

section Stored

variable {Q : Hash → AltBlockExtendedInfo → Prop} {offered : Node → Block → Prop}

theorem cacheFree_stored : CacheFree (Stored Q) := fun _ _ _ stored => stored

theorem Stored.erase {chain other : Chain} (id : Hash) (stored : Stored Q chain)
    (same : other.alternativeChains = chain.alternativeChains.erase id) : Stored Q other := by
  intro other entry found
  rw [same, Container.get_erase] at found
  split at found
  · cases found
  · exact stored other entry found

theorem keeps_doEraseAltblock (id : Hash) (bl : Block) (keeps : NodeKeeps E good (Stored Q) node) :
    NodeKeeps E good (Stored Q) (doEraseAltblock E id bl node) :=
  ⟨keeps.pool, keeps.txs, Stored.erase id keeps.frame rfl⟩

theorem keeps_eraseBranch_stored (altChain : AltChain) :
    Preserves (NodeKeeps E good (Stored Q)) (eraseBranch E altChain) :=
  preserves_forEach fun _ _ => preserves_modify fun _ keeps => keeps_doEraseAltblock _ _ keeps

theorem keeps_invalidateBranch_stored (altChain : AltChain) :
    Preserves (NodeKeeps E good (Stored Q)) (invalidateBranch E altChain) :=
  preserves_forEach fun _ _ => preserves_bind (keeps_onChain (preserves_modify fun _ all => by
    unfold addBlockAsInvalid
    split <;> exact all)) fun _ => preserves_modify fun _ keeps => keeps_doEraseAltblock _ _ keeps

/-- Offering a block keeps what the acceptance of blocks establishes. -/
theorem NodeBuilt.offer (rule : StoreRule E good known offered Q)
    (before : NodeBuilt E good known (Stored Q) node) {bl : Block} (isKnown : known bl)
    (meets : offered node bl) {verdict : AltVerdict}
    (run : handleAlternativeBlock E bl (getBlockHash E bl) node = .ok verdict node') :
    NodeBuilt E good known (Stored Q) node' ∧ ∀ altChain proof, verdict = .added altChain proof →
      (∀ entry ∈ altChain, Q entry.1 entry.2) ∧ ∃ first, altChain.head? = some first ∧
        first.2.height ≤ node'.chain.db.blocks.length ∧
        altChain.getLast?.map (fun entry => entry.2.bl) = some bl := by
  simp only [handleAlternativeBlock, bind_ok, get_ok] at run
  obtain ⟨_, _, ⟨rfl, rfl⟩, run⟩ := run
  cases prepared : prepareAltBlock E node bl (getBlockHash E bl) with
  | error reason =>
    simp only [prepared, pure_ok] at run
    obtain ⟨rfl, rfl⟩ := run
    exact ⟨before, fun _ _ same => by cases same⟩
  | ok place =>
    cases place with
    | none =>
      simp only [prepared, pure_ok] at run
      obtain ⟨rfl, rfl⟩ := run
      exact ⟨before, fun _ _ same => by cases same⟩
    | some place =>
      obtain ⟨position, accepted⟩ := place
      simp only [prepared, bind_ok, onChain_ok, modify_ok, pure_ok] at run
      obtain ⟨_, _, ⟨_, rfl, rfl⟩, rfl, rfl⟩ := run
      have placed := altPlaced_of_prepare prepared
      have established := rule.stores node bl position accepted before isKnown meets prepared
      refine ⟨⟨⟨before.keeps.pool, before.keeps.txs, fun id entry found => ?_⟩, before.built,
        before.known⟩, fun altChain proof same => ?_⟩
      · change (node.chain.alternativeChains.set _ _).get id = some entry at found
        rw [Container.get_set] at found
        split at found
        · next here =>
          cases found
          rwa [← here]
        · exact before.keeps.frame id entry found
      · cases same
        refine ⟨fun entry member => ?_, placed.completed (altAccepted_of_prepare prepared)⟩
        rcases List.mem_append.mp member with below | top
        · exact before.keeps.frame _ _ (placed.mem_branch below)
        · rw [List.mem_singleton.mp top]
          exact established

theorem NodeBuilt.storeDisconnected (rule : StoreRule E good known offered Q)
    {blocks : List Block} (areKnown : ∀ bl ∈ blocks, known bl)
    (before : NodeBuilt E good known (Stored Q) node) (meets : OffersMeet E offered blocks node)
    {stored : Bool} (run : Virie.storeDisconnected E blocks node = .ok stored node') :
    NodeBuilt E good known (Stored Q) node' := by
  induction blocks generalizing node with
  | nil =>
    obtain ⟨-, rfl⟩ := pure_ok.mp run
    exact before
  | cons bl rest ih =>
    simp only [Virie.storeDisconnected, bind_ok] at run
    obtain ⟨verdict, middle, offer, run⟩ := run
    have after := (before.offer rule (areKnown bl (.head _)) meets.1 offer).1
    cases returned : verdict.returned with
    | false =>
      rw [returned] at run
      obtain ⟨-, rfl⟩ := pure_ok.mp run
      exact after
    | true =>
      rw [returned] at run
      exact ih (fun other member => areKnown other (.tail _ member)) after
        (meets.2 verdict middle offer returned) run

/-! ## Whole switches -/

/-- A switch to a branch above the genesis block disconnects the blocks from the split on and
continues with the branch. -/
theorem switch_runs {J : Chain → Prop} (before : NodeBuilt E good known J node)
    {altChain : AltChain} {first : Hash × AltBlockExtendedInfo} (top : altChain.head? = some first)
    (above : 1 ≤ first.2.height) (low : first.2.height ≤ node.chain.db.blocks.length) :
    ∃ lowered, NodeBuilt E good known J lowered ∧
      lowered.chain.db.blocks = node.chain.db.blocks.take first.2.height ∧
      disconnectBlocks E (node.chain.db.blocks.length - first.2.height) node =
        .ok ((node.chain.db.blocks.drop first.2.height).map BlockExtendedInfo.bl) lowered ∧
      switchToAlternativeBlockchain E altChain node =
        (connectBranch E altChain >>= finishSwitch E altChain first.2.height
          ((node.chain.db.blocks.drop first.2.height).map BlockExtendedInfo.bl)) lowered := by
  obtain ⟨lowered, run, built, blocks⟩ := disconnectBlocks_runs
    (node.chain.db.blocks.length - first.2.height) before (by omega)
  rw [Nat.sub_sub_self low] at run blocks
  refine ⟨lowered, built, blocks, run, ?_⟩
  unfold switchToAlternativeBlockchain
  have linked : requirePrevLinks E node = .ok () node := by
    rw [requirePrevLinks, get_bind]
    exact require_ok.mpr ⟨before.built.prevLinks _, rfl⟩
  have fits : require (decide (first.2.height ≤ node.chain.db.blocks.length)) node = .ok () node :=
    require_ok.mpr ⟨decide_eq_true low, rfl⟩
  rw [bind_of_ok linked, bind_of_ok (demand_ok.mpr ⟨top, rfl⟩)]
  dsimp only
  rw [get_bind, bind_of_ok fits, bind_of_ok run]

theorem finishSwitch_avoids_refused (altChain : AltChain) (splitHeight : Nat)
    (disconnected : List Block) (failing : AltChain) :
    Avoids .refused (finishSwitch E altChain splitHeight disconnected failing) := by
  have stores : Avoids .refused (storeDisconnected E disconnected) := fun node after same => by
    obtain ⟨stored, node', run, _⟩ := storeDisconnected_runs (E := E) disconnected node
    simp [run] at same
  have erases : Avoids .refused (eraseBranch E altChain) := fun node after same => by
    obtain ⟨node', run, _⟩ := eraseBranch_runs (E := E) altChain node
    simp [run] at same
  have invalidates : Avoids .refused (invalidateBranch E failing) := fun node after same => by
    obtain ⟨node', run⟩ := invalidateBranch_runs (E := E) failing node
    simp [run] at same
  refine avoids_ite (avoids_bind stores fun _ => avoids_ite ?_ ?_) ?_
  · exact avoids_bind erases fun _ => avoids_pure _
  · exact avoids_bind (attempt_avoids_refused _) fun _ =>
      avoids_bind (attempt_avoids_refused _) fun _ =>
      avoids_bind (avoids_onlyIf fun _ => erases) fun _ => avoids_pure _
  · exact avoids_bind (attempt_avoids_refused _) fun _ =>
      avoids_bind invalidates fun _ => avoids_pure _

/-- A switch that asks for no rollback connected the whole branch, stored every block it
disconnected and erased the entries of the branch. -/
theorem finishSwitch_committed {altChain failing : AltChain} {splitHeight : Nat}
    {disconnected : List Block} {result : SwitchResult}
    (run : finishSwitch E altChain splitHeight disconnected failing node = .ok result node')
    (noRollback : result.hadRollback = false) :
    failing = [] ∧ result.success = true ∧
      ∃ stored, storeDisconnected E disconnected node = .ok true stored ∧
        eraseBranch E altChain stored = .ok () node' := by
  cases failing with
  | nil =>
    simp only [finishSwitch, List.isEmpty_nil, ↓reduceIte, bind_ok] at run
    obtain ⟨stored, middle, store, run⟩ := run
    cases stored with
    | true =>
      simp only [↓reduceIte, bind_ok, pure_ok] at run
      obtain ⟨_, _, erase, rfl, rfl⟩ := run
      exact ⟨rfl, rfl, middle, store, erase⟩
    | false =>
      simp only [Bool.false_eq_true, ↓reduceIte, bind_ok, pure_ok] at run
      obtain ⟨_, _, _, _, _, _, _, _, _, rfl, _⟩ := run
      cases noRollback
  | cons head rest =>
    simp only [finishSwitch, List.isEmpty_cons, Bool.false_eq_true, ↓reduceIte, bind_ok,
      pure_ok] at run
    obtain ⟨_, _, _, _, _, _, rfl, _⟩ := run
    cases noRollback

/-- The end of a switch keeps the stored blocks sound; without a rollback it leaves the database
with the branch. -/
theorem finishSwitch_keeps (rule : StoreRule E good known offered Q) (altChain : AltChain)
    (splitHeight : Nat) {failing : AltChain} {disconnected : List Block}
    (keeps : NodeKeeps E good (Stored Q) node)
    (areKnown : ∀ bl ∈ disconnected, known bl)
    (whole : failing = [] → NodeBuilt E good known (Stored Q) node ∧
      OffersMeet E offered disconnected node) :
    NodeKeeps E good (Stored Q)
        (final (finishSwitch E altChain splitHeight disconnected failing node)) ∧
      ∀ result after, finishSwitch E altChain splitHeight disconnected failing node =
        .ok result after → result.hadRollback = false → failing = [] ∧ result.success = true ∧
        NodeBuilt E good known (Stored Q) after ∧ after.chain.db = node.chain.db := by
  cases failing with
  | nil =>
    obtain ⟨built, meets⟩ := whole rfl
    obtain ⟨stored, middle, store, sameDb, _⟩ := storeDisconnected_runs (E := E) disconnected node
    have middleBuilt := built.storeDisconnected rule areKnown meets store
    simp only [finishSwitch, List.isEmpty_nil, ↓reduceIte]
    rw [bind_of_ok store]
    cases stored with
    | true =>
      obtain ⟨node', erase, eraseDb, _⟩ := eraseBranch_runs (E := E) altChain middle
      simp only [↓reduceIte]
      rw [bind_of_ok erase]
      have kept := (keeps_eraseBranch_stored altChain).of_ok erase middleBuilt.keeps
      refine ⟨kept, fun result after run _ => ?_⟩
      obtain ⟨rfl, rfl⟩ := pure_ok.mp run
      exact ⟨trivial, rfl, ⟨kept, by rw [eraseDb]; exact middleBuilt.built,
        by rw [eraseDb]; exact middleBuilt.known⟩, eraseDb.trans sameDb⟩
    | false =>
      refine ⟨preserves_bind (preserves_attempt (keeps_rollbackBlockchainSwitching _)) (fun _ =>
        preserves_bind (preserves_attempt keeps_requirePrevLinks) fun _ =>
        preserves_bind (preserves_onlyIf (keeps_eraseBranch_stored _)) fun _ => preserves_pure _)
        middle middleBuilt.keeps, fun result after run committed => ?_⟩
      simp only [Bool.false_eq_true, ↓reduceIte, bind_ok, pure_ok] at run
      obtain ⟨_, _, _, _, _, _, _, _, _, rfl, rfl⟩ := run
      cases committed
  | cons head rest =>
    simp only [finishSwitch, List.isEmpty_cons, Bool.false_eq_true, ↓reduceIte]
    refine ⟨preserves_bind (preserves_attempt (keeps_rollbackBlockchainSwitching _)) (fun _ =>
      preserves_bind (keeps_invalidateBranch_stored _) fun _ => preserves_pure _) node keeps,
      fun result after run committed => ?_⟩
    simp only [bind_ok, pure_ok] at run
    obtain ⟨_, _, _, _, _, _, rfl, rfl⟩ := run
    cases committed

/-- What a switch leads to, from a built database to a branch of sound stored blocks. -/
theorem NodeBuilt.switch (rule : StoreRule E good known offered Q)
    (before : NodeBuilt E good known (Stored Q) node) {altChain : AltChain}
    (entries : ∀ entry ∈ altChain, Q entry.1 entry.2) {first : Hash × AltBlockExtendedInfo}
    (top : altChain.head? = some first) (low : first.2.height ≤ node.chain.db.blocks.length)
    (meets : SwitchOffersMeet E offered altChain node) :
    NodeKeeps E good (Stored Q) (final (switchToAlternativeBlockchain E altChain node)) ∧
      (∀ after, switchToAlternativeBlockchain E altChain node ≠ .error .refused after) ∧
      ∀ result after, switchToAlternativeBlockchain E altChain node = .ok result after →
        result.hadRollback = false → result.success = true ∧
        NodeBuilt E good known (Stored Q) after ∧
        after.chain.db.blocks.map BlockExtendedInfo.bl =
          (node.chain.db.blocks.take first.2.height).map BlockExtendedInfo.bl ++
            altChain.map fun entry => entry.2.bl := by
  have above : 1 ≤ first.2.height :=
    rule.aboveGenesis _ _ (entries first (List.mem_of_mem_head? top))
  obtain ⟨lowered, built, blocks, disconnect, switch⟩ := switch_runs before top above low
  rw [switch]
  have disconnectedKnown : ∀ bl ∈ (node.chain.db.blocks.drop first.2.height).map
      BlockExtendedInfo.bl, known bl := by
    intro bl member
    obtain ⟨bei, inside, rfl⟩ := List.mem_map.mp member
    exact before.known bei (List.mem_of_mem_drop inside)
  cases connect : connectBranch E altChain lowered with
  | error reason raised =>
    rw [bind_of_error connect]
    have kept : NodeKeeps E good (Stored Q) (final (connectBranch E altChain lowered)) :=
      keeps_connectBranch cacheFree_stored altChain lowered built.keeps
    rw [connect] at kept
    refine ⟨kept, fun after same => ?_, fun result after same => by cases same⟩
    cases same
    exact connectBranch_avoids_refused altChain _ _ connect
  | ok failing raised =>
    rw [bind_of_ok connect]
    have kept := (keeps_connectBranch cacheFree_stored altChain).of_ok connect built.keeps
    have started : lowered.chain.db.blocks ≠ [] := by
      apply List.ne_nil_of_length_pos
      rw [blocks, List.length_take]
      omega
    have connected : failing = [] → NodeBuilt E good known (Stored Q) raised ∧
        raised.chain.db.blocks.map BlockExtendedInfo.bl =
          lowered.chain.db.blocks.map BlockExtendedInfo.bl ++
            altChain.map fun entry => entry.2.bl := by
      rintro rfl
      exact connectBranch_ok cacheFree_stored built started
        (fun entry member => rule.isKnown _ _ (entries entry member)) connect
    obtain ⟨ends, committed⟩ := finishSwitch_keeps rule altChain first.2.height kept
      disconnectedKnown fun all =>
        ⟨(connected all).1, meets first _ lowered raised top disconnect (all ▸ connect)⟩
    refine ⟨ends, fun after => finishSwitch_avoids_refused _ _ _ _ _ _,
      fun result after run noRollback => ?_⟩
    obtain ⟨all, success, finalBuilt, sameDb⟩ := committed result after run noRollback
    refine ⟨success, finalBuilt, ?_⟩
    rw [sameDb, (connected all).2, blocks]

end Stored

end Switching
end Virie
