import Virie.Chainstate.Switching

/-! # Runs of the node

A submission ends in the database it reached or in the one it started from, and both were
built block by block. Every state of a run therefore has a built database and sound
stored alternative blocks. -/

open Foundation

namespace Virie

open Procedure

/-- The top block of a database. -/
def Db.TipIs (db : Db) (bl : Block) : Prop := db.blocks.getLast?.map BlockExtendedInfo.bl = some bl

theorem Db.TipIs.nonempty {db : Db} {bl : Block} (tip : db.TipIs bl) : db.blocks ≠ [] := by
  intro none
  simp [Db.TipIs, none] at tip

/-- A submitted block is accepted as an alternative one and completes a branch that the node
switches to. -/
def StartsSwitch (E : Env) (bl : Block) (node : Node) (altChain : AltChain) (offered : Node) :
    Prop :=
  node.chain.haveBlock (getBlockHash E bl) = false ∧
  bl.prevId ≠ node.chain.db.getTopBlockId E ∧
  ∃ proof top abei,
    handleAlternativeBlock E bl (getBlockHash E bl) node = .ok (.added altChain proof) offered ∧
    offered.chain.db.blocks.getLast? = some top ∧
    offered.chain.alternativeChains.get (getBlockHash E bl) = some abei ∧
    isReorganizeRequired top abei.cumulativeDiffAdjusted proof = true

section Running

variable {E : Env} {good : TransactionPrefix → Prop} {known : Block → Prop}
  {Q : Hash → AltBlockExtendedInfo → Prop} {offered : Node → Block → Prop} {node node' : Node}

/-! ## Submissions -/

theorem keeps_finalizeLinked_frame {J : Chain → Prop} :
    Preserves (NodeKeeps E good J) (finalizeLinked E) :=
  preserves_get_bind fun _ _ => preserves_ite
    (fun _ => preserves_bind (keeps_onPool (preserves_modify fun _ sound => sound)) fun _ =>
      preserves_pure _)
    (fun _ => preserves_pure _)

theorem finalizeLinked_runs (node : Node) :
    ∃ linked node', finalizeLinked E node = .ok linked node' ∧ node'.chain = node.chain := by
  simp only [finalizeLinked, bind_ok, get_ok]
  by_cases linked : node.chain.db.validateBlockchainPrevLinks E
  · refine ⟨true, { node with pool := onFinalizeDbTransaction node.pool },
      ⟨node, node, ⟨rfl, rfl⟩, ?_⟩, rfl⟩
    simp only [linked, ↓reduceIte, bind_ok, onPool_ok, modify_ok, pure_ok]
    exact ⟨⟨⟩, _, ⟨_, rfl, rfl⟩, trivial, rfl⟩
  · exact ⟨false, node, ⟨node, node, ⟨rfl, rfl⟩, by simp [linked]⟩, rfl⟩

theorem finalizeLinked_chain {linked : Bool} (run : finalizeLinked E node = .ok linked node') :
    node'.chain = node.chain := by
  obtain ⟨_, _, other, same⟩ := finalizeLinked_runs (E := E) node
  rw [run] at other
  cases other
  exact same

/-- A procedure that keeps the pool sound and leaves the storage alone keeps a node built. -/
theorem NodeBuilt.congr {J : Chain → Prop} (before : NodeBuilt E good known J node)
    (kept : NodeKeeps E good J node') (same : node'.chain.db = node.chain.db) :
    NodeBuilt E good known J node' :=
  ⟨kept, by rw [same]; exact before.built, by rw [same]; exact before.known⟩

/-- What a committed submission leads to: a built database with the block on top, and flags that
say so. -/
structure SubmissionAdds (E : Env) (good : TransactionPrefix → Prop) (known : Block → Prop)
    (Q : Hash → AltBlockExtendedInfo → Prop) (bl : Block) (submission : Submission)
    (after : Node) : Prop where
  built : NodeBuilt E good known (Stored Q) after
  added : submission.bvc.addedToMainChain = true
  tip : after.chain.db.TipIs bl

theorem keeps_submitToTip {J : Chain → Prop} (free : CacheFree J) (bl : Block) (id : Hash) :
    Preserves (NodeKeeps E good J) (submitToTip E bl id) :=
  preserves_bind (preserves_attempt (keeps_handleBlockToMainChain free bl id)) fun _ =>
    preserves_ite
      (fun _ => preserves_bind keeps_finalizeLinked_frame fun _ => preserves_pure _)
      (fun _ => preserves_bind (keeps_onPool (preserves_modify fun _ sound => sound)) fun _ =>
        preserves_bind (keeps_onChain (preserves_modify fun _ holds => holds)) fun _ =>
        preserves_pure _)

theorem NodeBuilt.submitToTip (before : NodeBuilt E good known (Stored Q) node) {bl : Block}
    (isKnown : known bl) (genesis : node.chain.db.blocks = [] → bl.txHashes = [])
    {submission : Submission}
    (run : Virie.submitToTip E bl (getBlockHash E bl) node = .ok submission node') :
    (submission.committed = true → SubmissionAdds E good known Q bl submission node') ∧
      (submission.committed = false → submission.bvc.addedToMainChain = false) := by
  simp only [Virie.submitToTip, bind_ok] at run
  obtain ⟨connected, middle, attempted, run⟩ := run
  cases connected with
  | true =>
    obtain ⟨_, handled⟩ := attempt_true.mp attempted
    obtain ⟨pushed, bei, txs, same, connects⟩ :=
      before.push cacheFree_stored isKnown genesis handled
    simp only [↓reduceIte, bind_ok, pure_ok] at run
    obtain ⟨linked, _, finalized, rfl, rfl⟩ := run
    have chain := finalizeLinked_chain finalized
    refine ⟨fun _ => ⟨pushed.congr (keeps_finalizeLinked_frame.of_ok finalized pushed.keeps)
      (congrArg Chain.db chain), rfl, ?_⟩, fun fails => by cases fails⟩
    rw [Db.TipIs, chain, connects.blocks, List.getLast?_concat, Option.map_some, same]
  | false =>
    simp only [Bool.false_eq_true, ↓reduceIte, bind_ok, pure_ok] at run
    obtain ⟨_, _, _, _, _, _, rfl, rfl⟩ := run
    exact ⟨fun fails => (by cases fails), fun _ => rfl⟩

theorem NodeBuilt.reorganize (rule : StoreRule E good known offered Q)
    (before : NodeBuilt E good known (Stored Q) node) {altChain : AltChain} {bl : Block}
    (entries : ∀ entry ∈ altChain, Q entry.1 entry.2) {first : Hash × AltBlockExtendedInfo}
    (top : altChain.head? = some first) (low : first.2.height ≤ node.chain.db.blocks.length)
    (newest : altChain.getLast?.map (fun entry => entry.2.bl) = some bl)
    (meets : SwitchOffersMeet E offered altChain node) :
    NodeKeeps E good (Stored Q) (final (reorganize E altChain node)) ∧
      ∀ submission after, reorganize E altChain node = .ok submission after →
        submission.committed = true → SubmissionAdds E good known Q bl submission after := by
  obtain ⟨kept, unrefused, committed⟩ := before.switch rule entries top low meets
  cases switch : switchToAlternativeBlockchain E altChain node with
  | error reason after =>
    rw [switch] at kept
    have same : runSwitch E altChain node = .error reason after := by
      cases reason with
      | refused => exact absurd switch (unrefused after)
      | thrown => rw [runSwitch, switch]
    rw [Virie.reorganize, bind_of_error same]
    exact ⟨kept, fun submission after run => by cases run⟩
  | ok result middle =>
    rw [switch] at kept
    have same : runSwitch E altChain node = .ok result middle := by rw [runSwitch, switch]
    rw [Virie.reorganize, bind_of_ok same]
    cases rolled : result.hadRollback with
    | true =>
      refine ⟨kept, fun submission after run commits => ?_⟩
      simp only [↓reduceIte, pure_ok] at run
      obtain ⟨rfl, rfl⟩ := run
      cases commits
    | false =>
      obtain ⟨success, built, blocks⟩ := committed result middle switch rolled
      obtain ⟨linked, node', finalized, chain⟩ := finalizeLinked_runs (E := E) middle
      simp only [Bool.false_eq_true, ↓reduceIte]
      rw [bind_of_ok finalized]
      have keptEnd := keeps_finalizeLinked_frame.of_ok finalized kept
      refine ⟨keptEnd, fun submission after run _ => ?_⟩
      obtain ⟨rfl, rfl⟩ := pure_ok.mp run
      refine ⟨built.congr keptEnd (congrArg Chain.db chain), success, ?_⟩
      rw [Db.TipIs, chain, ← List.getLast?_map, blocks, List.getLast?_append, List.getLast?_map,
        newest, Option.some_or]

theorem NodeBuilt.submitAlternative (rule : StoreRule E good known offered Q)
    (before : NodeBuilt E good known (Stored Q) node) {bl : Block} (isKnown : known bl)
    (meets : offered node bl)
    (switches : ∀ altChain proof after, handleAlternativeBlock E bl (getBlockHash E bl) node =
      .ok (.added altChain proof) after → SwitchOffersMeet E offered altChain after) :
    NodeKeeps E good (Stored Q) (final (submitAlternative E bl (getBlockHash E bl) node)) ∧
      ∀ submission after, submitAlternative E bl (getBlockHash E bl) node = .ok submission after →
        submission.committed = true → SubmissionAdds E good known Q bl submission after := by
  obtain ⟨verdict, middle, offer, sameDb, _⟩ :=
    handleAlternativeBlock_runs (E := E) bl (getBlockHash E bl) node
  obtain ⟨built, stored⟩ := before.offer rule isKnown meets offer
  rw [Virie.submitAlternative, bind_of_ok offer]
  cases verdict with
  | failed =>
    obtain ⟨linked, node', finalized, _⟩ := finalizeLinked_runs (E := E) middle
    dsimp only
    rw [bind_of_ok finalized]
    refine ⟨keeps_finalizeLinked_frame.of_ok finalized built.keeps,
      fun submission after run commits => ?_⟩
    obtain ⟨rfl, rfl⟩ := pure_ok.mp run
    cases commits
  | orphaned linked =>
    refine ⟨built.keeps, fun submission after run commits => ?_⟩
    obtain ⟨rfl, rfl⟩ := pure_ok.mp run
    cases commits
  | added altChain proof =>
    obtain ⟨entries, first, top, low, newest⟩ := stored altChain proof rfl
    obtain ⟨reorganized, adds⟩ := built.reorganize rule entries top low newest
      (switches altChain proof middle offer)
    dsimp only
    rw [get_bind]
    cases middle.chain.db.blocks.getLast? with
    | none => exact ⟨built.keeps, fun submission after run => by cases run⟩
    | some tip =>
      rw [demand_bind]
      cases middle.chain.alternativeChains.get (getBlockHash E bl) with
      | none => exact ⟨built.keeps, fun submission after run => by cases run⟩
      | some abei =>
        rw [demand_bind]
        by_cases required : isReorganizeRequired tip abei.cumulativeDiffAdjusted proof
        · rw [if_pos required]
          exact ⟨reorganized, adds⟩
        · rw [if_neg required]
          refine ⟨built.keeps, fun submission after run commits => ?_⟩
          obtain ⟨rfl, rfl⟩ := pure_ok.mp run
          cases commits

/-- What a submission leads to, whichever way it ends. -/
theorem NodeBuilt.submitBlock (rule : StoreRule E good known offered Q)
    (before : NodeBuilt E good known (Stored Q) node) (started : node.chain.db.blocks ≠ [])
    {bl : Block} (submission : GoodSubmission E known offered (.submitBlock bl) node) :
    NodeKeeps E good (Stored Q) (final (Virie.submitBlock E bl node)) ∧
      ∀ submission after, Virie.submitBlock E bl node = .ok submission after →
        submission.committed = true → SubmissionAdds E good known Q bl submission after := by
  obtain ⟨isKnown, meets⟩ := submission
  rw [Virie.submitBlock, get_bind]
  cases present : node.chain.haveBlock (getBlockHash E bl) with
  | true =>
    rw [if_pos rfl]
    refine ⟨before.keeps, fun submission after run commits => ?_⟩
    obtain ⟨rfl, rfl⟩ := pure_ok.mp run
    cases commits
  | false =>
    by_cases apart : bl.prevId ≠ node.chain.db.getTopBlockId E
    · rw [if_neg Bool.false_ne_true, if_pos apart]
      obtain ⟨offer, switches⟩ := meets present apart
      exact before.submitAlternative rule isKnown offer switches
    · rw [if_neg Bool.false_ne_true, if_neg apart]
      exact ⟨keeps_submitToTip cacheFree_stored bl _ node before.keeps,
        fun submission after run =>
          (before.submitToTip isKnown (fun none => absurd none started) run).1⟩

/-- A submitted block leads from a built database to a built one. -/
theorem NodeBuilt.addNewBlock (rule : StoreRule E good known offered Q)
    (before : NodeBuilt E good known (Stored Q) node) (started : node.chain.db.blocks ≠ [])
    {bl : Block} (submission : GoodSubmission E known offered (.submitBlock bl) node) :
    NodeBuilt E good known (Stored Q) (Virie.addNewBlock E bl node).2 ∧
      (Virie.addNewBlock E bl node).2.chain.db.blocks ≠ [] := by
  obtain ⟨kept, adds⟩ := before.submitBlock rule started submission
  unfold Virie.addNewBlock
  cases run : Virie.submitBlock E bl node with
  | error reason after =>
    rw [run] at kept
    exact ⟨⟨⟨kept.pool, before.keeps.txs, kept.frame⟩, before.built, before.known⟩, started⟩
  | ok submission after =>
    rw [run] at kept
    dsimp only
    by_cases commits : submission.committed = true
    · rw [if_pos commits]
      have added := adds submission after run commits
      exact ⟨⟨⟨kept.pool, added.built.keeps.txs, kept.frame⟩, added.built.built,
        added.built.known⟩, added.tip.nonempty⟩
    · rw [if_neg commits]
      exact ⟨⟨⟨kept.pool, before.keeps.txs, kept.frame⟩, before.built, before.known⟩, started⟩

/-! ## Relayed transactions -/

section Relayed

variable {I : Chain → Prop}

theorem keepsChain_onPool {α : Type} (body : PoolM α) :
    Preserves (fun node : Node => I node.chain) (onPool body) :=
  preserves_within fun _ holds => holds

theorem keepsChain_onChain {α : Type} {body : ChainM α} (keeps : Preserves I body) :
    Preserves (fun node : Node => I node.chain) (onChain body) :=
  preserves_within fun node holds => keeps node.chain holds

theorem keepsChain_doInsertTransaction (tx : Transaction) (id : Hash) (blobSize : Nat)
    (keptByBlock : Bool) (fee : Nat) (blockId : Hash) (blockHeight : Nat) :
    Preserves (fun node : Node => I node.chain)
      (doInsertTransaction tx id blobSize keptByBlock fee blockId blockHeight) :=
  preserves_get_bind fun _ _ => keepsChain_onPool _

/-- The price of an alias is all that the check of a registration remembers. -/
theorem preserves_prevalidateAliasInfo_of (fees : Preserves I getTxFeeMedian)
    (tx : TransactionPrefix) (entry : ExtraAliasEntry) :
    Preserves I (prevalidateAliasInfo E tx entry) := by
  refine preserves_bind (preserves_require _) fun _ => preserves_get_bind fun chain _ => ?_
  refine preserves_ite (fun _ => preserves_pure _) fun _ => ?_
  refine preserves_bind ?_ fun _ => preserves_ite (fun _ => ?_) fun _ => preserves_pure _
  · exact preserves_bind (preserves_bind fees fun _ => preserves_pure _) fun _ =>
      preserves_require _
  · exact preserves_bind (preserves_require _) fun _ => preserves_require _

theorem keepsChain_validateAliasInfo (tx : TransactionPrefix) {isInBlock : Bool}
    (fees : isInBlock = false → Preserves I getTxFeeMedian) :
    Preserves (fun node : Node => I node.chain) (validateAliasInfo E tx isInBlock) := by
  unfold validateAliasInfo
  split
  · exact preserves_pure ()
  · refine preserves_ite (fun _ => preserves_pure ()) fun free => preserves_get_bind fun _ _ => ?_
    exact preserves_bind (preserves_require _) fun _ => preserves_bind (preserves_require _)
      fun _ => preserves_bind (preserves_require _) fun _ => preserves_bind (preserves_require _)
      fun _ => keepsChain_onChain
        (preserves_prevalidateAliasInfo_of (fees (Bool.eq_false_iff.mpr free)) _ _)

/-- Adding a transaction to the pool changes the storage by what it remembers of medians, and not
at all when a block vouches for the transaction. -/
theorem keepsChain_addTx (tx : Transaction) (minFee : Nat) {keptByBlock : Bool} (fromCore : Bool)
    (expiry : keptByBlock = false → Preserves I (isTxExpired tx.toTransactionPrefix))
    (fees : keptByBlock = false → Preserves I getTxFeeMedian) :
    Preserves (fun node : Node => I node.chain) (addTx E tx minFee keptByBlock fromCore) := by
  refine preserves_get_bind fun node _ => preserves_bind (preserves_require _) fun _ =>
    preserves_bind (preserves_onlyIf_of fun free => ?_) fun _ =>
    preserves_bind (preserves_demand _ _) fun fee =>
    preserves_bind (preserves_onlyIf (keepsChain_validateAliasInfo _ fees)) fun _ =>
    preserves_bind (preserves_onlyIf ?_) fun _ => preserves_bind ?_ fun _ =>
    preserves_bind (preserves_reading _) fun _ => preserves_ite (fun _ => preserves_pure _)
    fun _ => preserves_get_bind fun node _ => ?_
  · simp only [Bool.and_eq_true, Bool.not_eq_true'] at free
    exact preserves_bind (keepsChain_onChain (expiry free.2)) fun _ => preserves_require _
  · exact preserves_get_bind fun _ _ => preserves_bind (preserves_require _) fun _ =>
      preserves_require _
  · refine preserves_get_bind fun _ _ => ?_
    split
    · exact preserves_bind (preserves_modify fun _ holds => holds) fun _ => preserves_pure _
    · exact preserves_pure _
  · split
    · exact preserves_throw _
    · exact preserves_bind (preserves_require _) fun _ =>
        preserves_bind (keepsChain_doInsertTransaction _ _ _ _ _ _ _) fun _ => preserves_pure _
    · exact preserves_bind (keepsChain_doInsertTransaction _ _ _ _ _ _ _) fun _ =>
        preserves_pure _

theorem preserves_isTxExpired_of (medians : ∀ n, Preserves I (getLastNBlocksTimestampsMedian n))
    (tx : TransactionPrefix) : Preserves I (isTxExpired tx) :=
  preserves_bind (medians _) fun _ => preserves_pure _

theorem keepsChain_handleIncomingTx (medians : ∀ n, Preserves I (getLastNBlocksTimestampsMedian n))
    (fees : Preserves I getTxFeeMedian) (tx : Transaction) (blobSize : Nat) (keptByBlock : Bool) :
    Preserves (fun node : Node => I node.chain) (handleIncomingTx E tx blobSize keptByBlock) :=
  preserves_get_bind fun _ _ => preserves_bind (preserves_require _) fun _ =>
    preserves_bind (preserves_require _) fun _ => preserves_bind (preserves_require _) fun _ =>
    preserves_get_bind fun _ _ => preserves_ite (fun _ => preserves_pure ()) fun _ =>
    preserves_bind (keepsChain_addTx _ _ _ (fun _ => preserves_isTxExpired_of medians _)
      fun _ => fees) fun _ => preserves_pure _

theorem keepsChain_removeStuckTransactions
    (medians : ∀ n, Preserves I (getLastNBlocksTimestampsMedian n)) :
    Preserves (fun node : Node => I node.chain) (removeStuckTransactions E) :=
  preserves_bind (keepsChain_onChain (medians _)) fun _ => preserves_get_bind fun _ _ =>
    preserves_forEach fun _ _ => keepsChain_onPool _

end Relayed

/-! ## Truncations and maintenance -/

/-- Popping blocks goes on until the genesis block refuses. -/
theorem popBlocks_runs {J : Chain → Prop} (count : Nat) (before : NodeBuilt E good known J node)
    (started : node.chain.db.blocks ≠ []) :
    ∃ success node', popBlocks E count node = .ok success node' ∧
      NodeBuilt E good known J node' ∧ node'.chain.db.blocks ≠ [] ∧
      node'.chain.db.blocks.length ≤ node.chain.db.blocks.length := by
  induction count generalizing node with
  | zero => exact ⟨true, node, rfl, before, started, Nat.le_refl _⟩
  | succ count ih =>
    by_cases above : 1 < node.chain.db.blocks.length
    · obtain ⟨popped, pop, built, blocks⟩ := before.pop above false
      have remains : popped.chain.db.blocks ≠ [] := by
        apply List.ne_nil_of_length_pos
        rw [blocks, List.length_dropLast]
        omega
      obtain ⟨success, node', run, after, rest, shorter⟩ := ih built remains
      rw [blocks, List.length_dropLast] at shorter
      refine ⟨success, node', ?_, after, rest, by omega⟩
      simp only [popBlocks, bind_ok]
      exact ⟨true, popped, attempt_true.mpr ⟨(), pop⟩, by rwa [if_pos rfl]⟩
    · refine ⟨false, node, ?_, before, started, Nat.le_refl _⟩
      simp only [popBlocks, bind_ok]
      refine ⟨false, node, attempt_false.mpr ?_, by simp⟩
      rw [popBlockFromBlockchain, get_bind]
      exact bind_of_error (by rw [decide_eq_false above]; rfl)

theorem NodeBuilt.truncateBlockchain (before : NodeBuilt E good known (Stored Q) node)
    (started : node.chain.db.blocks ≠ []) (toHeight : Nat) :
    NodeBuilt E good known (Stored Q) (Virie.truncateBlockchain E toHeight node) ∧
      (Virie.truncateBlockchain E toHeight node).chain.db.blocks ≠ [] := by
  obtain ⟨success, after, run, built, remains, _⟩ :=
    popBlocks_runs (node.chain.db.blocks.length - toHeight) before started
  rw [Virie.truncateBlockchain, run]
  refine ⟨⟨⟨built.keeps.pool, built.keeps.txs, fun id entry found => ?_⟩, built.built,
    built.known⟩, remains⟩
  change (∅ : Container Hash AltBlockExtendedInfo).get id = some entry at found
  rw [Container.get_empty] at found
  cases found

theorem pruneAgedAltBlocks_db (node : Node) :
    (pruneAgedAltBlocks E node).chain.db = node.chain.db := by
  unfold pruneAgedAltBlocks
  generalize node.chain.alternativeChains.toList = entries
  induction entries generalizing node with
  | nil => rfl
  | cons head rest ih =>
    rw [List.foldl_cons, ih]
    dsimp only
    split <;> rfl

theorem keeps_pruneAgedAltBlocks (keeps : NodeKeeps E good (Stored Q) node) :
    NodeKeeps E good (Stored Q) (pruneAgedAltBlocks E node) := by
  unfold pruneAgedAltBlocks
  generalize node.chain.alternativeChains.toList = entries
  induction entries generalizing node with
  | nil => exact keeps
  | cons head rest ih =>
    rw [List.foldl_cons]
    apply ih
    dsimp only
    split
    · exact keeps_doEraseAltblock head.1 head.2.bl keeps
    · exact keeps

/-! ## Whole runs -/

/-- Apart from submissions, truncations and the removal of aged blocks, a step changes the storage
by queries and by the clock only. -/
theorem step_keepsChain {I : Chain → Prop}
    (medians : ∀ n, Preserves I (getLastNBlocksTimestampsMedian n))
    (fees : Preserves I getTxFeeMedian) (diffs : ∀ pos, Preserves I (getCachedNextDifficulty pos))
    (clock : ∀ chain coreTime, I chain → I { chain with coreTime })
    {event : Event} (unsubmitted : ∀ bl, event ≠ .submitBlock bl)
    (whole : ∀ toHeight, event ≠ .truncate toHeight) (aged : event ≠ .pruneAged)
    (holds : I node.chain) : I (Virie.step E event node).chain := by
  cases event with
  | submitBlock bl => exact absurd rfl (unsubmitted bl)
  | incomingTx tx blobSize keptByBlock =>
    exact keepsChain_handleIncomingTx medians fees tx blobSize keptByBlock node holds
  | truncate toHeight => exact absurd rfl (whole toHeight)
  | pruneAged => exact absurd rfl aged
  | removeStuck => exact keepsChain_removeStuckTransactions medians node holds
  | purgePool => exact holds
  | queryDifficulty pos => exact keepsChain_onChain (diffs pos) node holds
  | queryTimestampsMedian n => exact keepsChain_onChain (medians n) node holds
  | queryFeeMedian => exact keepsChain_onChain fees node holds
  | tick coreTime => exact clock node.chain coreTime holds

/-- Only submissions and truncations change the database. -/
theorem step_db {event : Event} (unsubmitted : ∀ bl, event ≠ .submitBlock bl)
    (whole : ∀ toHeight, event ≠ .truncate toHeight) :
    (Virie.step E event node).chain.db = node.chain.db := by
  by_cases aged : event = .pruneAged
  · rw [aged]
    exact pruneAgedAltBlocks_db node
  · have kept := @step_keepsChain E node (fun chain => chain.db = node.chain.db ∧ True)
      (fun n => preserves_getLastNBlocksTimestampsMedian (I := (· = node.chain.db))
        (J := fun _ => True) n)
      (preserves_getTxFeeMedian (I := (· = node.chain.db)) (J := fun _ => True))
      (fun pos => preserves_getCachedNextDifficulty (I := (· = node.chain.db)) cacheFree_true pos)
      (fun _ _ holds => holds) event unsubmitted whole aged ⟨rfl, trivial⟩
    exact kept.1

/-- A step leads from a built database to a built one. -/
theorem NodeBuilt.step (rule : StoreRule E good known offered Q)
    (before : NodeBuilt E good known (Stored Q) node) (started : node.chain.db.blocks ≠ [])
    {event : Event} (incoming : GoodIncoming good event node)
    (submission : GoodSubmission E known offered event node) :
    NodeBuilt E good known (Stored Q) (Virie.step E event node) ∧
      (Virie.step E event node).chain.db.blocks ≠ [] := by
  have unchanged : ∀ node' : Node, NodeKeeps E good (Stored Q) node' →
      node'.chain.db = node.chain.db → NodeBuilt E good known (Stored Q) node' ∧
        node'.chain.db.blocks ≠ [] :=
    fun node' kept same => ⟨before.congr kept same, by rwa [same]⟩
  cases event with
  | submitBlock bl => exact before.addNewBlock rule started submission
  | incomingTx tx blobSize keptByBlock =>
    exact unchanged _ (keeps_handleIncomingTx incoming _ _ node before.keeps)
      (step_db (by simp) (by simp))
  | truncate toHeight => exact before.truncateBlockchain started toHeight
  | pruneAged =>
    exact unchanged _ (keeps_pruneAgedAltBlocks before.keeps) (pruneAgedAltBlocks_db node)
  | removeStuck =>
    exact unchanged _ (keeps_removeStuckTransactions node before.keeps)
      (step_db (by simp) (by simp))
  | purgePool =>
    exact unchanged _ ⟨.purged node.pool, before.keeps.txs, before.keeps.frame⟩ rfl
  | queryDifficulty pos =>
    exact unchanged _
      (keeps_onChain (preserves_getCachedNextDifficulty cacheFree_stored pos) node before.keeps)
      (step_db (by simp) (by simp))
  | queryTimestampsMedian n =>
    exact unchanged _
      (keeps_onChain (preserves_getLastNBlocksTimestampsMedian n) node before.keeps)
      (step_db (by simp) (by simp))
  | queryFeeMedian =>
    exact unchanged _ (keeps_onChain preserves_getTxFeeMedian node before.keeps)
      (step_db (by simp) (by simp))
  | tick coreTime =>
    exact unchanged _ ⟨before.keeps.pool, before.keeps.txs, before.keeps.frame⟩ rfl

/-- The first block of a chain cannot become an alternative one. -/
theorem handleAlternativeBlock_fresh {bl : Block} {id : Hash} {coreTime : Nat} {altChain : AltChain}
    {proof : Hash} :
    handleAlternativeBlock E bl id (Node.fresh coreTime) ≠ .ok (.added altChain proof) node' := by
  intro offer
  simp only [handleAlternativeBlock, bind_ok, get_ok] at offer
  obtain ⟨_, _, ⟨rfl, rfl⟩, offer⟩ := offer
  cases prepared : prepareAltBlock E (Node.fresh coreTime) bl id with
  | error reason => simp [prepared] at offer
  | ok place =>
    cases place with
    | none => simp [prepared] at offer
    | some place =>
      obtain ⟨position, accepted⟩ := place
      have placed := altPlaced_of_prepare prepared
      obtain ⟨parent, _, present, _⟩ := placed.alone placed.branch
      exact absurd present (by simp [Node.fresh])

theorem submitAlternative_fresh {bl : Block} {id : Hash} {coreTime : Nat} {submission : Submission}
    (run : submitAlternative E bl id (Node.fresh coreTime) = .ok submission node') :
    submission.bvc.addedToMainChain = false := by
  simp only [submitAlternative, bind_ok] at run
  obtain ⟨verdict, middle, offer, run⟩ := run
  cases verdict with
  | failed =>
    simp only [bind_ok, pure_ok] at run
    obtain ⟨_, _, _, rfl, _⟩ := run
    rfl
  | orphaned linked =>
    obtain ⟨rfl, _⟩ := pure_ok.mp run
    rfl
  | added altChain proof => exact absurd offer handleAlternativeBlock_fresh

theorem NodeBuilt.fresh (coreTime : Nat) :
    NodeBuilt E good known (Stored Q) (Node.fresh coreTime) := by
  refine ⟨⟨(NodeSound.fresh coreTime).pool, (NodeSound.fresh coreTime).txs,
    fun id entry found => ?_⟩, .empty (.refl _), fun bei member => by cases member⟩
  change (∅ : Container Hash AltBlockExtendedInfo).get id = some entry at found
  rw [Container.get_empty] at found
  cases found

/-- The node that connected its genesis block. -/
theorem NodeBuilt.start (initial : Node.Started E known node) :
    NodeBuilt E good known (Stored Q) node ∧ node.chain.db.blocks ≠ [] := by
  obtain ⟨genesis, coreTime, isKnown, alone, added, rfl⟩ := initial
  have fresh : NodeBuilt E good known (Stored Q) (Node.fresh coreTime) := .fresh coreTime
  unfold Virie.addNewBlock at added ⊢
  cases run : Virie.submitBlock E genesis (Node.fresh coreTime) with
  | error reason after => simp [run] at added
  | ok submission after =>
    rw [run] at added
    dsimp only at added ⊢
    rw [Virie.submitBlock, get_bind] at run
    by_cases present : (Node.fresh coreTime).chain.haveBlock (getBlockHash E genesis) = true
    · rw [if_pos present] at run
      obtain ⟨rfl, _⟩ := pure_ok.mp run
      cases added
    · rw [if_neg present] at run
      by_cases apart : genesis.prevId ≠ (Node.fresh coreTime).chain.db.getTopBlockId E
      · rw [if_pos apart] at run
        rw [submitAlternative_fresh run] at added
        cases added
      · rw [if_neg apart] at run
        obtain ⟨commits, aborts⟩ := fresh.submitToTip isKnown (fun _ => alone) run
        cases committed : submission.committed with
        | false =>
          rw [aborts committed] at added
          cases added
        | true =>
          rw [if_pos rfl]
          have adds := commits committed
          exact ⟨⟨⟨adds.built.keeps.pool, adds.built.keeps.txs, adds.built.keeps.frame⟩,
            adds.built.built, adds.built.known⟩, adds.tip.nonempty⟩

/-- Every state of a run whose submissions and transactions are as required has a built database
with a block on it, and sound stored alternative blocks. -/
theorem NodeBuilt.run (rule : StoreRule E good known offered Q)
    (reached : (nodeSystem E known).Reaches
      (fun event node => GoodIncoming good event node ∧ GoodSubmission E known offered event node)
      node) :
    NodeBuilt E good known (Stored Q) node ∧ node.chain.db.blocks ≠ [] :=
  reached.invariant (fun _ initial => NodeBuilt.start initial)
    fun _ _ _ meets holds => holds.1.step rule holds.2 meets.1 meets.2

/-! ## Runs without restrictions -/

/-- Without restrictions on a run, stored alternative blocks are above the genesis block. -/
theorem storeRule_height : StoreRule E (fun _ => True) anyBlock (fun _ _ => True)
    fun _ entry => 1 ≤ entry.height where
  aboveGenesis _ _ above := above
  isKnown _ _ _ := trivial
  stores node bl position accepted _ _ _ prepared := by
    rw [(altAccepted_of_prepare prepared).entryHeight]
    exact (altPlaced_of_prepare prepared).height_pos

theorem offersMeet_trivial (blocks : List Block) (node : Node) :
    OffersMeet E (fun _ _ => True) blocks node := by
  induction blocks generalizing node with
  | nil => trivial
  | cons bl rest ih => exact ⟨trivial, fun _ after _ _ => ih after⟩

theorem goodSubmission_trivial (event : Event) (node : Node) :
    GoodSubmission E anyBlock (fun _ _ => True) event node := by
  cases event with
  | submitBlock bl =>
    exact ⟨trivial, fun _ _ => ⟨trivial, fun _ _ _ _ _ _ _ _ _ _ _ => offersMeet_trivial _ _⟩⟩
  | _ => trivial

/-- Every reachable state has a built database with a block on it. -/
theorem NodeBuilt.reachable (reached : (nodeSystem E anyBlock).Reachable node) :
    NodeBuilt E (fun _ => True) anyBlock (Stored fun _ entry => 1 ≤ entry.height) node ∧
      node.chain.db.blocks ≠ [] :=
  reached.invariant (fun _ initial => NodeBuilt.start initial) fun event node holds =>
    holds.1.step storeRule_height holds.2 (by cases event <;> trivial)
      (goodSubmission_trivial event node)

end Running
end Virie
