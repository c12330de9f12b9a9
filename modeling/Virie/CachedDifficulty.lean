import Virie.Chainstate.Running

/-! # The cached difficulties

The storage remembers the two difficulties it last computed and drops them when a
database transaction is committed. In a run without aborted switches a remembered
difficulty is the one that the current main chain has. An aborted switch computes
difficulties for the branch it gives up and leaves them behind. -/

open Foundation

namespace Virie

/-- Every difficulty in the cache is unset or belongs to the next block of a chain. -/
def DifficultyCache.CoherentWith (cache : DifficultyCache) (db : Db) : Prop :=
  ∀ pos, cache.diff pos = 0 ∨
    cache.chainLength = db.blocks.length ∧ db.computeNextDiff pos = .ok (cache.diff pos)

/-- The cached query answers what a computation from the main chain answers. -/
def ServesDifficulty (chain : Chain) (pos : Bool) : Prop :=
  Procedure.answer (getCachedNextDifficulty pos chain) =
    Procedure.answer (getNextDiffConditional pos chain)

/-- A submission that starts a switch and does not complete it. -/
def AbortsSwitch (E : Env) (event : Event) (node : Node) : Prop :=
  match event with
  | .submitBlock bl => ∃ altChain offered, StartsSwitch E bl node altChain offered ∧
      ∀ success after, runSwitch E altChain offered ≠ .ok ⟨success, false⟩ after
  | _ => False

open Procedure

section CachedDifficulty

variable {E : Env} {good : TransactionPrefix → Prop} {known : Block → Prop} {J : Chain → Prop}
  {db : Db} {cache : DifficultyCache} {node node' : Node}

/-! ## The cache -/

theorem coherentWith_reset (cache : DifficultyCache) (db : Db) : cache.reset.CoherentWith db :=
  fun pos => .inl (DifficultyCache.diff_reset cache pos)

theorem DifficultyCache.CoherentWith.set (coherent : cache.CoherentWith db) {pos : Bool}
    {diff : Nat} (computed : db.computeNextDiff pos = .ok diff) :
    (cache.set diff pos db.blocks.length).CoherentWith db := by
  intro other
  by_cases same : other = pos
  · subst same
    refine .inr ⟨rfl, ?_⟩
    rw [computed]
    exact congrArg Except.ok (DifficultyCache.diff_setDiff_self cache other diff).symm
  · have kept : (cache.set diff pos db.blocks.length).diff other = cache.diff other :=
      DifficultyCache.diff_setDiff_of_ne cache diff same
    rw [kept]
    rcases coherent other with unset | ⟨_, right⟩
    · exact .inl unset
    · exact .inr ⟨rfl, right⟩

/-- A lookup leaves the cache coherent and answers zero or the right difficulty. -/
theorem DifficultyCache.CoherentWith.get (coherent : cache.CoherentWith db) (pos : Bool) :
    (cache.get pos db.blocks.length).2.CoherentWith db ∧
      ((cache.get pos db.blocks.length).1 = 0 ∨
        db.computeNextDiff pos = .ok (cache.get pos db.blocks.length).1) := by
  unfold DifficultyCache.get
  by_cases stale : db.blocks.length ≠ cache.chainLength
  · simp only [stale, ne_eq, not_false_eq_true, ↓reduceIte, DifficultyCache.diff_setDiff_self,
      true_or, and_true]
    intro other
    by_cases same : other = pos
    · exact .inl (by rw [same, DifficultyCache.diff_setDiff_self])
    · rw [DifficultyCache.diff_setDiff_of_ne cache 0 same]
      rcases coherent other with unset | ⟨length, _⟩
      · exact .inl unset
      · exact absurd length.symm stale
  · simp only [stale, ↓reduceIte]
    refine ⟨coherent, ?_⟩
    rcases coherent pos with unset | ⟨_, right⟩
    · exact .inl unset
    · exact .inr right

theorem answer_getNextDiffConditional (pos : Bool) (chain : Chain) :
    answer (getNextDiffConditional pos chain) = chain.db.computeNextDiff pos := by
  cases computed : chain.db.computeNextDiff pos with
  | ok diff =>
    rw [getNextDiffConditional_ok.mpr ⟨computed, rfl⟩]
    rfl
  | error reason =>
    have read : reading (fun chain : Chain => chain.db.computeNextDiff pos) chain =
        .error reason chain := by
      rw [reading, computed]
    rw [getNextDiffConditional, bind_of_error read]
    rfl

/-- A coherent cache serves the difficulties of the main chain. -/
theorem servesDifficulty_of_coherent {chain : Chain}
    (coherent : chain.diffCache.CoherentWith chain.db) (pos : Bool) :
    ServesDifficulty chain pos := by
  have found := (coherent.get pos).2
  rw [ServesDifficulty, answer_getNextDiffConditional, getCachedNextDifficulty,
    get_bind]
  dsimp only
  rw [set_bind]
  by_cases unset : (chain.diffCache.get pos chain.db.blocks.length).1 = 0
  · rw [if_neg (not_not.mpr unset), answer_getNextDiffConditional]
  · rw [if_pos unset, found.resolve_left unset]
    rfl

/-! ## Connecting a block -/

/-- Storages of a main chain whose cached difficulties are coherent. -/
def CacheReady (db : Db) (chain : Chain) : Prop :=
  chain.db = db ∧ chain.diffCache.CoherentWith db

theorem preserves_getNextDiffConditional_ready (pos : Bool) :
    Preserves (CacheReady db) (getNextDiffConditional pos) := by
  refine preserves_bind_of (preserves_reading _) fun chain diff middle ready read => ?_
  obtain ⟨computed, rfl⟩ := reading_ok.mp read
  change CacheReady db (if chain.db.blocks.isEmpty then chain
    else { chain with diffCache := chain.diffCache.set diff pos chain.db.blocks.length })
  split
  · exact ready
  · rw [ready.1] at computed
    refine ⟨ready.1, ?_⟩
    rw [ready.1]
    exact ready.2.set computed

theorem preserves_getCachedNextDifficulty_ready (pos : Bool) :
    Preserves (CacheReady db) (getCachedNextDifficulty pos) := by
  refine preserves_get_bind fun chain ready => preserves_bind (preserves_set ?_) fun _ =>
    preserves_ite (fun _ => preserves_pure _) fun _ => preserves_getNextDiffConditional_ready pos
  refine ⟨ready.1, ?_⟩
  rw [ready.1]
  exact (ready.2.get pos).1

theorem preserves_checkBlockHeader_ready (bl : Block) (id : Hash) :
    Preserves (CacheReady db) (checkBlockHeader E bl id) :=
  preserves_get_bind fun _ ready => preserves_bind (preserves_require _) fun _ =>
    preserves_bind (preserves_require _) fun _ => preserves_bind (preserves_set ready) fun _ =>
    preserves_bind (preserves_require _) fun _ => preserves_bind (preserves_require _) fun _ =>
    preserves_bind (preserves_getNextDiffConditional_ready _) fun _ =>
    preserves_bind (preserves_require _) fun _ => preserves_bind (preserves_reading _) fun _ =>
    preserves_bind (preserves_require _) fun _ => preserves_pure _

/-- Connecting a block leaves difficulties of the chain below it in the cache, whichever way it
ends. -/
theorem handleBlock_coherent (sound : NodeSound E good node)
    (coherent : node.chain.diffCache.CoherentWith node.chain.db) (bl : Block) (id : Hash) :
    NodeKeeps E good (fun frame => frame.diffCache.CoherentWith node.chain.db)
      (final (handleBlockToMainChain E bl id node)) :=
  keeps_handleBlock_of_header sound
    (preserves_checkBlockHeader_ready bl id node.chain ⟨rfl, coherent⟩).2

/-! ## Submitting a block -/

theorem submitToTip_coherent (sound : NodeSound E good node)
    (coherent : node.chain.diffCache.CoherentWith node.chain.db) (bl : Block) (id : Hash) :
    NodeKeeps E good (fun frame => frame.diffCache.CoherentWith node.chain.db)
      (final (submitToTip E bl id node)) := by
  refine final_bind ?_ fun _ => preserves_ite
    (fun _ => preserves_bind keeps_finalizeLinked_frame fun _ => preserves_pure _)
    (fun _ => preserves_bind (keeps_onPool (preserves_modify fun _ sound => sound)) fun _ =>
      preserves_bind (keeps_onChain (preserves_modify fun _ holds => holds)) fun _ =>
      preserves_pure _)
  rw [final_attempt]
  exact handleBlock_coherent sound coherent bl id

theorem handleAlternativeBlock_diffCache {bl : Block} {id : Hash} {verdict : AltVerdict}
    (run : handleAlternativeBlock E bl id node = .ok verdict node') :
    node'.chain.diffCache = node.chain.diffCache := by
  simp only [handleAlternativeBlock, bind_ok, get_ok] at run
  obtain ⟨_, _, ⟨rfl, rfl⟩, run⟩ := run
  cases prepared : prepareAltBlock E node bl id with
  | error reason =>
    simp only [prepared, pure_ok] at run
    rw [← run.2]
  | ok place =>
    cases place with
    | none =>
      simp only [prepared, pure_ok] at run
      rw [← run.2]
    | some place =>
      simp only [prepared, bind_ok, onChain_ok, modify_ok, pure_ok] at run
      obtain ⟨_, _, ⟨_, rfl, rfl⟩, _, rfl⟩ := run
      rfl

/-- A submission that does not abort a switch is committed, or it leaves the cache coherent with
the main chain it started from. -/
theorem submitBlock_coherent (sound : NodeSound E good node)
    (coherent : node.chain.diffCache.CoherentWith node.chain.db) {bl : Block}
    (completes : ¬ AbortsSwitch E (.submitBlock bl) node) :
    (∃ submission after, submitBlock E bl node = .ok submission after ∧
      submission.committed = true) ∨
    (final (submitBlock E bl node)).chain.diffCache.CoherentWith node.chain.db := by
  rw [submitBlock, get_bind]
  cases present : node.chain.haveBlock (getBlockHash E bl) with
  | true => exact .inr coherent
  | false =>
    rw [if_neg Bool.false_ne_true]
    by_cases apart : bl.prevId ≠ node.chain.db.getTopBlockId E
    · rw [if_pos apart]
      obtain ⟨verdict, offered, offer, sameDb, _⟩ :=
        handleAlternativeBlock_runs (E := E) bl (getBlockHash E bl) node
      have offeredCoherent : offered.chain.diffCache.CoherentWith node.chain.db := by
        rwa [handleAlternativeBlock_diffCache offer]
      rw [submitAlternative, bind_of_ok offer]
      cases verdict with
      | failed =>
        obtain ⟨linked, after, finalized, chain⟩ := finalizeLinked_runs (E := E) offered
        dsimp only
        rw [bind_of_ok finalized]
        refine .inr ?_
        change after.chain.diffCache.CoherentWith node.chain.db
        rwa [chain]
      | orphaned linked => exact .inr offeredCoherent
      | added altChain proof =>
        dsimp only
        rw [get_bind]
        cases tip : offered.chain.db.blocks.getLast? with
        | none => exact .inr offeredCoherent
        | some top =>
          rw [demand_bind]
          cases entry : offered.chain.alternativeChains.get (getBlockHash E bl) with
          | none => exact .inr offeredCoherent
          | some abei =>
            rw [demand_bind]
            by_cases required : isReorganizeRequired top abei.cumulativeDiffAdjusted proof
            · rw [if_pos required]
              have starts : StartsSwitch E bl node altChain offered :=
                ⟨present, apart, proof, top, abei, offer, tip, entry, required⟩
              obtain ⟨success, after, switch⟩ : ∃ success after,
                  runSwitch E altChain offered = .ok ⟨success, false⟩ after := by
                by_contra aborts
                exact completes ⟨altChain, offered, starts, fun success after switch =>
                  aborts ⟨success, after, switch⟩⟩
              obtain ⟨linked, ended, finalized, _⟩ := finalizeLinked_runs (E := E) after
              have run : reorganize E altChain offered = .ok ⟨true, linked && success,
                  ⟨success, !success, false, false, false⟩⟩ ended := by
                rw [reorganize, bind_of_ok switch, if_neg Bool.false_ne_true, bind_of_ok finalized]
                rfl
              exact .inl ⟨_, ended, run, rfl⟩
            · rw [if_neg required]
              exact .inr offeredCoherent
    · rw [if_neg apart]
      exact .inr (submitToTip_coherent sound coherent bl _).frame

/-! ## Runs -/

/-- The cached difficulties of a node are the ones of its main chain. -/
abbrev Node.CacheCoherent (node : Node) : Prop :=
  node.chain.diffCache.CoherentWith node.chain.db

theorem addNewBlock_coherent (sound : NodeSound E good node) (coherent : node.CacheCoherent)
    {bl : Block} (completes : ¬ AbortsSwitch E (.submitBlock bl) node) :
    (addNewBlock E bl node).2.CacheCoherent := by
  unfold addNewBlock
  rcases submitBlock_coherent sound coherent completes with
    ⟨submission, after, run, commits⟩ | kept
  · rw [run]
    dsimp only
    rw [if_pos commits]
    exact coherentWith_reset _ _
  · cases run : submitBlock E bl node with
    | ok submission after =>
      rw [run] at kept
      dsimp only
      split
      · exact coherentWith_reset _ _
      · exact kept
    | error reason after =>
      rw [run] at kept
      exact kept

theorem pruneAgedAltBlocks_diffCache (node : Node) :
    (pruneAgedAltBlocks E node).chain.diffCache = node.chain.diffCache ∧
      (pruneAgedAltBlocks E node).chain.db = node.chain.db := by
  unfold pruneAgedAltBlocks
  generalize node.chain.alternativeChains.toList = entries
  induction entries generalizing node with
  | nil => exact ⟨rfl, rfl⟩
  | cons head rest ih =>
    rw [List.foldl_cons]
    by_cases aged : node.chain.db.blocks.length - head.2.height > currencyAltBlockLivetimeCount
    · simp only [aged, ↓reduceIte]
      exact ih (doEraseAltblock E head.1 head.2.bl node)
    · simp only [aged, ↓reduceIte]
      exact ih node

/-- A step that does not abort a switch keeps the cache coherent. -/
theorem step_coherent (built : NodeBuilt E (fun _ => True) known J node)
    (started : node.chain.db.blocks ≠ []) (coherent : node.CacheCoherent) {event : Event}
    (completes : ¬ AbortsSwitch E event node) : (step E event node).CacheCoherent := by
  have unchanged : ∀ node' : Node, node'.chain.diffCache.CoherentWith node.chain.db →
      node'.chain.db = node.chain.db → node'.CacheCoherent := by
    intro node' kept same
    rwa [Node.CacheCoherent, same]
  have keeps : NodeKeeps E (fun _ => True)
      (fun frame => frame.diffCache.CoherentWith node.chain.db) node :=
    ⟨built.keeps.pool, built.keeps.txs, coherent⟩
  cases event with
  | submitBlock bl => exact addNewBlock_coherent built.keeps.sound coherent completes
  | incomingTx tx blobSize keptByBlock =>
    exact unchanged _ (keeps_handleIncomingTx trivial blobSize keptByBlock node keeps).frame
      (step_db (by simp) (by simp))
  | truncate toHeight =>
    obtain ⟨success, after, run, _⟩ :=
      popBlocks_runs (node.chain.db.blocks.length - toHeight) built started
    rw [step, truncateBlockchain, run]
    exact coherentWith_reset _ _
  | pruneAged =>
    obtain ⟨sameCache, sameDb⟩ := pruneAgedAltBlocks_diffCache (E := E) node
    refine unchanged _ ?_ sameDb
    rwa [step, sameCache]
  | removeStuck =>
    exact unchanged _ (keeps_removeStuckTransactions node keeps).frame
      (step_db (by simp) (by simp))
  | purgePool => exact coherent
  | queryDifficulty pos =>
    have keepsReady : Preserves (fun other : Node => CacheReady node.chain.db other.chain)
        (onChain (getCachedNextDifficulty pos)) :=
      preserves_within fun other ready => preserves_getCachedNextDifficulty_ready pos other.chain ready
    have ready := keepsReady node ⟨rfl, coherent⟩
    exact unchanged _ ready.2 ready.1
  | queryTimestampsMedian n =>
    exact unchanged _
      (keeps_onChain (preserves_getLastNBlocksTimestampsMedian n) node keeps).frame
      (step_db (by simp) (by simp))
  | queryFeeMedian =>
    exact unchanged _ (keeps_onChain preserves_getTxFeeMedian node keeps).frame
      (step_db (by simp) (by simp))
  | tick coreTime => exact coherent

end CachedDifficulty

/-! ## A difficulty that an aborted switch leaves behind -/

namespace StaleDifficulty

/-- The block at height three is a checkpoint: once it is part of the main chain, the blocks that
were disconnected for it cannot be stored. -/
def env : Env := { Env.plain with points := (∅ : Container Nat Hash).set 3 ⟨6⟩ }

def genesis : Block := .plain 1 0 premineAmount nullHash []
def main1 : Block := .plain 2 1 coin ⟨1⟩ []
def main2 : Block := .plain 3 2 coin ⟨2⟩ []
def alt1 : Block := .plain 4 1 coin ⟨1⟩ []
def alt2 : Block := { Block.plain 5 2 coin ⟨4⟩ [] with timestamp := 60 }
def alt3 : Block := .plain 6 3 coin ⟨5⟩ []

/-- The main chain of three blocks after a switch to three other ones was aborted. -/
def restored : Node :=
  (nodeSystem env anyBlock).after (addNewBlock env genesis (Node.fresh 100)).2
    [.submitBlock main1, .submitBlock main2, .submitBlock alt1, .submitBlock alt2,
      .submitBlock alt3]

end StaleDifficulty
end Virie
