import Virie.Chainstate.Admission
import Virie.Chainstate.Transactions

/-! # Connecting and disconnecting one block

A block that the main chain accepts connects its coinbase and its transactions in turn
and records what the storage computed from the blocks below it. Disconnecting it again
succeeds and restores the containers, except that spent flags of key outputs may have
been cleared. -/

open Foundation

namespace Virie

/-- Transactions with their ids are connected in turn. -/
inductive ConnectsTxs (E : Env) (height : Nat) : List (Hash × Transaction) → Db → Db → Prop
  | nil {db : Db} : ConnectsTxs E height [] db db
  | cons {txId : Hash} {tx : Transaction} {rest : List (Hash × Transaction)}
      {before middle after : Db} (first : ConnectsTx E height tx txId before middle)
      (others : ConnectsTxs E height rest middle after) :
      ConnectsTxs E height ((txId, tx) :: rest) before after

/-- The transactions of a block with their ids, the coinbase first. -/
def blockTxs (E : Env) (bl : Block) (txs : List (Hash × Transaction)) :
    List (Hash × Transaction) :=
  (getTransactionHash E bl.minerTx.toTransactionPrefix, bl.minerTx) :: txs

/-- The outputs to keys of each amount among transactions. -/
def countOutputs (txs : List (Hash × Transaction)) : Container Nat Nat :=
  txs.foldl (fun counts entry => appendPerBlockIncrementsForTx entry.2.toTransactionPrefix counts) ∅

/-- A block pays out its reward, its stake and the given fees, and adds the reward to the coins
that the blocks below it generated. -/
def PaysOut (before : Db) (bei : BlockExtendedInfo) (fees : List Nat) : Prop :=
  ∃ baseReward, validateMinerTransaction before bei.bl bei.blockCumulativeSize
      (fees.foldl addU64 0) = some baseReward ∧
    bei.alreadyGeneratedCoins = addU64
      ((before.blocks.getLast?.map BlockExtendedInfo.alreadyGeneratedCoins).getD 0) baseReward

/-- A block with the given transactions is connected, with the entry that the list of blocks gets. -/
structure Connects (E : Env) (before : Db) (bei : BlockExtendedInfo)
    (txs : List (Hash × Transaction)) (after : Db) : Prop where
  prevId : bei.bl.prevId = before.getTopBlockId E
  fresh : before.blocksIndex.has (getBlockHash E bei.bl) = false
  height : bei.height = before.blocks.length
  coinbase : prevalidateMinerTransaction bei.bl bei.height (isPosBlock bei.bl) = true
  checkpoint : (!isInCheckpointZone E bei.height || checkBlock E bei.height (getBlockHash E bei.bl)) =
    true
  recalculated : bei.height % aliasMedianRecalcInterwal = 0 → bei.effectiveTxFeeMedian =
    if bei.height = 0 then 0 else recalculatedFeeMedian before bei.height
  difficulty : before.computeNextDiff (isPosBlock bei.bl) = .ok bei.difficulty
  cumulative : cumulativeDifficulties E before (isPosBlock bei.bl) bei.difficulty =
    .ok (bei.cumulativeDiffPrecise, bei.cumulativeDiffAdjusted)
  txIds : txs.map Prod.fst = bei.bl.txHashes
  paid : ∃ fees, List.Forall₂ (fun entry fee =>
    validateTxAmounts entry.2.toTransactionPrefix = some fee) txs fees ∧ PaysOut before bei fees ∧
      bei.thisBlockTxFeeMedian = median (fees.filter (· ≠ 0))
  size : bei.blockCumulativeSize = coinbaseSizeContribution E bei.bl +
    (txs.map fun entry => getObjectBlobsize E entry.2.toTransactionPrefix).sum
  contents : ∃ connected, ConnectsTxs E bei.height (blockTxs E bei.bl txs) before connected ∧
    after = { pushBlock bei (getBlockHash E bei.bl) (countOutputs (blockTxs E bei.bl txs))
        connected with
      currentBlockCumulSzLimit := after.currentBlockCumulSzLimit }

open Procedure

section Blocks

variable {E : Env} {height : Nat} {txs : List (Hash × Transaction)} {before after : Db}

theorem ConnectsTxs.sameBlocks (connects : ConnectsTxs E height txs before after) :
    SameBlocks after before := by
  induction connects with
  | nil => exact .refl _
  | cons first others ih => exact ih.trans first.sameBlocks

/-! ## What a successful run connects -/

/-- A procedure that keeps every property of the database and the frame keeps both. -/
theorem unchanged_of_preserves {α : Type} {body : ChainM α}
    (keeps : ∀ (I : Db → Prop) (J : Chain → Prop),
      Preserves (fun chain : Chain => I chain.db ∧ J chain.frame) body)
    {chain chain' : Chain} {result : α} (run : body chain = .ok result chain') :
    chain'.db = chain.db ∧ chain'.frame = chain.frame :=
  (keeps (· = chain.db) (· = chain.frame)).of_ok run ⟨rfl, rfl⟩

theorem connectsTx_of_run {tx : Transaction} {txId blId : Hash} {timestamp : Nat}
    {chain chain' : Chain} (resolved : ∀ input ∈ tx.vin, chain.db.Resolves input)
    (run : addTransactionFromBlock E tx txId blId height timestamp chain = .ok () chain') :
    ConnectsTx E height tx txId chain.db chain'.db := by
  simp only [addTransactionFromBlock, bind_ok, require_ok, modify_ok] at run
  obtain ⟨expired, first, unexpired, _, _, ⟨_, rfl⟩, _, second, aliased, _, _, rfl, spent, third,
    inputs, run⟩ := run
  have firstDb := (unchanged_of_preserves (fun _ _ => preserves_isTxExpired _) unexpired).1
  cases spent with
  | false =>
    simp only [Bool.not_false, ↓reduceIte, bind_ok, throw_ok, and_false, exists_false] at run
  | true =>
    simp only [attempt_true, onDb_ok] at inputs
    obtain ⟨_, spentDb, inputs, rfl⟩ := inputs
    simp only [Bool.not_true, Bool.false_eq_true, ↓reduceIte, bind_ok, get_ok] at run
    obtain ⟨_, _, ⟨rfl, rfl⟩, run⟩ := run
    split at run
    · simp only [bind_ok, throw_ok, and_false, exists_false] at run
    · next fresh =>
      rw [onDb_ok] at run
      obtain ⟨stored, run, rfl⟩ := run
      refine ⟨resolved, second.db, spentDb, ?_, inputs,
        Container.get_eq_none_of_not_has _ _ fresh, run⟩
      simp only [processBlockchainTxExtra, bind_ok, demand_ok] at aliased
      obtain ⟨info, _, ⟨parsed, rfl⟩, aliased⟩ := aliased
      refine ⟨info, parsed, ?_⟩
      cases named : info.namedAlias with
      | none =>
        simp only [named, pure_ok] at aliased
        rw [← aliased.2]
        exact firstDb
      | some entry =>
        simp only [named, bind_ok, onDb_ok] at aliased
        obtain ⟨_, third, prevalidated, put, aliased, rfl⟩ := aliased
        have thirdDb := (unchanged_of_preserves (fun _ _ => preserves_prevalidateAliasInfo _ _)
          prevalidated).1
        rwa [thirdDb, firstDb] at aliased

/-! ## The stages of connecting a block -/

theorem rejectBlock_ok {α : Type} {bl : Block} {count : Nat} {node node' : Node} {result : α} :
    ¬ rejectBlock E bl count node = .ok result node' := by
  simp only [rejectBlock, bind_ok, throw_ok, and_false, exists_false, not_false_eq_true]

theorem connectTransaction_ok {bl : Block} {id txId : Hash} {totals next : BlockTotals}
    {node node' : Node}
    (run : connectTransaction E bl id height totals txId node = .ok next node') :
    ∃ txe, node.pool.transactions.get txId = some txe ∧ next = totals.addTransaction txe ∧
      ConnectsTx E node.chain.db.blocks.length (pruneInZone node.chain txe.tx) txId node.chain.db
        node'.chain.db ∧ node'.chain.isInCheckpointZone = node.chain.isInCheckpointZone := by
  simp only [connectTransaction, bind_ok, get_ok] at run
  obtain ⟨_, _, ⟨rfl, rfl⟩, run⟩ := run
  split at run
  · exact absurd run rejectBlock_ok
  · simp only [bind_ok, get_ok, onPool_ok] at run
    obtain ⟨txe, _, ⟨pool, taken, rfl⟩, _, _, ⟨rfl, rfl⟩, run⟩ := run
    dsimp only at run
    cases valid : txInputsValid E node.chain (pruneInZone node.chain txe.tx) txId with
    | error reason =>
      rw [valid] at run
      cases reason with
      | thrown => exact absurd run (by simp)
      | refused => simp only [bind_ok, throw_ok, and_false, exists_false] at run
    | ok value =>
      simp only [valid, bind_ok] at run
      obtain ⟨added, middle, adding, run⟩ := run
      cases added with
      | false =>
        simp only [Bool.not_false, ↓reduceIte, bind_ok, rejectBlock_ok, and_false,
          exists_false] at run
      | true =>
        simp only [attempt_true, onChain_ok] at adding
        obtain ⟨_, chain, adding, rfl⟩ := adding
        simp only [Bool.not_true, Bool.false_eq_true, ↓reduceIte, pure_ok] at run
        obtain ⟨rfl, rfl⟩ := run
        have frame := (preserves_addTransactionFromBlock (P := fun _ _ => True)
          (J := fun frame => frame.isInCheckpointZone = node.chain.isInCheckpointZone) id _ _
          trivial).of_ok adding ⟨fun _ _ _ => trivial, rfl⟩
        exact ⟨txe, takeTx_details taken, rfl,
          connectsTx_of_run (resolves_of_txInputsValid valid) adding, frame.2⟩

theorem connectTransactions_ok {good : TransactionPrefix → Prop} {bl : Block} {id : Hash}
    {totals final : BlockTotals} {txIds : List Hash} {node node' : Node}
    (sound : NodeSound E good node)
    (run : connectTransactions E bl id height totals txIds node = .ok final node') :
    ∃ txs fees, txs.map Prod.fst = txIds ∧
      ConnectsTxs E node.chain.db.blocks.length txs node.chain.db node'.chain.db ∧
      final.gindices = txs.foldl (fun counts entry =>
        appendPerBlockIncrementsForTx entry.2.toTransactionPrefix counts) totals.gindices ∧
      List.Forall₂ (fun entry fee => validateTxAmounts entry.2.toTransactionPrefix = some fee)
        txs fees ∧
      final.feeSummary = fees.foldl addU64 totals.feeSummary ∧
      final.cumulativeBlockSize = totals.cumulativeBlockSize +
        (txs.map fun entry => getObjectBlobsize E entry.2.toTransactionPrefix).sum ∧
      final.blockFees = totals.blockFees ++ fees.filter (· ≠ 0) := by
  induction txIds generalizing totals node with
  | nil =>
    obtain ⟨rfl, rfl⟩ := pure_ok.mp run
    exact ⟨[], [], rfl, .nil, rfl, .nil, rfl, rfl, (List.append_nil _).symm⟩
  | cons txId rest ih =>
    obtain ⟨next, middle, first, run⟩ := bind_ok.mp run
    have soundMiddle := (keeps_connectTransaction bl id height totals txId).of_ok first sound
    obtain ⟨txe, found, rfl, connects, _⟩ := connectTransaction_ok first
    obtain ⟨_, _, fee, size⟩ := sound.pool txId txe found
    obtain ⟨txs, fees, ids, others, indexes, paid, summary, sizes, listed⟩ := ih soundMiddle run
    rw [connects.sameBlocks.blocks] at others
    refine ⟨(txId, pruneInZone node.chain txe.tx) :: txs, txe.fee :: fees,
      by rw [List.map_cons, ids], .cons connects others, ?_, .cons ?_ paid, summary, ?_, ?_⟩
    · rw [indexes, List.foldl_cons, pruneInZone_tx]
      rfl
    · rwa [pruneInZone_tx]
    · rw [sizes, List.map_cons, List.sum_cons, pruneInZone_tx, ← size, ← Nat.add_assoc]
      rfl
    · rw [listed, BlockTotals.addTransaction]
      by_cases free : txe.fee = 0
      · simp [free]
      · simp [free]

theorem getNextDiffConditional_ok {pos : Bool} {chain chain' : Chain} {diff : Nat} :
    getNextDiffConditional pos chain = .ok diff chain' ↔
      chain.db.computeNextDiff pos = .ok diff ∧
      chain' = { chain with
        diffCache := if chain.db.blocks.isEmpty then chain.diffCache
          else chain.diffCache.set diff pos chain.db.blocks.length } := by
  have cached : ∀ cache, (if chain.db.blocks.isEmpty then chain
      else { chain with diffCache := cache }) =
      { chain with diffCache := if chain.db.blocks.isEmpty then chain.diffCache else cache } := by
    intro cache
    split <;> rfl
  simp only [getNextDiffConditional, bind_ok, reading_ok, modify_ok, pure_ok]
  constructor
  · rintro ⟨_, _, ⟨computed, rfl⟩, _, _, rfl, rfl, rfl⟩
    exact ⟨computed, cached _⟩
  · rintro ⟨computed, rfl⟩
    exact ⟨diff, chain, ⟨computed, rfl⟩, ⟨⟩, _, rfl, rfl, cached _⟩

/-- The stake input that a proof-of-stake block was checked with resolves. -/
theorem resolves_of_validatePosBlock {chain : Chain} {bl : Block} {diff : Nat} {id proof : Hash}
    (run : validatePosBlock E chain bl diff id false [] 0 = .ok proof) :
    ∃ input, coinstakeInput bl = some input ∧ chain.db.Resolves (.toKey input) := by
  simp only [validatePosBlock, Outcome.bind_ok, Outcome.demand_ok, Bool.false_eq_true,
    ↓reduceIte] at run
  obtain ⟨_, _, _, _, input, staked, _, _, _, _, _, _, _, _, _, _, _, _, _, _, run⟩ := run
  refine ⟨input, staked, ?_⟩
  split at run
  · next checked =>
    simp only [checkTxInputToKey, bind_ok] at checked
    obtain ⟨keys, _, scanned, _⟩ := checked
    exact resolves_of_scan scanned
  · simp only [Outcome.bind_ok, Outcome.throw_ok, false_and, exists_false] at run

/-- A proof-of-work coinbase spends nothing. -/
theorem isGen_of_isPowCoinbase {tx : TransactionPrefix} (form : tx.isPowCoinbase = true)
    {input : Txin} (member : input ∈ tx.vin) : input.isGen = true := by
  simp only [TransactionPrefix.isPowCoinbase, TransactionPrefix.isCoinbase, Bool.and_eq_true,
    beq_iff_eq] at form
  obtain ⟨first, single⟩ := form
  split at first
  · next number rest vin =>
    have empty : rest = [] := List.length_eq_zero_iff.mp (by simpa [vin] using single)
    rw [vin, empty, List.mem_singleton] at member
    rw [member]
    rfl
  · exact absurd first (by simp)

/-- A proof-of-stake coinbase spends its stake input only. -/
theorem stake_of_isPosCoinbase {bl : Block} (form : bl.minerTx.isPosCoinbase = true)
    {stake : TxinToKey} (staked : coinstakeInput bl = some stake) {input : Txin}
    (member : input ∈ bl.minerTx.vin) : input.isGen = true ∨ input = .toKey stake := by
  simp only [Transaction.isPosCoinbase, TransactionPrefix.isCoinbase, Bool.and_eq_true] at form
  unfold coinstakeInput at staked
  split at staked
  · next first second vin =>
    cases staked
    rw [vin] at member form
    rcases List.mem_cons.mp member with rfl | second
    · left
      cases input with
      | gen number => rfl
      | toKey other => simp at form
      | multisig other => simp at form
    · exact .inr (List.mem_singleton.mp second)
  · cases staked

/-- What the checks before the transactions of a block establish. -/
theorem checkBlockHeader_ok {bl : Block} {id proof : Hash} {diff : Nat} {chain chain' : Chain}
    (run : checkBlockHeader E bl id chain = .ok (diff, proof) chain') :
    bl.prevId = chain.db.getTopBlockId E ∧ chain'.db = chain.db ∧
      chain.db.computeNextDiff (isPosBlock bl) = .ok diff ∧
      prevalidateMinerTransaction bl chain.db.blocks.length (isPosBlock bl) = true ∧
      (!isInCheckpointZone E chain.db.blocks.length ||
        checkBlock E chain.db.blocks.length id) = true ∧
      ∀ input ∈ bl.minerTx.vin, chain.db.Resolves input := by
  simp only [checkBlockHeader, bind_ok, get_ok, require_ok, set_ok, reading_ok,
    getNextDiffConditional_ok, pure_ok, Prod.mk.injEq, beq_iff_eq] at run
  obtain ⟨_, _, ⟨rfl, rfl⟩, _, _, ⟨linked, rfl⟩, _, _, ⟨_, rfl⟩, _, _, rfl, _, _, ⟨point, rfl⟩, _, _,
    ⟨_, rfl⟩, _, _, ⟨computed, rfl⟩, _, _, ⟨_, rfl⟩, _, _, ⟨proved, rfl⟩, _, _, ⟨valid, rfl⟩,
    ⟨rfl, rfl⟩, rfl⟩ := run
  refine ⟨linked, rfl, computed, valid, point, fun input member => ?_⟩
  simp only [prevalidateMinerTransaction, Bool.and_eq_true] at valid
  have form := valid.1.1.1.1
  cases pos : isPosBlock bl with
  | false =>
    rw [pos] at form
    have gen := isGen_of_isPowCoinbase form member
    cases input with
    | gen number => trivial
    | toKey input => cases gen
    | multisig input => cases gen
  | true =>
    rw [pos] at form
    rw [blockProof, pos, if_pos rfl] at proved
    obtain ⟨stake, staked, resolves⟩ := resolves_of_validatePosBlock proved
    rcases stake_of_isPosCoinbase form staked member with gen | rfl
    · cases input with
      | gen number => trivial
      | toKey input => cases gen
      | multisig input => cases gen
    · exact resolves

/-- The fee median of the first block of a day does not depend on the remembered one. -/
theorem effectiveFeeMedian_of_multiple {medianFee : Nat} {chain chain' : Chain}
    (multiple : height % aliasMedianRecalcInterwal = 0)
    (run : effectiveFeeMedian height chain = .ok medianFee chain') :
    medianFee = if height = 0 then 0 else recalculatedFeeMedian chain.db height := by
  unfold effectiveFeeMedian at run
  rw [if_neg (not_not.mpr multiple)] at run
  simp only [bind_ok, get_ok, pure_ok] at run
  obtain ⟨_, _, ⟨rfl, rfl⟩, rfl, _⟩ := run
  rfl

/-- What the checks after the transactions of a block record. -/
theorem finishBlock_ok {bl : Block} {id proof : Hash} {aliasesCount diff : Nat}
    {totals : BlockTotals} {node node' : Node}
    (run : finishBlock E bl id aliasesCount diff proof totals node = .ok () node') :
    ∃ bei : BlockExtendedInfo,
      node'.chain.db = { pushBlock bei id totals.gindices node.chain.db with
        currentBlockCumulSzLimit := node'.chain.db.currentBlockCumulSzLimit } ∧
      bei.bl = bl ∧ bei.height = node.chain.db.blocks.length ∧ bei.difficulty = diff ∧
      cumulativeDifficulties E node.chain.db (isPosBlock bl) diff =
        .ok (bei.cumulativeDiffPrecise, bei.cumulativeDiffAdjusted) ∧
      (bei.height % aliasMedianRecalcInterwal = 0 → bei.effectiveTxFeeMedian =
        if bei.height = 0 then 0 else recalculatedFeeMedian node.chain.db bei.height) ∧
      node.chain.db.blocksIndex.has id = false ∧
      bei.blockCumulativeSize = totals.cumulativeBlockSize ∧
      bei.thisBlockTxFeeMedian = median totals.blockFees ∧
      ∃ baseReward, validateMinerTransaction node.chain.db bl bei.blockCumulativeSize
          totals.feeSummary = some baseReward ∧
        bei.alreadyGeneratedCoins = addU64 ((node.chain.db.blocks.getLast?.map
          BlockExtendedInfo.alreadyGeneratedCoins).getD 0) baseReward := by
  simp only [finishBlock, bind_ok, get_ok] at run
  obtain ⟨_, _, ⟨rfl, rfl⟩, run⟩ := run
  split at run
  · exact absurd run rejectBlock_ok
  · cases reward : validateMinerTransaction node.chain.db bl totals.cumulativeBlockSize
        totals.feeSummary with
    | none =>
      simp only [reward, rejectBlock_ok] at run
    | some baseReward =>
      simp only [reward, bind_ok, reading_ok] at run
      obtain ⟨⟨precise, adjusted⟩, _, ⟨cumulative, rfl⟩, run⟩ := run
      split at run
      · exact absurd run rejectBlock_ok
      · next fresh =>
        simp only [bind_ok, onChain_ok, onDb_ok, modify_ok] at run
        obtain ⟨median, _, ⟨chain, computed, rfl⟩, _, _, ⟨_, ⟨db, pushed, rfl⟩, rfl⟩, _, rfl,
          rfl⟩ := run
        have sameDb := (unchanged_of_preserves (fun _ _ => preserves_effectiveFeeMedian _)
          computed).1
        refine ⟨blockInfo node.chain.db bl totals diff precise adjusted proof baseReward median, ?_,
          rfl, rfl, rfl, cumulative, fun multiple => ?_, by simpa using fresh, rfl, rfl, baseReward,
          reward, rfl⟩
        · dsimp only at pushed
          rw [sameDb] at pushed
          rw [← pushed]
          simp only [onBlockAdded, Db.updateNextComulativeSizeLimit]
        · exact effectiveFeeMedian_of_multiple multiple computed

/-- The last thing that connecting a block does is to compute what depends on the new chain. -/
theorem finishBlock_added {bl : Block} {id proof : Hash} {aliasesCount diff : Nat}
    {totals : BlockTotals} {node node' : Node}
    (run : finishBlock E bl id aliasesCount diff proof totals node = .ok () node') :
    ∃ chain, node'.chain = onBlockAdded chain := by
  simp only [finishBlock, bind_ok, get_ok] at run
  obtain ⟨_, _, ⟨rfl, rfl⟩, run⟩ := run
  split at run
  · exact absurd run rejectBlock_ok
  · cases reward : validateMinerTransaction node.chain.db bl totals.cumulativeBlockSize
        totals.feeSummary with
    | none => simp only [reward, rejectBlock_ok] at run
    | some baseReward =>
      simp only [reward, bind_ok] at run
      obtain ⟨_, _, _, run⟩ := run
      split at run
      · exact absurd run rejectBlock_ok
      · simp only [bind_ok, onChain_ok, modify_ok] at run
        obtain ⟨_, _, _, _, _, _, _, rfl, rfl⟩ := run
        exact ⟨_, rfl⟩

theorem handleBlock_added {bl : Block} {id : Hash} {node node' : Node}
    (run : handleBlockToMainChain E bl id node = .ok () node') :
    ∃ chain, node'.chain = onBlockAdded chain := by
  simp only [handleBlockToMainChain, connectCheckedBlock, bind_ok] at run
  obtain ⟨_, _, _, _, _, _, _, _, _, _, _, _, finish⟩ := run
  exact finishBlock_added finish

/-- The difficulties of a new block depend on the blocks only. -/
theorem cumulativeDifficulties_congr {db other : Db} (same : db.blocks = other.blocks)
    (pos : Bool) (diff : Nat) :
    cumulativeDifficulties E db pos diff = cumulativeDifficulties E other pos diff := by
  have onlyBlocks : ∀ db : Db, cumulativeDifficulties E db pos diff =
      cumulativeDifficulties E { blocks := db.blocks } pos diff := fun _ => rfl
  rw [onlyBlocks db, onlyBlocks other, same]

/-- The reward of a block depends on the blocks below it only. -/
theorem validateMinerTransaction_congr {db other : Db} (same : db.blocks = other.blocks)
    (bl : Block) (size fee : Nat) :
    validateMinerTransaction db bl size fee = validateMinerTransaction other bl size fee := by
  have onlyBlocks : ∀ db : Db, validateMinerTransaction db bl size fee =
      validateMinerTransaction { blocks := db.blocks } bl size fee := fun _ => rfl
  rw [onlyBlocks db, onlyBlocks other, same]

/-- A block that the main chain accepts is connected to it. -/
theorem connects_of_handleBlockToMainChain {good : TransactionPrefix → Prop} {bl : Block}
    {node node' : Node} (sound : NodeSound E good node)
    (run : handleBlockToMainChain E bl (getBlockHash E bl) node = .ok () node') :
    ∃ bei txs, bei.bl = bl ∧ Connects E node.chain.db bei txs node'.chain.db := by
  simp only [handleBlockToMainChain, connectCheckedBlock, bind_ok, get_ok, onChain_ok] at run
  obtain ⟨⟨diff, proof⟩, _, ⟨headed, checked, rfl⟩, _, _, ⟨rfl, rfl⟩, _, _,
    ⟨mined, mining, rfl⟩, totals, filled, connected, finish⟩ := run
  obtain ⟨linked, sameDb, computed, valid, point, resolves⟩ := checkBlockHeader_ok checked
  dsimp only [Db.getCurrentBlockchainSize] at mining connected finish
  rw [sameDb] at mining
  have miner := connectsTx_of_run (by rwa [sameDb]) mining
  rw [sameDb] at miner
  have soundHeaded : NodeSound E good { node with chain := headed } :=
    (keeps_onChain (preserves_checkBlockHeader cacheFree_true _ _)).of_ok (within_of_ok checked)
      sound
  have runs : onChain _ { node with chain := headed } = .ok () { node with chain := mined } :=
    onChain_ok.mpr ⟨mined, mining, rfl⟩
  have soundMined : NodeSound E good { node with chain := mined } :=
    (keeps_onChain (preserves_addTransactionFromBlock _ _ _
      ⟨rfl, .inl (coinbase_of_checkBlockHeader checked)⟩)).of_ok runs soundHeaded
  obtain ⟨txs, fees, ids, others, indexes, paid, summary, sizes, listed⟩ :=
    connectTransactions_ok soundMined connected
  rw [miner.sameBlocks.blocks] at others
  have frame := (ConnectsTxs.cons miner others).sameBlocks
  obtain ⟨bei, stored, rfl, height, rfl, cumulative, median, fresh, size, feeMedian, baseReward,
    reward, coins⟩ := finishBlock_ok finish
  rw [frame.blocks] at height coins
  rw [validateMinerTransaction_congr frame.blocks, summary] at reward
  refine ⟨bei, txs, rfl, linked, ?_, height, ?_, ?_, fun multiple => ?_, computed, ?_, ids,
    ⟨fees, paid, ⟨baseReward, reward, coins⟩, by rw [feeMedian, listed, List.nil_append]⟩,
    size.trans sizes, filled.chain.db, ?_, ?_⟩
  · rwa [← frame.blocksIndex]
  · rwa [height]
  · rwa [height]
  · rw [median multiple, recalculatedFeeMedian, recalculatedFeeMedian, frame.blocks]
  · rw [← cumulative, cumulativeDifficulties_congr frame.blocks]
  · rw [height]
    exact .cons miner others
  · rw [stored, indexes]
    rfl

/-! ## Returning transactions to the pool -/

section Returning

variable {good : TransactionPrefix → Prop} (tx : Transaction) (node : Node)

theorem processCancelOfferRules_runs (toValidate : Bool) :
    ∃ cancels node', processCancelOfferRules E tx toValidate node = .ok cancels node' ∧
      node'.chain = node.chain := by
  unfold processCancelOfferRules
  cases collected : collectCancelOffers E node tx toValidate [] (serviceAttachments tx).zipIdx with
  | none => exact ⟨false, node, by simp [bind_ok, collected], rfl⟩
  | some offers =>
    cases offers with
    | nil => exact ⟨false, node, by simp [bind_ok, collected], rfl⟩
    | cons offer offers =>
      refine ⟨true, { node with pool := { node.pool with
        cancelOfferHash := (offer :: offers).foldl KeySet.insert node.pool.cancelOfferHash } }, ?_, rfl⟩
      simp only [bind_ok, get_ok]
      refine ⟨node, node, ⟨rfl, rfl⟩, ?_⟩
      simp only [collected, bind_ok, modify_ok, pure_ok]
      exact ⟨⟨⟩, _, rfl, trivial, rfl⟩

theorem doInsertTransaction_runs (id : Hash) (blobSize : Nat) (keptByBlock : Bool) (fee : Nat)
    (blockId : Hash) (blockHeight : Nat) :
    ∃ node', doInsertTransaction tx id blobSize keptByBlock fee blockId blockHeight node =
      .ok () node' ∧ node'.chain = node.chain := by
  have noThrow : NoThrow (onTxAdd tx.toTransactionPrefix keptByBlock) := by
    refine avoids_bind (avoids_modify _) fun _ => avoids_bind (noThrow_demand _) fun info => ?_
    split
    · exact avoids_modify _
    · exact avoids_pure ()
  obtain ⟨added, pool', ran⟩ := attempt_runs noThrow { node.pool with
    transactions := node.pool.transactions.set id
      { blobSize, fee, tx, keptByBlock, maxUsedBlockHeight := blockHeight, maxUsedBlockId := blockId
        lastFailedHeight := 0
        lastFailedId := nullHash
        receiveTime := node.chain.coreTime } }
  refine ⟨{ node with pool := pool' }, ?_, rfl⟩
  simp only [doInsertTransaction, bind_ok, get_ok, onPool_ok, modify_ok, pure_ok]
  exact ⟨node, node, ⟨rfl, rfl⟩, pool', ⟨⟨⟩, _, rfl, added, pool', ran, trivial, rfl⟩, rfl⟩

/-- The pool takes a transaction back whatever the check of its inputs says. -/
theorem insertCheckedTx_runs (id : Hash) (blobSize fee : Nat)
    (offsets : ∀ input ∈ tx.vin, input.OffsetsRead) :
    ∃ tvc node', insertCheckedTx E tx id blobSize fee true true node = .ok tvc node' ∧
      node'.chain = node.chain := by
  simp only [insertCheckedTx, bind_ok, get_ok]
  cases checked : checkTxInputsWithBlock E node.chain tx id 0 with
  | ok blockId blockHeight =>
    obtain ⟨node', inserted, same⟩ := doInsertTransaction_runs tx node id blobSize
      true fee blockId blockHeight
    refine ⟨⟨true, false, false, true⟩, node', ⟨node, node, ⟨rfl, rfl⟩, ?_⟩, same⟩
    simp only [checked, bind_ok, pure_ok]
    exact ⟨(), node', inserted, trivial, rfl⟩
  | error reason blockHeight =>
    cases reason with
    | thrown => exact absurd checked (noThrow_checkTxInputsWithBlock tx _ offsets _ _)
    | refused =>
      obtain ⟨node', inserted, same⟩ := doInsertTransaction_runs tx node id
        blobSize true fee nullHash 0
      refine ⟨⟨false, false, true, true⟩, node', ⟨node, node, ⟨rfl, rfl⟩, ?_⟩, same⟩
      simp only [checked, bind_ok, require_ok, pure_ok]
      exact ⟨(), node, ⟨rfl, rfl⟩, (), node', inserted, trivial, rfl⟩

/-- A transaction that passed the stateless checks can always be given back to the pool, which
leaves the storage alone. -/
theorem addTx_runs (admissible : Admissible E good tx.toTransactionPrefix)
    (offsets : ∀ input ∈ tx.vin, input.OffsetsRead) :
    ∃ tvc node', addTx E tx 0 true true node = .ok tvc node' ∧ node'.chain = node.chain := by
  obtain ⟨fee, amounts⟩ := Option.isSome_iff_exists.mp admissible.amounts
  have supported : tx.checkInputsTypesSupported = true := by
    have semantic := admissible.semantic
    simp only [checkTxSemantic, Bool.and_eq_true] at semantic
    exact semantic.1.1.1.1.1.2
  obtain ⟨cancels, cancelled, cancelling, sameChain⟩ :=
    processCancelOfferRules_runs (E := E) tx node false
  have accepted : ∀ chain, feeAccepted chain tx (getObjectBlobsize E tx.toTransactionPrefix) fee 0
      cancels = .ok true := by
    intro chain
    simp [feeAccepted, pure, Except.pure]
  obtain ⟨tvc, node', inserted, same⟩ := insertCheckedTx_runs (E := E) tx cancelled
    (getTransactionHash E tx.toTransactionPrefix) (getObjectBlobsize E tx.toTransactionPrefix) fee
    offsets
  refine ⟨tvc, node', ?_, same.trans sameChain⟩
  simp only [addTx, addTxWithId, bind_ok, get_ok, require_ok, demand_ok, reading_ok, supported,
    Bool.or_true, Bool.not_true, Bool.and_false, onlyIf_false, pure_ok]
  refine ⟨node, node, ⟨rfl, rfl⟩, (), node, ⟨trivial, rfl⟩, (), node, ⟨trivial, rfl⟩, fee, node,
    ⟨amounts, rfl⟩, (), node, ⟨trivial, rfl⟩, (), node, ⟨trivial, rfl⟩, cancels, cancelled,
    cancelling, true, cancelled, ⟨accepted _, rfl⟩, ?_⟩
  simpa only [Bool.not_true, Bool.false_eq_true, ↓reduceIte] using inserted

end Returning

/-! ## Disconnecting -/

section Disconnecting

variable {good : TransactionPrefix → Prop}

/-- The stored entry of a connected transaction. -/
theorem ConnectsTx.entry {tx : Transaction} {txId : Hash}
    (connects : ConnectsTx E height tx txId before after) :
    ∃ indexes, after.transactions.get txId =
      some ⟨tx, height, indexes, List.replicate tx.vout.length false⟩ := by
  obtain ⟨_, spent, _, _, _, stored⟩ := connects.steps
  obtain ⟨indexes, indexed, _, rfl⟩ := storeTransaction_spec stored
  exact ⟨indexes, Container.get_set_self _ _ _⟩

/-- A transaction that was connected last can be disconnected. -/
theorem purgeTransaction_runs {tx : Transaction} {txId : Hash} {node : Node}
    (connects : ConnectsTx E height tx txId before after)
    (consistent : AliasesConsistent before.aliases before.addrToAlias)
    (same : SameContents node.chain.db after) (sound : NodeSound E good node) (addToPool : Bool) :
    ∃ node', purgeTransactionFromBlockchain E txId addToPool node = .ok () node' ∧
      SameContents node'.chain.db before ∧ SameBlocks node'.chain.db node.chain.db ∧
      ∀ id, id ≠ txId → node'.chain.db.transactions.get id =
        (node.chain.db.transactions.get id).map (·.markAll id (before.marksOf false 0 tx.vin)) := by
  obtain ⟨unspent, restored, popped, disconnects, restores, blocks, flags⟩ :=
    connects.undo consistent same
  obtain ⟨indexes, entered⟩ := connects.entry
  obtain ⟨entry, found, sameEntry⟩ := same.symm.entry entered
  have sameTx : entry.tx = tx := sameEntry.tx.symm
  let middle : Node := { node with
    chain := unprocessBlockchainTxAttachments tx restored.getCurrentBlockchainSize 0
      { node.chain with db := restored } }
  have returned : ∃ node', Procedure.onlyIf (addToPool && !tx.isCoinbase) (do
      let _ ← addTx E tx 0 true true) middle = .ok () node' ∧ node'.chain = middle.chain := by
    cases adds : addToPool && !tx.isCoinbase with
    | false => exact ⟨middle, rfl, rfl⟩
    | true =>
      have admissible := (sound.txs txId entry found).2.resolve_left (by
        rw [sameTx]
        simp only [Bool.and_eq_true, Bool.not_eq_true'] at adds
        simp [adds.2])
      rw [sameTx] at admissible
      obtain ⟨tvc, node', adding, sameChain⟩ := addTx_runs tx middle admissible
        fun input member => (connects.resolved input member).offsetsRead
      refine ⟨node', ?_, sameChain⟩
      simp only [onlyIf_true, bind_ok, pure_ok]
      exact ⟨tvc, node', adding, trivial, rfl⟩
  obtain ⟨pooled, returning, sameChain⟩ := returned
  refine ⟨{ pooled with chain := { pooled.chain with
    db := { popped with transactions := popped.transactions.erase txId } } }, ?_, restores,
    ⟨blocks.blocks, blocks.blocksIndex, blocks.perBlockGindexIncs⟩, ?_⟩
  · simp only [purgeTransactionFromBlockchain, bind_ok, get_ok, demand_ok, onChain_ok, onDb_ok,
      modify_ok, require_ok]
    refine ⟨node, node, ⟨rfl, rfl⟩, entry, node, ⟨found, rfl⟩, (), _,
      ⟨_, ⟨unspent, by rw [sameTx]; exact disconnects.inputs, rfl⟩, rfl⟩, (), _,
      ⟨_, ⟨restored, by rw [sameTx]; exact disconnects.aliasEntry, rfl⟩, rfl⟩, ⟨⟩, middle,
      ⟨_, rfl, by rw [sameTx]⟩, (), pooled, by rw [sameTx]; exact returning, true,
      { pooled with chain := { pooled.chain with db := popped } }, ?_, ⟨⟩, _,
      ⟨_, ⟨_, rfl, rfl⟩, rfl⟩, rfl, rfl⟩
    have pooledDb : pooled.chain.db = restored := by rw [sameChain]; rfl
    simp only [attempt_true, onChain_ok, onDb_ok]
    exact ⟨(), _, ⟨popped, by rw [sameTx, pooledDb]; exact disconnects.outputs, rfl⟩, rfl⟩
  · intro id apart
    change (popped.transactions.erase txId).get id = _
    rw [Container.get_erase_of_ne _ (Ne.symm apart), flags]

theorem ConnectsTxs.aliases (connects : ConnectsTxs E height txs before after)
    (consistent : AliasesConsistent before.aliases before.addrToAlias) :
    AliasesConsistent after.aliases after.addrToAlias := by
  induction connects with
  | nil => exact consistent
  | cons first others ih => exact ih (first.effect.aliases consistent)

/-- What an input named stays named while further transactions are connected. -/
theorem ConnectsTxs.named (connects : ConnectsTxs E height txs before after) {input : Txin}
    {output : Hash × Nat} (names : before.outputOf input = some output) :
    after.outputOf input = some output := by
  induction connects with
  | nil => exact names
  | cons first others ih => exact ih (first.effect.named _ _ names)

/-- An output that some input of the transactions marks. -/
def Touches (txs : List (Hash × Transaction)) (db : Db) (output : Hash × Nat) : Prop :=
  ∃ entry ∈ txs, ∃ input ∈ entry.2.vin, db.outputOf input = some output

/-- The outputs that the inputs of a connected transaction marked are the ones they name in any
later database. -/
theorem ConnectsTx.outputOf_iff {tx : Transaction} {txId : Hash} {later : Db}
    (connects : ConnectsTx E height tx txId before after)
    (others : ConnectsTxs E height txs after later) {input : Txin} (member : input ∈ tx.vin)
    {output : Hash × Nat} :
    before.outputOf input = some output ↔ later.outputOf input = some output := by
  have stays : ∀ output, before.outputOf input = some output → later.outputOf input = some output :=
    fun output names => others.named (connects.effect.named _ _ names)
  refine ⟨stays output, fun names => ?_⟩
  by_cases marks : input.marksOutput
  · obtain ⟨named, _, named_eq, _⟩ := connects.effect.stored input member marks
    rw [stays named named_eq, Option.some.injEq] at names
    rw [named_eq, names]
  · rw [Db.outputOf_of_not_marksOutput marks] at names
    cases names

/-- Stored entries only get marks, on the outputs that the inputs name. -/
theorem ConnectsTxs.entry (connects : ConnectsTxs E height txs before after) {id : Hash}
    {entry : TransactionChainEntry} (found : before.transactions.get id = some entry) :
    ∃ marks, after.transactions.get id = some (entry.markAll id marks) ∧
      ∀ m ∈ marks, Touches txs after m.1 := by
  induction connects generalizing entry with
  | nil => exact ⟨[], found, by simp⟩
  | @cons txId tx rest before middle after first others ih =>
    have apart : id ≠ txId := fun same => by
      rw [same, first.effect.fresh] at found
      cases found
    obtain ⟨marks, late, touched⟩ := ih (by
      rw [first.effect.others id apart, found, Option.map_some])
    refine ⟨before.marksOf true height tx.vin ++ marks, ?_, ?_⟩
    · rw [late, TransactionChainEntry.markAll_append]
    · intro m member
      rcases List.mem_append.mp member with early | late
      · obtain ⟨input, inVin, output, names, rfl⟩ := mem_marksOf.mp early
        exact ⟨_, .head _, input, inVin, (first.outputOf_iff others inVin).mp names⟩
      · obtain ⟨entry, inRest, touches⟩ := touched m late
        exact ⟨entry, .tail _ inRest, touches⟩

theorem purgeTransactions_append {addToPool : Bool} {first second : List Hash}
    {node middle node' : Node}
    (early : purgeTransactionsFromBlockchain E addToPool first node = .ok true middle)
    (late : purgeTransactionsFromBlockchain E addToPool second middle = .ok true node') :
    purgeTransactionsFromBlockchain E addToPool (first ++ second) node = .ok true node' := by
  induction first generalizing node with
  | nil =>
    obtain ⟨-, rfl⟩ := pure_ok.mp early
    exact late
  | cons txId rest ih =>
    simp only [purgeTransactionsFromBlockchain, List.cons_append, bind_ok, pure_ok] at early ⊢
    obtain ⟨purged, next, run, others, _, runs, both, rfl⟩ := early
    rw [Bool.and_eq_true] at both
    obtain ⟨rfl, rfl⟩ := both
    exact ⟨true, next, run, true, node', ih runs, rfl, rfl⟩

/-- The state after connected transactions were purged again: the marks of their inputs are
cleared, everything else is back. -/
structure Purged (txs : List (Hash × Transaction)) (before after db purged : Db) : Prop where
  contents : SameContents purged before
  blocks : SameBlocks purged db
  marks : ∀ id, (before.transactions.get id).isSome → ∃ marks : List Mark,
    purged.transactions.get id = (db.transactions.get id).map (·.markAll id marks) ∧
    (∀ m ∈ marks, m.2 = false) ∧ ∀ output, (∃ m ∈ marks, m.1 = output) ↔ Touches txs after output

theorem Purged.cons {tx : Transaction} {txId : Hash} {rest : List (Hash × Transaction)}
    {middle db later purged : Db} (first : ConnectsTx E height tx txId before middle)
    (others : ConnectsTxs E height rest middle after) (late : Purged rest middle after db later)
    (contents : SameContents purged before) (blocks : SameBlocks purged later)
    (flags : ∀ id, id ≠ txId → purged.transactions.get id =
      (later.transactions.get id).map (·.markAll id (before.marksOf false 0 tx.vin))) :
    Purged ((txId, tx) :: rest) before after db purged := by
  refine ⟨contents, blocks.trans late.blocks, fun id stored => ?_⟩
  have apart : id ≠ txId := fun same => by
    rw [same, first.effect.fresh] at stored
    cases stored
  obtain ⟨marks, entries, cleared, touched⟩ := late.marks id (by
    rwa [first.effect.others id apart, Option.isSome_map])
  refine ⟨marks ++ before.marksOf false 0 tx.vin, ?_, ?_, ?_⟩
  · rw [flags id apart, entries, Option.map_map]
    congr 1
    funext entry
    exact (TransactionChainEntry.markAll_append id entry _ _).symm
  · intro m member
    rcases List.mem_append.mp member with early | late
    · exact cleared m early
    · obtain ⟨input, _, output, _, rfl⟩ := mem_marksOf.mp late
      split <;> rfl
  · intro output
    have own : (∃ m ∈ before.marksOf false 0 tx.vin, m.1 = output) ↔
        ∃ input ∈ tx.vin, after.outputOf input = some output := by
      constructor
      · rintro ⟨m, member, rfl⟩
        obtain ⟨input, inVin, output, names, rfl⟩ := mem_marksOf.mp member
        exact ⟨input, inVin, (first.outputOf_iff others inVin).mp names⟩
      · rintro ⟨input, inVin, names⟩
        exact ⟨_, mem_marksOf.mpr ⟨input, inVin, output,
          (first.outputOf_iff others inVin).mpr names, rfl⟩, rfl⟩
    simp only [List.mem_append, or_and_right, exists_or, touched output, own, Touches,
      List.mem_cons, exists_eq_left]
    exact or_comm

/-- Transactions that were connected last can be disconnected, newest first. -/
theorem purgeTransactions_runs {node : Node} (connects : ConnectsTxs E height txs before after)
    (consistent : AliasesConsistent before.aliases before.addrToAlias)
    (same : SameContents node.chain.db after) (sound : NodeSound E good node) (addToPool : Bool) :
    ∃ node', purgeTransactionsFromBlockchain E addToPool (txs.map Prod.fst).reverse node =
        .ok true node' ∧ Purged txs before after node.chain.db node'.chain.db := by
  induction connects generalizing node with
  | nil =>
    refine ⟨node, rfl, same, .refl _, fun id _ => ⟨[], ?_, by simp, by simp [Touches]⟩⟩
    cases node.chain.db.transactions.get id <;> rfl
  | @cons txId tx rest before middle after first others ih =>
    obtain ⟨later, purgeLater, purged⟩ := ih (first.effect.aliases consistent) same sound
    have laterSound : NodeSound E good later :=
      (keeps_purgeTransactionsFromBlockchain addToPool _).of_ok purgeLater sound
    obtain ⟨node', purgeFirst, contents, blocks, flags⟩ :=
      purgeTransaction_runs first consistent purged.contents laterSound addToPool
    refine ⟨node', ?_, purged.cons first others contents blocks flags⟩
    rw [List.map_cons, List.reverse_cons]
    refine purgeTransactions_append purgeLater ?_
    simp only [purgeTransactionsFromBlockchain, bind_ok, pure_ok]
    exact ⟨true, node', attempt_true.mpr ⟨(), purgeFirst⟩, true, node', ⟨rfl, rfl⟩, rfl, rfl⟩

/-- The transactions of a connected block can be disconnected, the coinbase last. -/
theorem purgeBlockData_runs {bl : Block} {node : Node}
    (connects : ConnectsTxs E height (blockTxs E bl txs) before after)
    (txIds : txs.map Prod.fst = bl.txHashes)
    (consistent : AliasesConsistent before.aliases before.addrToAlias)
    (same : SameContents node.chain.db after) (sound : NodeSound E good node) (addToPool : Bool) :
    ∃ node', purgeBlockDataFromBlockchain E bl bl.txHashes.length addToPool node = .ok () node' ∧
      Purged (blockTxs E bl txs) before after node.chain.db node'.chain.db := by
  cases connects with
  | cons miner others =>
    obtain ⟨later, purgeLater, purged⟩ := purgeTransactions_runs others
      (miner.effect.aliases consistent) same sound addToPool
    have laterSound : NodeSound E good later :=
      (keeps_purgeTransactionsFromBlockchain addToPool _).of_ok purgeLater sound
    obtain ⟨node', purgeMiner, contents, blocks, flags⟩ :=
      purgeTransaction_runs miner consistent purged.contents laterSound true
    refine ⟨node', ?_, purged.cons miner others contents blocks flags⟩
    rw [txIds] at purgeLater
    simp only [purgeBlockDataFromBlockchain, List.take_length, bind_ok, require_ok]
    exact ⟨(), node, ⟨by simp, rfl⟩, true, later, purgeLater, true, node',
      attempt_true.mpr ⟨(), purgeMiner⟩, rfl, rfl⟩

/-- A connected block can be disconnected, from the database it led to and from any database
that differs from it in spent flags of key outputs only. -/
theorem popBlock_runs {bei : BlockExtendedInfo} {node : Node}
    (connects : Connects E before bei txs after) (above : before.blocks ≠ [])
    (consistent : AliasesConsistent before.aliases before.addrToAlias)
    (unindexed : before.perBlockGindexIncs.get before.blocks.length = none)
    (same : SameButSpent node.chain.db after) (sound : NodeSound E good node) (addToPool : Bool) :
    ∃ node', popBlockFromBlockchain E addToPool node = .ok () node' ∧
      SameButSpent node'.chain.db before ∧
      ∀ id, (before.transactions.get id).isSome → ∃ marks : List Mark,
        node'.chain.db.transactions.get id =
          (node.chain.db.transactions.get id).map (·.markAll id marks) ∧
        (∀ m ∈ marks, m.2 = false) ∧ ∀ output, (∃ m ∈ marks, m.1 = output) ↔
          Touches (blockTxs E bei.bl txs) after output := by
  obtain ⟨connected, connectsTxs, pushed⟩ := connects.contents
  have frame := connectsTxs.sameBlocks
  have contents : SameContents node.chain.db connected := by
    refine same.toSameContents.trans ?_
    rw [pushed]
    exact ⟨rfl, rfl, rfl, rfl, rfl, fun _ => optionRel_refl SameEntry.refl _⟩
  obtain ⟨purged, purge, result⟩ := purgeBlockData_runs connectsTxs connects.txIds consistent
    contents sound addToPool
  have sameBlocks : node.chain.db.blocks = before.blocks ++ [bei] := by
    rw [same.blocks, pushed, ← frame.blocks]
    rfl
  have sameIndex : node.chain.db.blocksIndex =
      before.blocksIndex.set (getBlockHash E bei.bl) bei.height := by
    rw [same.blocksIndex, pushed, ← frame.blocksIndex]
    rfl
  have sameIncs : ∃ incs, node.chain.db.perBlockGindexIncs =
      before.perBlockGindexIncs.set bei.height incs := by
    rw [same.perBlockGindexIncs, pushed, ← frame.perBlockGindexIncs]
    exact ⟨_, rfl⟩
  let shorter : Chain := { purged.chain with db := dropTopBlock E bei purged.chain.db }
  refine ⟨{ purged with chain := onBlockRemoved shorter }, ?_, ⟨?_, ?_⟩, ?_⟩
  · simp only [popBlockFromBlockchain, bind_ok, get_ok, require_ok, demand_ok, onChain_ok, onDb_ok,
      modify_ok]
    refine ⟨node, node, ⟨rfl, rfl⟩, (), node, ⟨?_, rfl⟩, bei, node, ⟨?_, rfl⟩, (), purged, purge,
      ⟨⟩, _, ⟨_, ⟨_, rfl, rfl⟩, rfl⟩, _, rfl, rfl⟩
    · rw [sameBlocks]
      have := List.length_pos_of_ne_nil above
      simp only [List.length_append, List.length_cons, List.length_nil, decide_eq_true_eq]
      omega
    · rw [sameBlocks, List.getLast?_append]
      rfl
  · exact ⟨result.contents.spentKeys, result.contents.outputs, result.contents.multisigOuts,
      result.contents.aliases, result.contents.addrToAlias, result.contents.transactions⟩
  · refine ⟨?_, ?_, ?_⟩
    · change purged.chain.db.blocks.dropLast = _
      rw [result.blocks.blocks, sameBlocks, List.dropLast_concat]
    · change purged.chain.db.blocksIndex.erase _ = _
      rw [result.blocks.blocksIndex, sameIndex, Container.erase_set]
      exact Container.get_eq_none_of_not_has _ _ (by simp [connects.fresh])
    · change purged.chain.db.perBlockGindexIncs.erase _ = _
      obtain ⟨incs, sameIncs⟩ := sameIncs
      rw [result.blocks.perBlockGindexIncs, sameIncs, Container.erase_set]
      rwa [connects.height]
  · intro id stored
    obtain ⟨marks, entries, cleared, touched⟩ := result.marks id stored
    refine ⟨marks, entries, cleared, fun output => (touched output).trans ?_⟩
    have sameOutputs : ∀ input, after.outputOf input = connected.outputOf input := by
      intro input
      rw [pushed]
      exact outputOf_congr rfl rfl input
    simp only [Touches, sameOutputs]

end Disconnecting

end Blocks
end Virie
