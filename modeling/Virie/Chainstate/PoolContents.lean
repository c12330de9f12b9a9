import Virie.Node

/-! # What pool operations do to the pool

Adding and forgetting a transaction as functions on the pool containers, and the pool
under any sequence of its operations, beside a storage that changes meanwhile. -/

open Foundation

namespace Virie

/-- The alias that a transaction registers or updates, when its extra field is valid. -/
def TransactionPrefix.aliasEntry (tx : TransactionPrefix) : Option ExtraAliasEntry :=
  tx.parseAndValidateTxExtra.bind TxExtraInfo.namedAlias

/-- The known cancellations after the ones of some attachments were forgotten, up to the first
that cannot be read or is not known. -/
def releaseOffers (E : Env) : List TxServiceAttachment → KeySet Hash → KeySet Hash
  | [], known => known
  | a :: rest, known =>
    if isOfferCancellation a then
      match E.cancelOfferTxId a.body with
      | none => known
      | some offer =>
        if known.contains offer then releaseOffers E rest (known.erase offer) else known
    else releaseOffers E rest known

/-- The pool without a transaction. -/
def Pool.forget (E : Env) (id : Hash) (tx : Transaction) (keptByBlock : Bool) (pool : Pool) :
    Pool :=
  { pool with
    transactions := pool.transactions.erase id
    cancelOfferHash := releaseOffers E (serviceAttachments tx) pool.cancelOfferHash
    keyImagesSet :=
      if keptByBlock then pool.keyImagesSet
      else (pool.removeKeyImages tx.toTransactionPrefix).keyImagesSet
    aliasNames := tx.aliasEntry.elim pool.aliasNames fun entry =>
      pool.aliasNames.erase entry.aliasName
    aliasAddresses := tx.aliasEntry.elim pool.aliasAddresses fun entry =>
      pool.aliasAddresses.erase entry.address }

/-- The details of a transaction that has just entered the pool. -/
def TxDetails.entering (tx : Transaction) (blobSize : Nat) (keptByBlock : Bool) (fee : Nat)
    (maxUsedBlockId : Hash) (maxUsedBlockHeight receiveTime : Nat) : TxDetails where
  blobSize
  fee
  tx
  keptByBlock
  maxUsedBlockHeight
  maxUsedBlockId
  lastFailedHeight := 0
  lastFailedId := nullHash
  receiveTime

/-- The pool with a transaction. -/
def Pool.enter (id : Hash) (details : TxDetails) (pool : Pool) : Pool :=
  { pool with
    transactions := pool.transactions.set id details
    keyImagesSet :=
      if details.keptByBlock then pool.keyImagesSet
      else (pool.insertKeyImages details.tx.toTransactionPrefix).keyImagesSet
    aliasNames := details.tx.aliasEntry.elim pool.aliasNames fun entry =>
      pool.aliasNames.insert entry.aliasName
    aliasAddresses := details.tx.aliasEntry.elim pool.aliasAddresses fun entry =>
      pool.aliasAddresses.insert entry.address }

/-- The pool with more cancellations on record. -/
def Pool.record (offers : List Hash) (pool : Pool) : Pool :=
  { pool with cancelOfferHash := offers.foldl KeySet.insert pool.cancelOfferHash }

/-! ## Adding a transaction in two parts -/

section Adding

variable (E : Env) (tx : Transaction) (minFee : Nat) (id : Hash) (blobSize : Nat)
  (keptByBlock fromCore : Bool)

/-- The checks of a transaction before its cancellations are recorded; the answer is its fee. -/
def addTxChecks : NodeM Nat := do
  let node ← get
  let isInCheckpointZone := node.chain.isInCheckpointZone
  Procedure.require (isInCheckpointZone || tx.checkInputsTypesSupported)
  Procedure.onlyIf (!isInCheckpointZone && !fromCore && !keptByBlock) do
    let expired ← onChain (isTxExpired tx.toTransactionPrefix)
    Procedure.require (!expired)
  let txFee ← Procedure.demand .refused (validateTxAmounts tx.toTransactionPrefix)
  Procedure.onlyIf (!isInCheckpointZone && !fromCore)
    (validateAliasInfo E tx.toTransactionPrefix keptByBlock)
  Procedure.onlyIf (!isInCheckpointZone && !fromCore && !keptByBlock)
    (validateFreeTx E tx.toTransactionPrefix)
  pure txFee

/-- What follows the checks: cancellations are recorded, then fee and inputs decide. -/
def admitTx (txFee : Nat) : NodeM TxVerificationContext := do
  let pcor ← processCancelOfferRules E tx (!keptByBlock && !fromCore)
  let accepted ← Procedure.reading fun node => feeAccepted node.chain tx blobSize txFee minFee pcor
  if !accepted then pure ⟨false, false, false, false⟩
  else insertCheckedTx E tx id blobSize txFee keptByBlock fromCore

/-- The cancellations that are recorded for a transaction. -/
def recordedOffers (node : Node) : List Hash :=
  (collectCancelOffers E node tx (!keptByBlock && !fromCore) []
    (serviceAttachments tx).zipIdx).getD []

/-- Wrong inputs are accepted from blocks and from the core. -/
def inputsAdmit (node : Node) : Bool :=
  match checkTxInputsWithBlock E node.chain tx id 0 with
  | .ok _ _ => true
  | .error .refused _ => keptByBlock || fromCore
  | .error .thrown _ => false

/-- Whether the fee and the inputs of a transaction let it into the pool. -/
def admits (txFee : Nat) (node : Node) : Bool :=
  (match feeAccepted node.chain tx blobSize txFee minFee
      (!(recordedOffers E tx keptByBlock fromCore node).isEmpty) with
    | .ok accepted => accepted
    | .error _ => false) &&
    inputsAdmit E tx id keptByBlock fromCore node

end Adding

open Procedure

section PoolContents

variable {E : Env} {node : Node}

/-! ## Forgetting -/

theorem final_unprocess (attachments : List TxServiceAttachment) (pool : Pool) :
    final (forEach (fun a =>
      if isOfferCancellation a then do
        let offer ← demand .refused (E.cancelOfferTxId a.body)
        let pool ← get
        require (pool.cancelOfferHash.contains offer)
        set { pool with cancelOfferHash := pool.cancelOfferHash.erase offer }
      else (pure () : PoolM Unit)) attachments pool) =
      { pool with cancelOfferHash := releaseOffers E attachments pool.cancelOfferHash } := by
  induction attachments generalizing pool with
  | nil => rfl
  | cons a rest ih =>
    rw [forEach, releaseOffers]
    by_cases cancels : isOfferCancellation a = true
    · rw [if_pos cancels, if_pos cancels]
      cases read : E.cancelOfferTxId a.body with
      | none => rfl
      | some offer =>
        dsimp only
        by_cases known : pool.cancelOfferHash.contains offer = true
        · rw [if_pos known]
          have released : (do
              let offer ← demand .refused (some offer)
              let pool ← get
              require (pool.cancelOfferHash.contains offer)
              set { pool with cancelOfferHash := pool.cancelOfferHash.erase offer } :
                PoolM PUnit) pool =
              .ok ⟨⟩ { pool with cancelOfferHash := pool.cancelOfferHash.erase offer } := by
            rw [demand_bind, get_bind, known]
            rfl
          rw [bind_of_ok released, ih]
        · rw [if_neg known]
          have stopped : (do
              let offer ← demand .refused (some offer)
              let pool ← get
              require (pool.cancelOfferHash.contains offer)
              set { pool with cancelOfferHash := pool.cancelOfferHash.erase offer } :
                PoolM PUnit) pool = .error .refused pool := by
            rw [demand_bind, get_bind, require_bind, if_neg known]
          rw [bind_of_error stopped]
          rfl
    · rw [if_neg cancels, if_neg cancels]
      have passed : (pure () : PoolM Unit) pool = .ok () pool := rfl
      rw [bind_of_ok passed, ih]

theorem noThrow_unprocess (tx : Transaction) : NoThrow (unprocessCancelOfferRules E tx) := by
  refine avoids_forEach fun a _ => ?_
  split
  · exact avoids_bind (noThrow_demand _) fun _ => avoids_bind avoids_get fun _ =>
      avoids_bind (noThrow_require _) fun _ => avoids_set _
  · exact avoids_pure ()

/-- An attempt that cannot raise an exception ends where the body ends. -/
theorem attempt_final {σ α : Type} {body : Procedure σ α} (inner : NoThrow body) (before : σ) :
    ∃ success, attempt body before = .ok success (final (body before)) := by
  obtain ⟨success, after, run⟩ := attempt_runs inner before
  refine ⟨success, ?_⟩
  rw [run, ← final_attempt, run]
  rfl

theorem attempt_onTxRemove (tx : TransactionPrefix) (keptByBlock : Bool) (pool : Pool) :
    ∃ success, attempt (onTxRemove tx keptByBlock) pool = .ok success { pool with
      keyImagesSet :=
        if keptByBlock then pool.keyImagesSet else (pool.removeKeyImages tx).keyImagesSet
      aliasNames := tx.aliasEntry.elim pool.aliasNames fun entry =>
        pool.aliasNames.erase entry.aliasName
      aliasAddresses := tx.aliasEntry.elim pool.aliasAddresses fun entry =>
        pool.aliasAddresses.erase entry.address } := by
  have images : (if keptByBlock then pool else pool.removeKeyImages tx) = { pool with
      keyImagesSet :=
        if keptByBlock then pool.keyImagesSet else (pool.removeKeyImages tx).keyImagesSet } := by
    cases keptByBlock <;> rfl
  have modified : (modify fun pool => if keptByBlock then pool else pool.removeKeyImages tx :
      PoolM PUnit) pool = .ok ⟨⟩ (if keptByBlock then pool else pool.removeKeyImages tx) := rfl
  unfold attempt
  rw [onTxRemove, bind_of_ok modified, images, removeAliasInfo]
  unfold TransactionPrefix.aliasEntry
  cases tx.parseAndValidateTxExtra with
  | none => exact ⟨false, rfl⟩
  | some info =>
    rw [demand_bind, Option.bind_some]
    cases info.namedAlias with
    | none => exact ⟨true, rfl⟩
    | some entry => exact ⟨true, rfl⟩

theorem attempt_onTxAdd (tx : TransactionPrefix) (keptByBlock : Bool) (pool : Pool) :
    ∃ success, attempt (onTxAdd tx keptByBlock) pool = .ok success { pool with
      keyImagesSet :=
        if keptByBlock then pool.keyImagesSet else (pool.insertKeyImages tx).keyImagesSet
      aliasNames := tx.aliasEntry.elim pool.aliasNames fun entry =>
        pool.aliasNames.insert entry.aliasName
      aliasAddresses := tx.aliasEntry.elim pool.aliasAddresses fun entry =>
        pool.aliasAddresses.insert entry.address } := by
  have images : (if keptByBlock then pool else pool.insertKeyImages tx) = { pool with
      keyImagesSet :=
        if keptByBlock then pool.keyImagesSet else (pool.insertKeyImages tx).keyImagesSet } := by
    cases keptByBlock <;> rfl
  have modified : (modify fun pool => if keptByBlock then pool else pool.insertKeyImages tx :
      PoolM PUnit) pool = .ok ⟨⟩ (if keptByBlock then pool else pool.insertKeyImages tx) := rfl
  unfold attempt
  rw [onTxAdd, bind_of_ok modified, images, insertAliasInfo]
  unfold TransactionPrefix.aliasEntry
  cases tx.parseAndValidateTxExtra with
  | none => exact ⟨false, rfl⟩
  | some info =>
    rw [demand_bind, Option.bind_some]
    cases info.namedAlias with
    | none => exact ⟨true, rfl⟩
    | some entry => exact ⟨true, rfl⟩

theorem forgetTx_eq (id : Hash) (tx : Transaction) (keptByBlock : Bool) (pool : Pool) :
    forgetTx E id tx keptByBlock pool = .ok () (pool.forget E id tx keptByBlock) := by
  obtain ⟨cancelled, cancelling⟩ := attempt_final (noThrow_unprocess (E := E) tx) pool
  rw [unprocessCancelOfferRules, final_unprocess] at cancelling
  obtain ⟨removed, removing⟩ := attempt_onTxRemove tx.toTransactionPrefix keptByBlock
    { pool with
      cancelOfferHash := releaseOffers E (serviceAttachments tx) pool.cancelOfferHash
      transactions := pool.transactions.erase id }
  simp only [forgetTx, bind_ok, modify_ok, pure_ok]
  exact ⟨cancelled, _, cancelling, ⟨⟩, _, rfl, removed, _, removing, trivial, rfl⟩

theorem takeTx_eq {id : Hash} {pool : Pool} {details : TxDetails}
    (found : pool.transactions.get id = some details) :
    takeTx E id pool = .ok details { (pool.forget E id details.tx details.keptByBlock) with
      takenTxs := pool.takenTxs.insert id } := by
  simp only [takeTx, bind_ok, get_ok, demand_ok, modify_ok, pure_ok]
  exact ⟨pool, pool, ⟨rfl, rfl⟩, details, pool, ⟨found, rfl⟩, (), _, forgetTx_eq _ _ _ _, ⟨⟩, _,
    rfl, rfl, rfl⟩

/-- Stuck transactions are forgotten one after the other. -/
theorem final_forgetAll (entries : List (Hash × TxDetails)) (node : Node) :
    forEach (fun (entry : Hash × TxDetails) =>
        onPool (forgetTx E entry.1 entry.2.tx entry.2.keptByBlock)) entries node =
      .ok () { node with pool := entries.foldl (fun pool entry =>
        pool.forget E entry.1 entry.2.tx entry.2.keptByBlock) node.pool } := by
  induction entries generalizing node with
  | nil => rfl
  | cons entry rest ih =>
    have forgotten : onPool (forgetTx E entry.1 entry.2.tx entry.2.keptByBlock) node =
        .ok () { node with pool := node.pool.forget E entry.1 entry.2.tx entry.2.keptByBlock } :=
      onPool_ok.mpr ⟨_, forgetTx_eq _ _ _ _, rfl⟩
    rw [forEach, bind_of_ok forgotten, ih]
    rfl

/-! ## Adding -/

theorem doInsertTransaction_eq (tx : Transaction) (id : Hash) (blobSize : Nat) (keptByBlock : Bool)
    (fee : Nat) (blockId : Hash) (blockHeight : Nat) (node : Node) :
    doInsertTransaction tx id blobSize keptByBlock fee blockId blockHeight node =
      .ok () { node with
        pool := node.pool.enter id (.entering tx blobSize keptByBlock fee blockId blockHeight
          node.chain.coreTime) } := by
  obtain ⟨added, adding⟩ := attempt_onTxAdd tx.toTransactionPrefix keptByBlock
    { node.pool with
      transactions := node.pool.transactions.set id (.entering tx blobSize keptByBlock fee blockId
        blockHeight node.chain.coreTime) }
  simp only [doInsertTransaction, get_bind, onPool_ok, bind_ok, modify_ok, pure_ok]
  exact ⟨_, ⟨⟨⟩, _, rfl, added, _, adding, trivial, rfl⟩, rfl⟩

theorem processCancelOfferRules_eq (tx : Transaction) (keptByBlock fromCore : Bool) (node : Node) :
    processCancelOfferRules E tx (!keptByBlock && !fromCore) node =
      .ok (!(recordedOffers E tx keptByBlock fromCore node).isEmpty)
        { node with pool := node.pool.record (recordedOffers E tx keptByBlock fromCore node) } := by
  unfold recordedOffers processCancelOfferRules
  rw [get_bind]
  rcases collectCancelOffers E node tx (!keptByBlock && !fromCore) []
    (serviceAttachments tx).zipIdx with _ | ⟨_ | ⟨offer, offers⟩⟩
  · rfl
  · rfl
  · rfl

theorem final_insertCheckedTx_eq (tx : Transaction) (id : Hash) (blobSize txFee : Nat)
    (keptByBlock fromCore : Bool) (node : Node) :
    ∃ details : TxDetails, details.tx = tx ∧ details.keptByBlock = keptByBlock ∧
      final (insertCheckedTx E tx id blobSize txFee keptByBlock fromCore node) = { node with
        pool :=
          if inputsAdmit E tx id keptByBlock fromCore node then node.pool.enter id details
          else node.pool } := by
  have inserts : ∀ (blockId : Hash) (blockHeight : Nat) (tvc : TxVerificationContext),
      ∃ details : TxDetails, details.tx = tx ∧ details.keptByBlock = keptByBlock ∧
        final ((do
          doInsertTransaction tx id blobSize keptByBlock txFee blockId blockHeight
          pure tvc : NodeM TxVerificationContext) node) =
          { node with pool := node.pool.enter id details } := by
    intro blockId blockHeight tvc
    refine ⟨.entering tx blobSize keptByBlock txFee blockId blockHeight node.chain.coreTime, rfl,
      rfl, ?_⟩
    rw [bind_of_ok (doInsertTransaction_eq tx id blobSize keptByBlock txFee blockId blockHeight
      node)]
    rfl
  rw [insertCheckedTx, get_bind, inputsAdmit]
  cases checked : checkTxInputsWithBlock E node.chain tx id 0 with
  | ok blockId blockHeight => exact inserts _ _ _
  | error reason blockHeight =>
    cases reason with
    | thrown => exact ⟨.entering tx 0 keptByBlock 0 nullHash 0 0, rfl, rfl, rfl⟩
    | refused =>
      dsimp only
      rw [require_bind]
      cases vouched : keptByBlock || fromCore with
      | true => exact inserts _ _ _
      | false =>
        exact ⟨.entering tx 0 keptByBlock 0 nullHash 0 0, rfl, rfl, rfl⟩

/-- A checked transaction has its cancellations recorded, and it enters the pool when fee and
inputs admit it. -/
theorem final_admitTx (tx : Transaction) (minFee : Nat) (id : Hash) (blobSize : Nat)
    (keptByBlock fromCore : Bool) (txFee : Nat) (node : Node) :
    ∃ details : TxDetails, details.tx = tx ∧ details.keptByBlock = keptByBlock ∧
      final (admitTx E tx minFee id blobSize keptByBlock fromCore txFee node) = { node with
        pool :=
          if admits E tx minFee id blobSize keptByBlock fromCore txFee node then
            (node.pool.record (recordedOffers E tx keptByBlock fromCore node)).enter id details
          else node.pool.record (recordedOffers E tx keptByBlock fromCore node) } := by
  rw [admitTx, bind_of_ok (processCancelOfferRules_eq tx keptByBlock fromCore node), admits]
  cases rule : feeAccepted node.chain tx blobSize txFee minFee
      (!(recordedOffers E tx keptByBlock fromCore node).isEmpty) with
  | error reason =>
    have read : reading (fun other : Node => feeAccepted other.chain tx blobSize txFee minFee
        (!(recordedOffers E tx keptByBlock fromCore node).isEmpty))
        { node with pool := node.pool.record (recordedOffers E tx keptByBlock fromCore node) } =
        .error reason { node with
          pool := node.pool.record (recordedOffers E tx keptByBlock fromCore node) } := by
      rw [reading, rule]
    rw [bind_of_error read]
    exact ⟨.entering tx 0 keptByBlock 0 nullHash 0 0, rfl, rfl, rfl⟩
  | ok accepted =>
    have read : reading (fun other : Node => feeAccepted other.chain tx blobSize txFee minFee
        (!(recordedOffers E tx keptByBlock fromCore node).isEmpty))
        { node with pool := node.pool.record (recordedOffers E tx keptByBlock fromCore node) } =
        .ok accepted { node with
          pool := node.pool.record (recordedOffers E tx keptByBlock fromCore node) } := by
      rw [reading, rule]
    rw [bind_of_ok read]
    cases accepted with
    | false => exact ⟨.entering tx 0 keptByBlock 0 nullHash 0 0, rfl, rfl, rfl⟩
    | true =>
      obtain ⟨details, sameTx, sameKept, ends⟩ := final_insertCheckedTx_eq (E := E) tx id blobSize
        txFee keptByBlock fromCore
        { node with pool := node.pool.record (recordedOffers E tx keptByBlock fromCore node) }
      refine ⟨details, sameTx, sameKept, ?_⟩
      simp only [Bool.not_true, Bool.false_eq_true, ↓reduceIte, Bool.true_and]
      exact ends

theorem keepsPool_addTxChecks (tx : Transaction) (keptByBlock fromCore : Bool) (pool : Pool) :
    Preserves (fun node : Node => node.pool = pool) (addTxChecks E tx keptByBlock fromCore) := by
  have chains : ∀ {α : Type} (body : ChainM α),
      Preserves (fun node : Node => node.pool = pool) (onChain body) :=
    fun body => preserves_within fun _ same => same
  refine preserves_get_bind fun node _ => preserves_bind (preserves_require _) fun _ =>
    preserves_bind (preserves_onlyIf ?_) fun _ => preserves_bind (preserves_demand _ _) fun _ =>
    preserves_bind (preserves_onlyIf ?_) fun _ => preserves_bind (preserves_onlyIf ?_) fun _ =>
    preserves_pure _
  · exact preserves_bind (chains _) fun _ => preserves_require _
  · unfold validateAliasInfo
    split
    · exact preserves_pure ()
    · exact preserves_ite (fun _ => preserves_pure ()) fun _ => preserves_get_bind fun _ _ =>
        preserves_bind (preserves_require _) fun _ => preserves_bind (preserves_require _)
        fun _ => preserves_bind (preserves_require _) fun _ =>
        preserves_bind (preserves_require _) fun _ => chains _
  · exact preserves_get_bind fun _ _ => preserves_bind (preserves_require _) fun _ =>
      preserves_require _

theorem addTxWithId_eq (tx : Transaction) (minFee : Nat) (id : Hash) (blobSize : Nat)
    (keptByBlock fromCore : Bool) :
    addTxWithId E tx minFee id blobSize keptByBlock fromCore =
      addTxChecks E tx keptByBlock fromCore >>=
        admitTx E tx minFee id blobSize keptByBlock fromCore := by
  simp only [addTxWithId, addTxChecks, admitTx, bind_assoc, pure_bind]

/-- Adding a transaction leaves the pool alone when a check fails; otherwise it ends as the
second part does. -/
theorem final_addTxWithId (tx : Transaction) (minFee : Nat) (id : Hash) (blobSize : Nat)
    (keptByBlock fromCore : Bool) (node : Node) :
    (final (addTxWithId E tx minFee id blobSize keptByBlock fromCore node)).pool = node.pool ∨
    ∃ txFee middle, addTxChecks E tx keptByBlock fromCore node = .ok txFee middle ∧
      middle.pool = node.pool ∧
      final (addTxWithId E tx minFee id blobSize keptByBlock fromCore node) =
        final (admitTx E tx minFee id blobSize keptByBlock fromCore txFee middle) := by
  have kept := keepsPool_addTxChecks (E := E) tx keptByBlock fromCore node.pool node rfl
  rw [addTxWithId_eq]
  cases checks : addTxChecks E tx keptByBlock fromCore node with
  | error reason middle =>
    rw [checks] at kept
    rw [bind_of_error checks]
    exact .inl kept
  | ok txFee middle =>
    rw [checks] at kept
    rw [bind_of_ok checks]
    exact .inr ⟨txFee, middle, rfl, kept, rfl⟩

end PoolContents

/-! ## Runs of the pool -/

/-- The operations of a pool, and a change of the storage beside it. -/
inductive PoolEvent where
  | addTx (tx : Transaction) (minFee : Nat) (id : Hash) (blobSize : Nat)
      (keptByBlock fromCore : Bool)
  | takeTx (id : Hash)
  | removeStuckTransactions
  | purgeTransactions
  | clear
  | storage (chain : Chain)

def poolStep (E : Env) (event : PoolEvent) (node : Node) : Node :=
  match event with
  | .addTx tx minFee id blobSize keptByBlock fromCore =>
    Procedure.final (addTxWithId E tx minFee id blobSize keptByBlock fromCore node)
  | .takeTx id => Procedure.final (onPool (takeTx E id) node)
  | .removeStuckTransactions => Procedure.final (removeStuckTransactions E node)
  | .purgeTransactions => { node with pool := purgeTransactions node.pool }
  | .clear => { node with pool := node.pool.clear }
  | .storage chain => { node with chain }

/-- A pool that starts empty beside any storage. -/
def poolSystem (E : Env) : System PoolEvent Node where
  start node := node.pool = {}
  step := poolStep E

section Steps

variable {E : Env}

theorem poolStep_takeTx (id : Hash) (node : Node) :
    (node.pool.transactions.get id = none ∧ (poolStep E (.takeTx id) node).pool = node.pool) ∨
    ∃ details, node.pool.transactions.get id = some details ∧
      (poolStep E (.takeTx id) node).pool =
        { (node.pool.forget E id details.tx details.keptByBlock) with
          takenTxs := node.pool.takenTxs.insert id } := by
  cases found : node.pool.transactions.get id with
  | none =>
    refine .inl ⟨rfl, ?_⟩
    rw [poolStep, onPool, within, takeTx, get_bind, found]
    rfl
  | some details =>
    refine .inr ⟨details, rfl, ?_⟩
    rw [poolStep, onPool, within, takeTx_eq found]
    rfl

/-- Removing stuck transactions leaves the pool alone when the median is not available, and
forgets them one after the other when it is. -/
theorem poolStep_removeStuck (node : Node) :
    (poolStep E .removeStuckTransactions node).pool = node.pool ∨
    ∃ median chain, getTxExpirationMedian node.chain = .ok median chain ∧
      (poolStep E .removeStuckTransactions node).pool =
        (stuckTransactions { node with chain } median).foldl (fun pool entry =>
          pool.forget E entry.1 entry.2.tx entry.2.keptByBlock) node.pool := by
  change (final (removeStuckTransactions E node)).pool = node.pool ∨ _
  cases read : getTxExpirationMedian node.chain with
  | error reason chain =>
    have failed : onChain getTxExpirationMedian node = .error reason { node with chain } := by
      rw [onChain, within, read]
    refine .inl ?_
    rw [removeStuckTransactions, bind_of_error failed]
    rfl
  | ok median chain =>
    have passed : onChain getTxExpirationMedian node = .ok median { node with chain } :=
      onChain_ok.mpr ⟨chain, read, rfl⟩
    refine .inr ⟨median, chain, rfl, ?_⟩
    change (final (removeStuckTransactions E node)).pool = _
    rw [removeStuckTransactions, bind_of_ok passed, get_bind]
    exact congrArg (fun result => (final result).pool)
      (final_forgetAll (stuckTransactions { node with chain } median) { node with chain })

end Steps
end Virie
