import Virie.Storage.Transactions

/-! # The transaction pool

Transactions waiting for a block, with indexes of their key images, aliases and
offer cancellations. Blocks take their transactions out of the pool and put them
back when they are disconnected. -/

open Foundation

namespace Virie

structure TxDetails where
  blobSize : Nat
  fee : Nat
  tx : Transaction
  keptByBlock : Bool
  maxUsedBlockHeight : Nat
  maxUsedBlockId : Hash
  lastFailedHeight : Nat
  lastFailedId : Hash
  receiveTime : Nat
deriving DecidableEq, Inhabited

/-- The pool containers; `takenTxs` are the transactions of the block in progress. -/
structure Pool where
  transactions : Container Hash TxDetails := ∅
  cancelOfferHash : KeySet Hash := ∅
  blackTxList : KeySet Hash := ∅
  keyImagesSet : Container KeyImage Nat := ∅
  aliasNames : KeySet String := ∅
  aliasAddresses : KeySet AccountPublicAddress := ∅
  takenTxs : KeySet Hash := ∅

abbrev PoolM (α : Type) := Procedure Pool α

/-- A node: its blockchain storage and its transaction pool. -/
structure Node where
  chain : Chain := {}
  pool : Pool := {}

abbrev NodeM (α : Type) := Procedure Node α

/-- Run a procedure of the storage in the node. -/
def onChain {α : Type} (body : ChainM α) : NodeM α :=
  Procedure.within Node.chain (fun node chain => { node with chain }) body

/-- Run a procedure of the pool in the node. -/
def onPool {α : Type} (body : PoolM α) : NodeM α :=
  Procedure.within Node.pool (fun node pool => { node with pool }) body

theorem onChain_ok {α : Type} {body : ChainM α} {before after : Node} {result : α} :
    onChain body before = .ok result after ↔
      ∃ chain, body before.chain = .ok result chain ∧ after = { before with chain } :=
  Procedure.within_ok

theorem onPool_ok {α : Type} {body : PoolM α} {before after : Node} {result : α} :
    onPool body before = .ok result after ↔
      ∃ pool, body before.pool = .ok result pool ∧ after = { before with pool } :=
  Procedure.within_ok

/-! ## Indexes -/

def Pool.haveTx (pool : Pool) (id : Hash) : Bool :=
  pool.transactions.has id || pool.takenTxs.contains id

def Pool.haveTxKeyimgesAsSpent (pool : Pool) (tx : TransactionPrefix) : Bool :=
  tx.keyImages.any fun keyIm => pool.keyImagesSet.has keyIm

/-- Count one more use of each key image. -/
def Pool.insertKeyImages (tx : TransactionPrefix) (pool : Pool) : Pool :=
  { pool with
    keyImagesSet := tx.keyImages.foldl (fun images keyIm => images.modify keyIm 0 (· + 1))
      pool.keyImagesSet }

/-- Count one use of each key image less; an unknown image is reported and passed over. -/
def Pool.removeKeyImages (tx : TransactionPrefix) (pool : Pool) : Pool :=
  { pool with
    keyImagesSet := tx.keyImages.foldl (fun images keyIm =>
      match images.get keyIm with
      | none | some 0 => images
      | some 1 => images.erase keyIm
      | some (count + 2) => images.set keyIm (count + 1)) pool.keyImagesSet }

def insertAliasInfo (tx : TransactionPrefix) : PoolM Unit := do
  let ei ← Procedure.demand .refused tx.parseAndValidateTxExtra
  match ei.namedAlias with
  | some entry =>
    modify fun pool => { pool with
      aliasNames := pool.aliasNames.insert entry.aliasName
      aliasAddresses := pool.aliasAddresses.insert entry.address }
  | none => pure ()

def removeAliasInfo (tx : TransactionPrefix) : PoolM Unit := do
  let ei ← Procedure.demand .refused tx.parseAndValidateTxExtra
  match ei.namedAlias with
  | some entry =>
    modify fun pool => { pool with
      aliasNames := pool.aliasNames.erase entry.aliasName
      aliasAddresses := pool.aliasAddresses.erase entry.address }
  | none => pure ()

/-- Index a transaction; key images of kept-by-block transactions are not counted. -/
def onTxAdd (tx : TransactionPrefix) (keptByBlock : Bool) : PoolM Unit := do
  modify fun pool => if keptByBlock then pool else pool.insertKeyImages tx
  insertAliasInfo tx

def onTxRemove (tx : TransactionPrefix) (keptByBlock : Bool) : PoolM Unit := do
  modify fun pool => if keptByBlock then pool else pool.removeKeyImages tx
  removeAliasInfo tx

/-! ## Offer cancellations -/

def isOfferCancellation (a : TxServiceAttachment) : Bool :=
  a.serviceId = bcOffersServiceId && a.instruction = bcOffersServiceInstructionDel

section Pool

variable (E : Env)

/-- The offers whose cancellations a transaction carries. -/
def cancelledOffers (tx : Transaction) : List Hash :=
  ((serviceAttachments tx).filter isOfferCancellation).filterMap fun a => E.cancelOfferTxId a.body

/-- The offers a transaction cancels, `none` when an instruction is invalid or repeats a
cancellation already in the pool. An unreadable instruction is passed over. -/
def collectCancelOffers (node : Node) (tx : Transaction) (toValidate : Bool) :
    List Hash → List (TxServiceAttachment × Nat) → Option (List Hash)
  | offers, [] => some offers
  | offers, (a, servAttCount) :: rest =>
    if isOfferCancellation a then
      if toValidate && !E.validateEntry node.chain.services a servAttCount tx then none
      else
        let offers := offers ++ (E.cancelOfferTxId a.body).toList
        match offers.getLast? with
        | some latest =>
          if node.pool.cancelOfferHash.contains latest then none
          else collectCancelOffers node tx toValidate offers rest
        | none => collectCancelOffers node tx toValidate offers rest
    else collectCancelOffers node tx toValidate offers rest

/-- Record the offers a transaction cancels; the answer is whether it cancels any. -/
def processCancelOfferRules (tx : Transaction) (toValidate : Bool) : NodeM Bool := do
  let node ← get
  match collectCancelOffers E node tx toValidate [] (serviceAttachments tx).zipIdx with
  | some (offer :: offers) => do
    modify fun node => { node with
      pool := { node.pool with
        cancelOfferHash := (offer :: offers).foldl KeySet.insert node.pool.cancelOfferHash } }
    pure true
  | _ => pure false

/-- Forget the offers a transaction cancels, up to the first unknown one. -/
def unprocessCancelOfferRules (tx : Transaction) : PoolM Unit :=
  Procedure.forEach (fun a =>
    if isOfferCancellation a then do
      let offer ← Procedure.demand .refused (E.cancelOfferTxId a.body)
      let pool ← get
      Procedure.require (pool.cancelOfferHash.contains offer)
      set { pool with cancelOfferHash := pool.cancelOfferHash.erase offer }
    else pure ()) (serviceAttachments tx)

/-! ## Multisig ids -/

/-- The multisig ids of a transaction with whether it spends or creates them. -/
def collectMultisigIdsFromTx (tx : TransactionPrefix) : List (Hash × Bool) :=
  tx.multisigInputIds.map (fun id => (id, true)) ++
    tx.vout.zipIdx.filterMap fun (out, idx) =>
      match out.target with
      | .multisig _ => some (getMultisigOutId E tx idx, false)
      | .toKey _ => none

/-- A new multisig output must be new to the chain; on demand no id may occur in the pool. -/
def checkTxMultisigInsAndOuts (node : Node) (tx : TransactionPrefix) (checkAgainstPoolTxs : Bool) :
    Bool :=
  (collectMultisigIdsFromTx E tx).all fun (multisigId, isInput) =>
    (isInput || !node.chain.db.multisigOuts.has multisigId) &&
      (!checkAgainstPoolTxs || !node.pool.transactions.toList.any fun (_, txEntry) =>
        (collectMultisigIdsFromTx E txEntry.tx.toTransactionPrefix).any fun entry =>
          entry.1 = multisigId)

/-- A release of an escrow pays at least the fee of the contract it releases. -/
def isValidContractFinalizationTx (chain : Chain) (tx : TransactionPrefix) : Bool :=
  match tx.vin with
  | [.multisig msIn] =>
    match chain.db.multisigOuts.get msIn.multisigOutId with
    | some ms =>
      match chain.db.transactions.get ms.txId with
      | some relatedTx => decide (tx.getTxFee ≥ relatedTx.tx.getTxFee)
      | none => false
    | none => false
  | _ => false

/-! ## Adding and taking -/

/-- The alias rules for a transaction that comes from the network. -/
def validateAliasInfo (tx : TransactionPrefix) (isInBlock : Bool) : NodeM Unit := do
  match tx.extra.findSome? (fun
    | .extraAliasEntry value => some value
    | _ => none) with
  | none => pure ()
  | some eai =>
    if isInBlock then pure ()
    else do
      let node ← get
      let registered := !((node.chain.db.aliases.get eai.aliasName).getD []).isEmpty
      Procedure.require (!eai.sign.isEmpty || !registered)
      let named := ((node.chain.db.addrToAlias.get eai.address).bind KeySet.first).getD "" != ""
      Procedure.require (!eai.sign.isEmpty || !named)
      Procedure.require (!node.pool.aliasNames.contains eai.aliasName)
      Procedure.require (!node.pool.aliasAddresses.contains eai.address)
      onChain (prevalidateAliasInfo E tx eai)

/-- Put a transaction into the pool containers; a failing index update is only reported. -/
def doInsertTransaction (tx : Transaction) (id : Hash) (blobSize : Nat) (keptByBlock : Bool)
    (fee : Nat) (maxUsedBlockId : Hash) (maxUsedBlockHeight : Nat) : NodeM Unit := do
  let node ← get
  onPool do
    modify fun pool => { pool with
      transactions := pool.transactions.set id
        { blobSize, fee, tx, keptByBlock, maxUsedBlockHeight, maxUsedBlockId
          lastFailedHeight := 0
          lastFailedId := nullHash
          receiveTime := node.chain.coreTime } }
    let _ ← Procedure.attempt (onTxAdd tx.toTransactionPrefix keptByBlock)
    pure ()

/-- The inputs less the outputs of a transaction with a permitted number of outputs. -/
def validateTxAmounts (tx : TransactionPrefix) : Option Nat :=
  match tx.getInputsMoneyAmount with
  | none => none
  | some inputsAmount =>
    if tx.vout.length > currencyTxMaxAllowedOuts then none
    else if tx.getOutsMoneyAmount > inputsAmount then none
    else some (inputsAmount - tx.getOutsMoneyAmount)

/-- What became of the fee rules: the fee suffices, the exception for cancellations or
contract releases applies, or the transaction is silently left out. -/
def feeAccepted (chain : Chain) (tx : Transaction) (blobSize txFee minFee : Nat)
    (pcor : Bool) : Outcome Bool :=
  if chain.isInCheckpointZone || decide (txFee ≥ minFee) then pure true
  else if pcor then
    if blobSize > currencyFreeTxMaxBlobSize then throw .refused else pure true
  else pure (isValidContractFinalizationTx chain tx.toTransactionPrefix)

/-- The rules for a transaction that neither a block nor the core vouches for. -/
def validateFreeTx (tx : TransactionPrefix) : NodeM Unit := do
  let node ← get
  Procedure.require (!node.pool.haveTxKeyimgesAsSpent tx)
  Procedure.require (checkTxMultisigInsAndOuts E node tx true)

/-- Check the inputs of a transaction and put it into the pool. Wrong inputs are accepted from
blocks and from the core. -/
def insertCheckedTx (tx : Transaction) (id : Hash) (blobSize txFee : Nat)
    (keptByBlock fromCore : Bool) : NodeM TxVerificationContext := do
  let node ← get
  match checkTxInputsWithBlock E node.chain tx id 0 with
  | .error .thrown _ => throw .thrown
  | .error .refused _ => do
    Procedure.require (keptByBlock || fromCore)
    doInsertTransaction tx id blobSize keptByBlock txFee nullHash 0
    pure ⟨false, false, true, true⟩
  | .ok maxUsedBlockId maxUsedBlockHeight => do
    doInsertTransaction tx id blobSize keptByBlock txFee maxUsedBlockId maxUsedBlockHeight
    pure ⟨true, false, false, true⟩

/-- Add a transaction with a known id and size to the pool. -/
def addTxWithId (tx : Transaction) (minFee : Nat) (id : Hash) (blobSize : Nat)
    (keptByBlock fromCore : Bool) : NodeM TxVerificationContext := do
  let node ← get
  let isInCheckpointZone := node.chain.isInCheckpointZone
  Procedure.require (isInCheckpointZone || tx.checkInputsTypesSupported)
  Procedure.onlyIf (!isInCheckpointZone && !fromCore && !keptByBlock) do
    let expired ← onChain (isTxExpired tx.toTransactionPrefix)
    Procedure.require (!expired)
  let txFee ← Procedure.demand .refused (validateTxAmounts tx.toTransactionPrefix)
  Procedure.onlyIf (!isInCheckpointZone && !fromCore)
    (validateAliasInfo E tx.toTransactionPrefix keptByBlock)
  Procedure.onlyIf (!isInCheckpointZone && !fromCore && !keptByBlock)
    (validateFreeTx E tx.toTransactionPrefix)
  let pcor ← processCancelOfferRules E tx (!keptByBlock && !fromCore)
  let accepted ← Procedure.reading fun node => feeAccepted node.chain tx blobSize txFee minFee pcor
  if !accepted then pure ⟨false, false, false, false⟩
  else insertCheckedTx E tx id blobSize txFee keptByBlock fromCore

/-- Add a transaction to the pool. -/
def addTx (tx : Transaction) (minFee : Nat) (keptByBlock fromCore : Bool) :
    NodeM TxVerificationContext :=
  addTxWithId E tx minFee (getTransactionHash E tx.toTransactionPrefix)
    (getObjectBlobsize E tx.toTransactionPrefix) keptByBlock fromCore

/-- Remove a transaction from the containers; failing index updates are only reported. -/
def forgetTx (id : Hash) (tx : Transaction) (keptByBlock : Bool) : PoolM Unit := do
  let _ ← Procedure.attempt (unprocessCancelOfferRules E tx)
  modify fun pool => { pool with transactions := pool.transactions.erase id }
  let _ ← Procedure.attempt (onTxRemove tx.toTransactionPrefix keptByBlock)
  pure ()

/-- Take a transaction out of the pool for a block. -/
def takeTx (id : Hash) : PoolM TxDetails := do
  let pool ← get
  let txe ← Procedure.demand .refused (pool.transactions.get id)
  forgetTx E id txe.tx txe.keptByBlock
  modify fun pool => { pool with takenTxs := pool.takenTxs.insert id }
  pure txe

def addTransactionToBlackList (tx : Transaction) (pool : Pool) : Pool :=
  { pool with
    blackTxList := pool.blackTxList.insert (getTransactionHash E tx.toTransactionPrefix) }

def onFinalizeDbTransaction (pool : Pool) : Pool := { pool with takenTxs := ∅ }

/-- The transactions that outlived the pool or expired, a transaction that did both twice. -/
def stuckTransactions (node : Node) (txExpirationTsMedian : Nat) : List (Hash × TxDetails) :=
  node.pool.transactions.toList.flatMap fun (h, txEntry) =>
    if node.chain.alternativeChainsTxs.has h then []
    else
      (if node.chain.coreTime - txEntry.receiveTime > currencyMempoolTxLivetime then
        [(h, txEntry)] else []) ++
        if txEntry.tx.isTxExpired txExpirationTsMedian then [(h, txEntry)] else []

def removeStuckTransactions : NodeM Unit := do
  let txExpirationTsMedian ← onChain getTxExpirationMedian
  let node ← get
  Procedure.forEach (fun (h, txEntry) => onPool (forgetTx E h txEntry.tx txEntry.keptByBlock))
    (stuckTransactions node txExpirationTsMedian)

def purgeTransactions (pool : Pool) : Pool :=
  { pool with transactions := ∅, keyImagesSet := ∅, cancelOfferHash := ∅ }

def Pool.clear (pool : Pool) : Pool :=
  { pool with transactions := ∅, cancelOfferHash := ∅, blackTxList := ∅, keyImagesSet := ∅ }

/-! ## Readiness -/

/-- Check the inputs of an entry and record the newest block they use, or the top block when the
check fails. -/
def checkEntryInputs (chain : Chain) (id : Hash) : Procedure TxDetails Bool := fun txd =>
  match checkTxInputsWithBlock E chain txd.tx id txd.maxUsedBlockHeight with
  | .error .thrown maxUsedBlockHeight => .error .thrown { txd with maxUsedBlockHeight }
  | .error .refused maxUsedBlockHeight =>
    .ok false { txd with
      maxUsedBlockHeight
      lastFailedHeight := chain.db.getTopBlockHeight
      lastFailedId := chain.db.getBlockIdByHeight E chain.db.getTopBlockHeight }
  | .ok maxUsedBlockId maxUsedBlockHeight =>
    .ok true { txd with maxUsedBlockId, maxUsedBlockHeight }

/-- Whether the inputs of an entry are valid. With a recorded block they were checked already and
are checked again only when the block is no longer in the chain. -/
def entryInputsReady (chain : Chain) (id : Hash) : Procedure TxDetails Bool := do
  let txd ← get
  let db := chain.db
  if txd.maxUsedBlockId = nullHash then
    if txd.lastFailedId ≠ nullHash ∧ db.getCurrentBlockchainSize > txd.lastFailedHeight ∧
        txd.lastFailedId = db.getBlockIdByHeight E txd.lastFailedHeight then pure false
    else checkEntryInputs E chain id
  else if txd.maxUsedBlockHeight ≥ db.getCurrentBlockchainSize then pure false
  else if db.getBlockIdByHeight E txd.maxUsedBlockHeight ≠ txd.maxUsedBlockId then
    if txd.lastFailedId = db.getBlockIdByHeight E txd.lastFailedHeight then pure false
    else checkEntryInputs E chain id
  else pure true

/-- Whether an entry of the pool may go into a block now. -/
def isTransactionReadyToGo (node : Node) (id : Hash) : Procedure TxDetails Bool := do
  let txd ← get
  if node.pool.blackTxList.has (getTransactionHash E txd.tx.toTransactionPrefix) then pure false
  else do
    let valid ← entryInputsReady E node.chain id
    pure (valid && !haveTxKeyimgesAsSpent node.chain txd.tx.toTransactionPrefix &&
      checkTxMultisigInsAndOuts E node txd.tx.toTransactionPrefix false)

end Pool
end Virie
