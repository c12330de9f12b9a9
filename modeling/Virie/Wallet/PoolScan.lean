import Virie.Wallet.Frames

/-! # How a wallet follows the pool

The wallet asks the daemon for the transactions of its pool and looks into those that it does not
know from the scan before: incoming ones, and spends of its outputs that it has not sent itself,
become unconfirmed entries. A multisig output that the pool spends is marked as spent until its
spend is gone from the pool without a block. -/

open Foundation Foundation.Procedure

namespace Virie.Wallet

/-- The daemon's answer to the request for the pool: the transactions, as far as their blobs can
be parsed, the time they expire by, and the address of an alias. -/
inductive PoolReply where
  | noConnection
  | busy
  | failed
  | ok (txs : List (Option Transaction)) (txExpirationTsMedian : Nat)
      (aliasDetails : String → Option AccountPublicAddress)

/-- What the inputs of a transaction of the pool spend, with the multisig outputs that the pool
was found to spend. -/
structure PoolSpends where
  fromTxPool : List Hash
  moneySpentInIns : Nat := 0
  spentIndices : List Nat := []
  spendTransfers : List TransferIndex := []
  newMultisigSpendDetected : Bool := false

/-- Mark an output as spent by a transaction that no block has. -/
def markUnconfirmed (td : TransferDetailsBase) : TransferDetailsBase :=
  { td with flags := td.flags.add TransferFlags.flagSpent, spentHeight := 0 }

section PoolScan

variable (W : WalletEnv)

/-- The transaction brings an alias of the account, or takes one from it. -/
def hasRelatedAliasEntryUnconfirmed (aliasDetails : String → Option AccountPublicAddress)
    (tx : Transaction) : Bool :=
  match tx.parseAndValidateTxExtra.bind TxExtraInfo.namedAlias with
  | some entry =>
    entry.address == W.publicAddress || aliasDetails entry.aliasName == some W.publicAddress
  | none => false

/-- One input of a transaction that is new in the pool. -/
def scanPoolInput (i : Nat) (spends : PoolSpends) : Txin → Procedure Wallet PoolSpends
  | .gen _ => pure spends
  | .toKey input => do
    let wallet ← get
    match wallet.keyImages.get input.kImage with
    | none => pure spends
    | some stored =>
      pure
        { spends with
          moneySpentInIns := addU64 spends.moneySpentInIns input.amount
          spentIndices := spends.spentIndices ++ [i]
          spendTransfers := spends.spendTransfers ++ [stored] }
  | .multisig input => do
    let wallet ← get
    match wallet.multisigTransfers.get input.multisigOutId with
    | none => pure spends
    | some td =>
      let found :=
        { spends with
          spentIndices := spends.spentIndices ++ [i]
          fromTxPool := spends.fromTxPool.insert input.multisigOutId }
      if wallet.unconfirmedMultisigTransfers.contains input.multisigOutId then pure found
      else do
        set { wallet with
          multisigTransfers :=
            wallet.multisigTransfers.set input.multisigOutId (markUnconfirmed td) }
        pure { found with newMultisigSpendDetected := true }

def scanPoolInputs : Nat → List Txin → PoolSpends → Procedure Wallet PoolSpends
  | _, [], spends => pure spends
  | i, input :: rest, spends => do
    let spends ← scanPoolInput i spends input
    scanPoolInputs (i + 1) rest spends

/-- Mark a transfer that an unconfirmed entry spends. An index just behind the transfers is
undefined in the source and stops here. -/
def markSpentByUnconfirmed (txHash : Hash) (stored : TransferIndex) : Procedure Wallet Unit := do
  let wallet ← get
  if wallet.transfers.length < stored.index then pure ()
  else do
    let _ ← Procedure.demand .thrown wallet.transfers[stored.index]?
    set { wallet.updateTransfer stored.index
        (mapFlags fun flags => flags.add TransferFlags.flagSpent) with
      unconfirmedTxs := wallet.unconfirmedTxs.modify txHash (emptyWti false ([], [])) fun wti =>
        { wti with selectedIndicies := wti.selectedIndicies ++ [wallet.indexed stored.index] } }

/-- Remember a transaction of the pool, and make it an unconfirmed entry if it is none yet. -/
def recordPoolTx (coreTime : Nat) (tx : Transaction) (amount : Nat) (td : MoneyTransfer2Details)
    (isIncome : Bool) (spendTransfers : List TransferIndex) : Procedure Wallet Unit := do
  let txHash := getTransactionHash W.core tx.toTransactionPrefix
  modify fun wallet => { wallet with
    unconfirmedInTransfers := wallet.unconfirmedInTransfers.set txHash tx }
  let wallet ← get
  if wallet.unconfirmedTxs.has txHash then pure ()
  else do
    prepareWti W (.unconfirmed txHash) (emptyWti isIncome ([], [])) 0 coreTime tx amount td
    Procedure.forEach (markSpentByUnconfirmed txHash) spendTransfers

/-- What a new transaction of the pool means: income, a spend, or nothing. -/
def recordPoolSpends (txExpirationTsMedian coreTime : Nat) (tx : Transaction) (own : AccOuts)
    (spends : PoolSpends) : Procedure Wallet Unit :=
  let td : MoneyTransfer2Details := ⟨own.outs, spends.spentIndices⟩
  if ((spends.moneySpentInIns == 0 && own.moneyTransfered != 0) ||
      isDerivationUsedToEncrypt W tx own.derivation) && !tx.isTxExpired txExpirationTsMedian then
    recordPoolTx W coreTime tx own.moneyTransfered td true []
  else if spends.moneySpentInIns ≠ 0 ∨ spends.newMultisigSpendDetected = true then
    let amount := if spends.newMultisigSpendDetected then 0
      else subU64 spends.moneySpentInIns (addU64 own.moneyTransfered tx.getTxFee)
    recordPoolTx W coreTime tx amount td false spends.spendTransfers
  else pure ()

/-- Look into a transaction that the scan before did not know. -/
def scanNewPoolTx (txExpirationTsMedian coreTime : Nat) (fromTxPool : List Hash)
    (tx : Transaction) : Procedure Wallet (List Hash) := do
  let extra ← demandEx tx.parseAndValidateTxExtra
  let own ← demandEx (lookupAccOuts W tx extra.txPubKey)
  let spends ← scanPoolInputs 0 tx.vin { fromTxPool }
  recordPoolSpends W txExpirationTsMedian coreTime tx own spends
  pure spends.fromTxPool

/-- One transaction of the pool. A known one is remembered and not looked into again. -/
def scanPoolTx (known : Container Hash Transaction) (txExpirationTsMedian coreTime : Nat)
    (fromTxPool : List Hash) (tx : Transaction) : Procedure Wallet (List Hash) :=
  let txHash := getTransactionHash W.core tx.toTransactionPrefix
  match known.get txHash with
  | some before => do
    modify fun wallet => { wallet with
      unconfirmedInTransfers :=
        if wallet.unconfirmedInTransfers.has txHash then wallet.unconfirmedInTransfers
        else wallet.unconfirmedInTransfers.set txHash before }
    pure fromTxPool
  | none => scanNewPoolTx W txExpirationTsMedian coreTime fromTxPool tx

def scanPoolTxs (known : Container Hash Transaction) (txExpirationTsMedian coreTime : Nat) :
    List (Option Transaction) → List Hash → Procedure Wallet (List Hash)
  | [], fromTxPool => pure fromTxPool
  | blob :: rest, fromTxPool => do
    let tx ← demandEx blob
    let fromTxPool ← scanPoolTx W known txExpirationTsMedian coreTime fromTxPool tx
    scanPoolTxs known txExpirationTsMedian coreTime rest fromTxPool

end PoolScan

/-- The mark of a spend that no block has goes. -/
def clearUnconfirmed (td : TransferDetailsBase) : TransferDetailsBase :=
  if td.flags.spent && td.spentHeight == 0 then
    { td with flags := td.flags.remove TransferFlags.flagSpent }
  else td

/-- The multisig outputs that remembered transactions of the pool spend. -/
def unconfirmedInMultisigTransfers (wallet : Wallet) : List Hash :=
  wallet.unconfirmedInTransfers.toList.flatMap fun entry => entry.2.multisigInputIds

/-- Compare the multisig outputs that the last scan found spent with those of this one. -/
def compareUnconfirmed (fromTxPool : List Hash) (wallet : Wallet) : Wallet :=
  let present := wallet.unconfirmedInMultisigTransfers
  { wallet with
    multisigTransfers := wallet.multisigTransfers.map fun id td =>
      if wallet.unconfirmedMultisigTransfers.contains id && !fromTxPool.contains id &&
        !present.contains id then clearUnconfirmed td
      else td
    unconfirmedMultisigTransfers := fromTxPool }

/-- Scan the pool; the result says whether an alias of the account may change. -/
def scanTxPool (W : WalletEnv) (coreTime : Nat) : PoolReply → Procedure Wallet Bool
  | .noConnection => throw .thrown
  | .busy => throw .thrown
  | .failed => do
    throwIf true
    pure false
  | .ok txs txExpirationTsMedian aliasDetails => do
    let wallet ← get
    let known := wallet.unconfirmedInTransfers
    set { wallet with unconfirmedInTransfers := ∅ }
    let fromTxPool ← scanPoolTxs W known txExpirationTsMedian coreTime txs []
    modify (compareUnconfirmed fromTxPool)
    pure (txs.any fun blob => blob.any (hasRelatedAliasEntryUnconfirmed W aliasDetails))

/-! ## What recording keeps -/

section Recording

variable {W : WalletEnv} {w : Wallet}

theorem markSpentByUnconfirmed_keeps {I : Wallet → Prop} (only : OfEscrowPart I) (txHash : Hash)
    (stored : TransferIndex) : Preserves I (markSpentByUnconfirmed txHash stored) := by
  refine preserves_get_bind fun w holds => ?_
  refine preserves_ite (fun _ => preserves_pure ()) fun _ => ?_
  exact preserves_bind (preserves_demand _ _) fun _ => preserves_set (only holds rfl)

/-- Remembering a transaction is all that recording it does to the pool part. -/
theorem recordPoolTx_keeps {I : Wallet → Prop} (kept : EscrowKept W I) {coreTime amount : Nat}
    {tx : Transaction} {td : MoneyTransfer2Details} {isIncome : Bool}
    {spendTransfers : List TransferIndex}
    (remembered : I { w with unconfirmedInTransfers :=
      w.unconfirmedInTransfers.set (getTransactionHash W.core tx.toTransactionPrefix) tx }) :
    I (final (recordPoolTx W coreTime tx amount td isIncome spendTransfers w)) := by
  unfold recordPoolTx
  refine final_bind remembered fun _ => preserves_get_bind fun w _ => ?_
  refine preserves_ite (fun _ => preserves_pure ()) fun _ => ?_
  refine preserves_bind (kept.prepareWti _ _ _ _ _ _ _) fun _ => ?_
  exact preserves_forEach fun stored _ => markSpentByUnconfirmed_keeps kept.only _ stored

theorem recordPoolSpends_keeps {I : Wallet → Prop} (kept : EscrowKept W I)
    {median coreTime : Nat} {tx : Transaction} {own : AccOuts} {spends : PoolSpends}
    (remembered : I { w with unconfirmedInTransfers :=
      w.unconfirmedInTransfers.set (getTransactionHash W.core tx.toTransactionPrefix) tx })
    (holds : I w) : I (final (recordPoolSpends W median coreTime tx own spends w)) := by
  unfold recordPoolSpends
  dsimp only
  split
  · exact recordPoolTx_keeps kept remembered
  · split
    · exact recordPoolTx_keeps kept remembered
    · exact holds

end Recording

end Virie.Wallet
