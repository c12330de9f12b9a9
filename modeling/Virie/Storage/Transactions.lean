import Virie.Storage.Inputs

/-! # Connecting one transaction

A transaction enters the main chain in steps: its alias entry, its service
attachments, its inputs and its outputs. A step that fails undoes the earlier ones. -/

open Foundation

namespace Virie

section Transactions

variable (E : Env)

/-! ## Aliases -/

/-- The characters of alias names: digits, lower-case letters, `-` and `.`. -/
def aliasAlphabet (c : Char) : Bool := c.isDigit || ('a' ≤ c && c ≤ 'z') || c == '-' || c == '.'

def validateAliasName (al : String) : Bool :=
  decide (al.length ≤ aliasNameMaxLen) && al.toList.all aliasAlphabet

def getAliasCost (name : String) : ChainM Nat := do
  let medianFee ← getTxFeeMedian
  pure (getAliasCostFromFee name (if medianFee = 0 then aliasVeryInitalCost else medianFee))

def validateAliasReward (tx : TransactionPrefix) (name : String) : ChainM Unit := do
  let feeForAlias ← getAliasCost name
  Procedure.require (decide (tx.getAmountForZeroPubkeys ≥ feeForAlias))

/-- A new name must be paid for, and a short one signed by the authority. -/
def prevalidateAliasInfo (tx : TransactionPrefix) (eae : ExtraAliasEntry) : ChainM Unit := do
  Procedure.require (validateAliasName eae.aliasName)
  let chain ← get
  if !((chain.db.aliases.get eae.aliasName).getD []).isEmpty then pure ()
  else do
    validateAliasReward tx eae.aliasName
    if eae.aliasName.length < aliasMinimumPublicShortNameAllowed then
      Procedure.require (eae.sign.length == 1)
      Procedure.require ((eae.sign.getLast?.map fun sign =>
        E.checkSignature (getSignBuffHashForAliasUpdate E eae) E.aliasValidationPubkey sign)
          == some true)
    else pure ()

def processBlockchainTxExtra (tx : TransactionPrefix) : ChainM Unit := do
  let ei ← Procedure.demand .refused tx.parseAndValidateTxExtra
  match ei.namedAlias with
  | some entry => do
    prevalidateAliasInfo E tx entry
    onDb (putAliasInfo E entry)
  | none => pure ()

/-! ## Attachment services -/

/-- The service attachments of a transaction, in order. -/
def serviceAttachments (tx : Transaction) : List TxServiceAttachment :=
  tx.attachment.filterMap fun
    | .txServiceAttachment value => some value
    | _ => none

def processBlockchainTxAttachments (tx : Transaction) (h : Nat) (blId : Hash) (timestamp : Nat)
    (chain : Chain) : Chain :=
  { chain with
    services := chain.services ++
      (serviceAttachments tx).zipIdx.map fun (at', count) =>
        .push at' count tx h blId timestamp }

def unprocessBlockchainTxAttachments (tx : Transaction) (h timestamp : Nat) (chain : Chain) :
    Chain :=
  { chain with
    services := chain.services ++
      (serviceAttachments tx).zipIdx.reverse.map fun (at', count) =>
        .pop at' count tx h timestamp }

/-! ## Connecting -/

/-- Spend the inputs of a transaction in order. -/
def addTransactionInputs (blHeight : Nat) (vin : List Txin) : DbM Unit :=
  Procedure.forEach (addTransactionInput blHeight) vin

/-- Undo the steps before the outputs of a transaction; a failure to purge the key images
is passed over. -/
def undoTransactionSteps (tx : Transaction) (blHeight timestamp : Nat) (strictCheck : Bool) :
    ChainM Unit := do
  let _ ← Procedure.attempt (onDb (purgeTransactionKeyimagesFromBlockchain strictCheck tx.vin))
  onDb (unprocessBlockchainTxExtra tx.toTransactionPrefix)
  modify (unprocessBlockchainTxAttachments tx blHeight timestamp)

/-- Index the outputs of a transaction and store it. -/
def storeTransaction (tx : Transaction) (txId : Hash) (blHeight : Nat) : DbM Unit := do
  let globalOutputIndexes ← pushTransactionToGlobalOutsIndex E tx.toTransactionPrefix txId
  modify fun db => { db with
    transactions := db.transactions.set txId
      { tx
        keeperBlockHeight := blHeight
        globalOutputIndexes
        spentFlags := List.replicate tx.vout.length false } }

/-- Connect a transaction: alias entry, attachments, inputs, outputs. -/
def addTransactionFromBlock (tx : Transaction) (txId blId : Hash) (blHeight timestamp : Nat) :
    ChainM Unit := do
  let expired ← isTxExpired tx.toTransactionPrefix
  Procedure.require (!expired)
  processBlockchainTxExtra E tx.toTransactionPrefix
  modify (processBlockchainTxAttachments tx blHeight blId timestamp)
  let spent ← Procedure.attempt (onDb (addTransactionInputs blHeight tx.vin))
  if !spent then do
    undoTransactionSteps tx blHeight timestamp false
    throw .refused
  else do
    let chain ← get
    if chain.db.transactions.has txId then do
      undoTransactionSteps tx blHeight timestamp true
      throw .refused
    else onDb (storeTransaction E tx txId blHeight)

end Transactions
end Virie
