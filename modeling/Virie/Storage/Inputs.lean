import Virie.Storage.Chain

/-! # Checking inputs against the main chain

A key input refers to ring members by global index or by transaction; a multisig
input refers to its output by id. Both are resolved in the main chain, checked for
locks and mixing, and outside the checkpoint zone their signatures and attachment
infos are checked. The height of the newest source transaction is collected on the way. -/

open Foundation

namespace Virie

/-- A check of inputs; its state is the height of the newest block used so far. -/
abbrev CheckM (α : Type) := Procedure Nat α

section Inputs

variable (E : Env) (chain : Chain)

def Chain.isTxSpendtimeUnlocked (unlockTime : Nat) : Bool :=
  Virie.isTxSpendtimeUnlocked unlockTime chain.db.getCurrentBlockchainSize chain.coreTime

/-! ## Signatures -/

/-- Whether the transaction's last input, which carries the extra signature of the party
that completed a separately signed transaction, is the given one. -/
def needToCheckExtraSign (tx : Transaction) (inIndex : Nat) : Bool :=
  tx.separatelySigned && inIndex == tx.vin.length - 1

/-- The attachment rule of one input: separately signed inputs commit to attachments
themselves, others must not. -/
def checkInputAttachments (tx : Transaction) (inIndex : Nat) (details : List TxinEtcDetails) :
    Bool :=
  if tx.separatelySigned then
    validateAttachmentInfo E (etcAttachmentInfo details) tx.attachment
      (inIndex != tx.vin.length - 1)
  else (etcAttachmentInfo details).isNone

/-- Check the ring signature of a key input against its output keys. Spent marks are left
to the caller, so that the check serves alternative chains as well. -/
def checkTokeyInput (tx : Transaction) (inIndex : Nat) (txin : TxinToKey) (txPrefixHash : Hash)
    (sig : List Signature) (outputKeys : List PublicKey) : Bool :=
  if txin.keyOffsets.length ≠ outputKeys.length then false
  else if chain.isInCheckpointZone then true
  else
    let extra := needToCheckExtraSign tx inIndex
    let txHashForSignature := preparePrefixHashForSign E tx inIndex txPrefixHash
    checkInputAttachments E tx inIndex txin.etcDetails &&
      outputKeys.length + (if extra then 1 else 0) == sig.length &&
      txHashForSignature != nullHash &&
      E.validateKeyImage txin.kImage &&
      E.checkRingSignature txHashForSignature txin.kImage outputKeys
        (sig.take outputKeys.length) &&
      (!extra || (sig.getLast?.map fun last =>
        E.checkSignature txPrefixHash tx.getTxPubKeyFromExtra last) == some true)

/-- Match signatures with keys in order; a key that does not match is skipped. -/
def checkMultisigSignatures (hash : Hash) : List PublicKey → List Signature → Bool
  | _, [] => true
  | [], _ :: _ => false
  | key :: keys, sig :: sigs =>
    if E.checkSignature hash key sig then checkMultisigSignatures hash keys sigs
    else checkMultisigSignatures hash keys (sig :: sigs)

/-- Check a multisig input against output `outN` of its source transaction. -/
def checkMsInput (tx : Transaction) (inIndex : Nat) (txin : TxinMultisig) (txPrefixHash : Hash)
    (sourceTx : Transaction) (outN : Nat) : Bool :=
  chain.isTxSpendtimeUnlocked sourceTx.getTxUnlockTime &&
    match sourceTx.vout[outN]? with
    | some ⟨amount, .multisig target⟩ =>
      txin.sigsCount == target.minimumSigs && amount == txin.amount &&
        (chain.isInCheckpointZone ||
          (checkInputAttachments E tx inIndex txin.etcDetails &&
            match tx.signatures[inIndex]? with
            | none => false
            | some inputSignatures =>
              let extra := needToCheckExtraSign tx inIndex
              let txHashForSignature := preparePrefixHashForSign E tx inIndex txPrefixHash
              txin.sigsCount + (if extra then 1 else 0) == inputSignatures.length &&
                txHashForSignature != nullHash &&
                decide (txin.sigsCount ≤ target.keys.length) &&
                checkMultisigSignatures E txHashForSignature target.keys
                  (inputSignatures.take txin.sigsCount) &&
                (!extra || (inputSignatures.getLast?.map fun last =>
                  E.checkSignature txPrefixHash tx.getTxPubKeyFromExtra last) == some true)))
    | _ => false

/-! ## Resolving key inputs -/

/-- The transaction and output number a ring member refers to. -/
def Db.resolveOutput (db : Db) (amount : Nat) : TxoutRef → Outcome (Hash × Nat)
  | .byId ref => pure (ref.txId, ref.n)
  | .index i => do
    let out ← Outcome.demand .refused (db.outputs.getSubitem amount i)
    pure (out.txId, out.outNo)

/-- One ring member: its key, checked for locks and mixing. -/
def scanOutputkey (txin : TxinToKey) (o : TxoutRef) : CheckM PublicKey := do
  let (txId, n) ← Procedure.reading fun _ => chain.db.resolveOutput txin.amount o
  let entry ← Procedure.demand .refused (chain.db.transactions.get txId)
  let out ← Procedure.demand .refused entry.tx.vout[n]?
  match out.target with
  | .multisig _ => throw .refused
  | .toKey outtk =>
    Procedure.require
      (isMixattrApplicableForFakeOutsCounter outtk.mixAttr (txin.keyOffsets.length - 1))
    Procedure.require (chain.isTxSpendtimeUnlocked entry.tx.getTxUnlockTime)
    modify fun maxRelatedBlockHeight => max maxRelatedBlockHeight entry.keeperBlockHeight
    pure outtk.key

def scanOutputkeys (txin : TxinToKey) : List TxoutRef → CheckM (List PublicKey)
  | [] => pure []
  | o :: rest => do
    let key ← scanOutputkey chain txin o
    let keys ← scanOutputkeys txin rest
    pure (key :: keys)

/-- The keys of the outputs an input refers to, in offset order. -/
def scanOutputkeysForIndexes (txin : TxinToKey) : CheckM (List PublicKey) := do
  Procedure.require (chain.db.outputs.getItemSize txin.amount != 0)
  let absoluteOffsets ← Procedure.reading fun _ => relativeOutputOffsetsToAbsolute txin.keyOffsets
  scanOutputkeys chain txin absoluteOffsets

def getOutputKeysForInputWithChecks (txin : TxinToKey) : CheckM (List PublicKey) :=
  scanOutputkeysForIndexes chain txin

/-! ## Transactions -/

def checkTxInputToKey (tx : Transaction) (inIndex : Nat) (txin : TxinToKey) (txPrefixHash : Hash)
    (sig : List Signature) : CheckM Unit := do
  let outputKeys ← getOutputKeysForInputWithChecks chain txin
  Procedure.require (checkTokeyInput E chain tx inIndex txin txPrefixHash sig outputKeys)

/-- Check a multisig input; the height of its source replaces the one collected so far. -/
def checkTxInputMultisig (tx : Transaction) (inIndex : Nat) (txin : TxinMultisig)
    (txPrefixHash : Hash) : CheckM Unit := do
  let ms ← Procedure.demand .refused (chain.db.multisigOuts.get txin.multisigOutId)
  Procedure.require (ms.spentHeight == 0)
  let source ← Procedure.demand .refused (chain.db.transactions.get ms.txId)
  Procedure.require (source.spentFlags[ms.outNo]? == some false)
  Procedure.require (checkMsInput E chain tx inIndex txin txPrefixHash source.tx ms.outNo)
  set source.keeperBlockHeight

/-- The signatures of an input, which must be there outside the checkpoint zone. -/
def signaturesOfInput (tx : Transaction) (sigIndex : Nat) : CheckM (List Signature) :=
  if chain.isInCheckpointZone then pure []
  else Procedure.demand .refused tx.signatures[sigIndex]?

/-- Check one input. -/
def checkTxInput (tx : Transaction) (txPrefixHash : Hash) (sigIndex : Nat) (txin : Txin) :
    CheckM Unit := do
  let sig ← signaturesOfInput chain tx sigIndex
  match txin with
  | .gen _ => pure ()
  | .toKey input =>
    Procedure.require (!input.keyOffsets.isEmpty)
    Procedure.require (!chain.db.haveTxKeyimgAsSpent input.kImage)
    checkTxInputToKey E chain tx sigIndex input txPrefixHash sig
  | .multisig input => checkTxInputMultisig E chain tx sigIndex input txPrefixHash

def checkTxInputsFrom (tx : Transaction) (txPrefixHash : Hash) (sigIndex : Nat) :
    List Txin → CheckM Unit
  | [] => pure ()
  | txin :: rest => do
    checkTxInput E chain tx txPrefixHash sigIndex txin
    checkTxInputsFrom tx txPrefixHash (sigIndex + 1) rest

/-- Check all inputs of a transaction and, outside the checkpoint zone, that the inputs
have signatures and the attachments are the ones the extra field commits to. -/
def checkTxInputs (tx : Transaction) (txPrefixHash : Hash) : CheckM Unit := do
  set 0
  checkTxInputsFrom E chain tx txPrefixHash 0 tx.vin
  if chain.isInCheckpointZone then pure ()
  else do
    Procedure.require (tx.signatures.length == tx.vin.length)
    Procedure.require (tx.separatelySigned ||
      validateAttachmentInfo E (extraAttachmentInfo tx.extra) tx.attachment false)

/-- Whether a transaction's inputs are valid in the current state. -/
def txInputsValid (tx : Transaction) (txPrefixHash : Hash) : Outcome Unit :=
  match checkTxInputs E chain tx txPrefixHash 0 with
  | .ok _ _ => pure ()
  | .error reason _ => throw reason

/-- Check the inputs and return the height and id of the newest block they use; the
height is overwritten also when the check fails. -/
def checkTxInputsWithBlock (tx : Transaction) (txPrefixHash : Hash) : CheckM Hash := do
  checkTxInputs E chain tx txPrefixHash
  let maxUsedBlockHeight ← get
  let bei ← Procedure.demand .refused chain.db.blocks[maxUsedBlockHeight]?
  pure (getBlockHash E bei.bl)

/-! ## Spent marks of a transaction -/

/-- An unknown output counts as unspent, an output without a source as spent. -/
def isMultisigOutputSpent (multisigId : Hash) : Bool :=
  match chain.db.multisigOuts.get multisigId with
  | none => false
  | some ms =>
    match chain.db.transactions.get ms.txId with
    | none => true
    | some source => source.spentFlags[ms.outNo]?.getD true

/-- Whether some input of the transaction is already spent in the main chain. -/
def haveTxKeyimgesAsSpent (tx : TransactionPrefix) : Bool :=
  tx.vin.any fun
    | .gen _ => false
    | .toKey input => chain.db.haveTxKeyimgAsSpent input.kImage
    | .multisig input => isMultisigOutputSpent chain input.multisigOutId

end Inputs
end Virie
