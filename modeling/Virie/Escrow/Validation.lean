import Virie.Decryption
import Virie.Wallet.Contracts

/-! # Validating escrow templates

A counterparty of a contract sends templates of transactions: the proposal with its multisig
output, the two releases that come with the acceptance, and the release of a cancellation. The
wallet looks at their inputs, extra entries, outputs and signatures before it goes on. Amounts are
added and subtracted in 64-bit words, and a fee is compared as a signed word. -/

open Foundation

namespace Virie

def txDefaultFee : Nat := 1000000

/-- A 64-bit word read as a signed number. -/
def toInt64 (word : Nat) : Int := if word < 2 ^ 63 then word else (word : Int) - 2 ^ 64

def TxOut.isMultisig (out : TxOut) : Bool :=
  match out.target with
  | .multisig _ => true
  | .toKey _ => false

/-- The number of the first multisig output, or the number of outputs. -/
def getMultisigOutIndex (outs : List TxOut) : Nat := outs.findIdx TxOut.isMultisig

namespace Wallet

/-- A check that only one of the parties makes. -/
def onlyFor (party : Bool) (check : Option Unit) : Option Unit := if party then check else some ()

/-- The functions a wallet reads escrow bodies with. -/
structure EscrowReading extends Reading where
  loadPrivateDetails : String → Option ContractPrivateDetails
  unpackReleaseTemplates : String → Option EscrowReleaseTemplatesBody

section Validation

variable (E : Env) (R : EscrowReading) (keys : AccountKeys)

/-! ## The proposal -/

/-- The amount of a template's input, which has signed all outputs and extra entries. -/
def proposalInput (template : Transaction) : Txin → Option Nat
  | .toKey input => do
    let (nOuts, nExtras) ← etcSignedParts input.etcDetails
    guard (nExtras = template.extra.length)
    guard (nOuts = template.vout.length)
    pure input.amount
  | _ => none

def proposalInputsAmount (template : Transaction) : Option Nat := do
  let amounts ← template.vin.mapM (proposalInput template)
  pure (amounts.foldl addU64 0)

/-- The sum of the key outputs from a number on, and the number of the multisig output. -/
def scanProposalOuts : Nat → List TxOut → Nat × Option Nat → Option (Nat × Option Nat)
  | _, [], found => some found
  | i, out :: rest, (toKeyOutputsAmount, msOutIndex) =>
    match out.target with
    | .multisig _ =>
      if msOutIndex = none then scanProposalOuts (i + 1) rest (toKeyOutputsAmount, some i)
      else none
    | .toKey _ =>
      scanProposalOuts (i + 1) rest (addU64 toKeyOutputsAmount out.amount, msOutIndex)

/-- The multisig output belongs to the two parties of the contract. -/
def proposalMultisigValid (cpd : ContractPrivateDetails) (txOnetimeSecretKey : SecretKey)
    (msOutIndex : Nat) (ms : TxoutMultisig) : Bool :=
  decide (ms.minimumSigs = 2) && decide (ms.keys.length = 2) &&
    match derivePublicKeyFromTargetAddress R.toSending cpd.aAddr txOnetimeSecretKey msOutIndex,
      derivePublicKeyFromTargetAddress R.toSending cpd.bAddr txOnetimeSecretKey msOutIndex with
    | some (aKey, _), some (bKey, _) => decide (ms.keys = [aKey, bKey] ∨ ms.keys = [bKey, aKey])
    | _, _ => false

/-- The sum of the three amounts of a contract and a fee. -/
def minMsAmount (cpd : ContractPrivateDetails) (fee : Nat) : Nat :=
  addU64 (addU64 (addU64 cpd.amountAPledge cpd.amountBPledge) cpd.amountToPay) fee

/-- The amounts of a proposal suffice for its contract. -/
def proposalAmountsValid (cpd : ContractPrivateDetails)
    (msAmount inputsAmount toKeyOutputsAmount : Nat) : Bool :=
  decide (addU64 cpd.amountBPledge cpd.amountToPay > 0) &&
    decide (msAmount ≥ minMsAmount cpd txDefaultFee) &&
    decide (inputsAmount > toKeyOutputsAmount) &&
    decide (inputsAmount - toKeyOutputsAmount ≥ addU64 cpd.amountAPledge cpd.amountToPay)

/-- The details, the id and the contract of a proposal that passes. -/
def validateEscrowProposal (isIncome : Bool) (tx : Transaction) (prop : ProposalBody) :
    Option (List PayloadItem × Hash × ContractPrivateDetails) := do
  guard (tx.getTxUnlockTime = 0)
  guard (tx.getTxExpirationTime = 0)
  let template := prop.txTemplate
  guard (template.vin ≠ [])
  let inputsAmount ← proposalInputsAmount template
  let decryptedItems := decryptPayloadItems R.toReading isIncome template keys
  let details ← getFirstServiceAttachmentById decryptedItems bcEscrowServiceId
    bcEscrowServiceInstructionPrivateDetails
  let cpd ← R.loadPrivateDetails details.body
  guard (template.getTxFlags = txFlagSignatureModeSeparate)
  guard (template.getTxExpirationTime ≠ 0)
  guard (template.getTxUnlockTime = 0)
  let (toKeyOutputsAmount, found) ← scanProposalOuts 0 template.vout (0, none)
  let msOutIndex ← found
  let msOut ← template.vout[msOutIndex]?
  match msOut.target with
  | .toKey _ => none
  | .multisig ms => do
    guard (proposalMultisigValid R cpd prop.txOnetimeSecretKey msOutIndex ms)
    guard (proposalAmountsValid cpd msOut.amount inputsAmount toKeyOutputsAmount)
    pure (decryptedItems, getMultisigOutId E template.toTransactionPrefix msOutIndex, cpd)

/-! ## Releases

The templates of the two releases and of a cancellation spend the multisig output of the contract
and pay keys only. -/

/-- The one input of a template, which spends the multisig output of the contract. -/
def releaseInput (tx : Transaction) (cpd : ContractPrivateDetails) (sourceMsOut : TxoutMultisig)
    (sourceAmount : Nat) (msId : Hash) (minimumFee : Nat) : Option TxinMultisig :=
  match tx.vin with
  | [.multisig ms] => do
    guard (ms.multisigOutId = msId)
    guard (sourceMsOut.minimumSigs = 2)
    guard (ms.sigsCount = sourceMsOut.minimumSigs)
    guard (ms.amount = sourceAmount)
    guard (ms.amount ≥ minMsAmount cpd minimumFee)
    guard (etcSignedParts ms.etcDetails = none)
    guard (etcAttachmentInfo ms.etcDetails = none)
    pure ms
  | _ => none

/-- The only service attachment of an extra field. -/
def releaseService (tx : Transaction) : Option TxServiceAttachment :=
  match tx.extra.filterMap fun
      | .txServiceAttachment tsa => some tsa
      | _ => none with
  | [tsa] => some tsa
  | _ => none

/-- What the outputs of a template pay, in words: altogether, to a party, and to nobody. -/
structure ReleasePayments where
  totalOutputsAmount : Nat := 0
  outputsToPartyAmount : Nat := 0
  outputsToNullAddrAmount : Nat := 0
deriving DecidableEq

def ReleasePayments.pay (paid : ReleasePayments) (amount : Nat) (key ephemeralPubKey : PublicKey) :
    ReleasePayments where
  totalOutputsAmount := addU64 paid.totalOutputsAmount amount
  outputsToPartyAmount :=
    if key = ephemeralPubKey then addU64 paid.outputsToPartyAmount amount
    else paid.outputsToPartyAmount
  outputsToNullAddrAmount :=
    if key = ephemeralPubKey then paid.outputsToNullAddrAmount
    else if key = nullPkey then addU64 paid.outputsToNullAddrAmount amount
    else paid.outputsToNullAddrAmount

/-- Add up the outputs from a number on. Only outputs to keys are allowed. -/
def scanReleaseOuts (der : KeyDerivation) (spendPublicKey : PublicKey) :
    Nat → List TxOut → ReleasePayments → Option ReleasePayments
  | _, [], paid => some paid
  | i, out :: rest, paid =>
    match out.target with
    | .toKey otk => do
      let ephemeralPubKey ← R.derivePublicKey der i spendPublicKey
      scanReleaseOuts der spendPublicKey (i + 1) rest
        (paid.pay out.amount otk.key ephemeralPubKey)
    | .multisig _ => none

/-- The payments of a template, as the holder of the keys sees them. -/
def releasePayments (tx : Transaction) (partyAddr : AccountPublicAddress) :
    Option ReleasePayments := do
  let der ← R.generateKeyDerivation tx.getTxPubKeyFromExtra keys.viewSecretKey
  scanReleaseOuts R der partyAddr.spendPublicKey 0 tx.vout {}

/-- The fee of a template as a signed word is at least a minimum. -/
def releaseFeeValid (msAmount totalOutputsAmount minimumFee : Nat) : Bool :=
  decide (toInt64 (subU64 msAmount totalOutputsAmount) ≥ toInt64 minimumFee)

/-- The hash that the input of a template signs. -/
def releaseHashForSignature (tx : Transaction) : Hash :=
  preparePrefixHashForSign E tx 0 (getTransactionHash E tx.toTransactionPrefix)

/-- The other party has signed a release: the position of the own key tells which signature is
the other one's. -/
def releaseSigned (tx : Transaction) (sourceMsOut : TxoutMultisig) (sourceMsOutIndex : Nat)
    (sourceTx : Transaction) : Bool :=
  match tx.signatures with
  | [sigs] =>
    match R.deriveEphemeralKeyHelper keys sourceTx.getTxPubKeyFromExtra sourceMsOutIndex with
    | some ephemeral =>
      let msOutKeyAIndex := sourceMsOut.keys.idxOf ephemeral.pub
      decide (sourceMsOut.keys.length = 2) && decide (sigs.length = 2) &&
        decide (msOutKeyAIndex < sourceMsOut.keys.length) &&
        match sourceMsOut.keys[1 - msOutKeyAIndex]?, sigs[1 - msOutKeyAIndex]? with
        | some key, some sig => E.checkSignature (releaseHashForSignature E tx) key sig
        | _, _ => false
    | none => false
  | _ => false

/-- The extra field of a release of either type. -/
def releaseExtraValid (tx : Transaction) (releaseTypeNormal : Bool) : Bool :=
  decide (tx.getTxFlags = 0) && decide (tx.getTxExpirationTime = 0) &&
    decide (tx.getTxUnlockTime = 0) &&
    (releaseService tx).any fun tsa =>
      decide (tsa.flags = 0) && decide (tsa.serviceId = bcEscrowServiceId) &&
        decide (tsa.instruction =
          if releaseTypeNormal then bcEscrowServiceInstructionReleaseNormal
          else bcEscrowServiceInstructionReleaseBurn) &&
        tsa.security.isEmpty &&
        validateAttachmentInfo E (extraAttachmentInfo tx.extra) tx.attachment false

/-- A normal release pays the pledge back, a burning one burns the three amounts. -/
def releaseAmountsValid (releaseTypeNormal : Bool) (cpd : ContractPrivateDetails)
    (paid : ReleasePayments) : Bool :=
  if releaseTypeNormal then decide (paid.outputsToPartyAmount ≥ cpd.amountAPledge)
  else
    decide (paid.outputsToNullAddrAmount = paid.totalOutputsAmount) &&
      decide (paid.outputsToNullAddrAmount =
        addU64 (addU64 cpd.amountAPledge cpd.amountBPledge) cpd.amountToPay)

def validateEscrowRelease (tx : Transaction) (releaseTypeNormal : Bool)
    (cpd : ContractPrivateDetails) (sourceMsOut : TxoutMultisig) (msId : Hash)
    (sourceMsOutIndex : Nat) (sourceTx : Transaction) (sourceAmount : Nat) : Option Unit := do
  let ms ← releaseInput tx cpd sourceMsOut sourceAmount msId txDefaultFee
  guard (releaseExtraValid E tx releaseTypeNormal)
  let paid ← releasePayments R keys tx cpd.aAddr
  guard (releaseAmountsValid releaseTypeNormal cpd paid)
  guard (releaseFeeValid ms.amount paid.totalOutputsAmount txDefaultFee)
  guard (releaseSigned E R keys tx sourceMsOut sourceMsOutIndex sourceTx)

/-- The id and the release templates of an acceptance that passes. Only the party A looks at the
templates. -/
def validateEscrowContract (tx : Transaction) (cpd : ContractPrivateDetails) (isA : Bool)
    (decryptedItems : List PayloadItem) : Option (Hash × EscrowReleaseTemplatesBody) := do
  let n := getMultisigOutIndex tx.vout
  let out ← tx.vout[n]?
  match out.target with
  | .toKey _ => none
  | .multisig ms => do
    let msId := getMultisigOutId E tx.toTransactionPrefix n
    guard (msId ≠ nullHash)
    let tsa ← getFirstServiceAttachmentById decryptedItems bcEscrowServiceId
      bcEscrowServiceInstructionReleaseTemplates
    guard ((tsa.flags &&& txServiceAttachmentEncryptBody) ≠ 0)
    guard (tsa.security = [])
    let rtb ← R.unpackReleaseTemplates tsa.body
    onlyFor isA
      (validateEscrowRelease E R keys rtb.txNormalTemplate true cpd ms msId n tx out.amount)
    onlyFor isA
      (validateEscrowRelease E R keys rtb.txBurnTemplate false cpd ms msId n tx out.amount)
    guard (tx.getTxFlags = txFlagSignatureModeSeparate)
    guard (tx.getTxExpirationTime ≠ 0)
    guard (tx.getTxUnlockTime = 0)
    pure (msId, rtb)

/-! ## The cancellation -/

/-- The extra field of the release of a cancellation. -/
def cancelExtraValid (tx : Transaction) : Bool :=
  decide (tx.getTxFlags = 0) && decide (tx.getTxExpirationTime ≠ 0) &&
    decide (tx.getTxUnlockTime = 0) &&
    (releaseService tx).any fun tsa =>
      decide (tsa.flags = 0) && decide (tsa.serviceId = bcEscrowServiceId) &&
        decide (tsa.instruction = bcEscrowServiceInstructionReleaseCancel) &&
        validateAttachmentInfo E (extraAttachmentInfo tx.extra) tx.attachment false

/-- The party A has signed; the place of its signature is the one that is not null. -/
def cancelSigned (tx : Transaction) (sourceMsOut : TxoutMultisig) : Bool :=
  match tx.signatures with
  | [[first, second]] =>
    decide (sourceMsOut.keys.length = 2) &&
      let (aSignIndex, sig) := if first ≠ nullSig then (0, first) else (1, second)
      match sourceMsOut.keys[aSignIndex]? with
      | some key => E.checkSignature (releaseHashForSignature E tx) key sig
      | none => false
  | _ => false

def validateEscrowCancelRelease (tx : Transaction) (msId : Hash) (cpd : ContractPrivateDetails)
    (sourceTx : Transaction) (sourceMsOutIndex minimumReleaseFee : Nat) : Option Unit := do
  let out ← sourceTx.vout[sourceMsOutIndex]?
  match out.target with
  | .toKey _ => none
  | .multisig sourceMsOut => do
    let ms ← releaseInput tx cpd sourceMsOut out.amount msId minimumReleaseFee
    guard (cancelExtraValid E tx)
    let paid ← releasePayments R keys tx cpd.bAddr
    guard (paid.outputsToPartyAmount ≥ cpd.amountBPledge)
    guard (releaseFeeValid ms.amount paid.totalOutputsAmount minimumReleaseFee)
    guard (cancelSigned E tx sourceMsOut)

/-- A request to cancel a contract. Only the party B looks at its template. -/
def validateEscrowCancelProposal (minimumReleaseFee : Nat) (tx : Transaction)
    (ectb : EscrowCancelTemplatesBody) (decryptedItems : List PayloadItem) (msId : Hash)
    (cpd : ContractPrivateDetails) (proposalTemplateTx : Transaction) : Option Unit := do
  let tsa ← getFirstServiceAttachmentById decryptedItems bcEscrowServiceId
    bcEscrowServiceInstructionCancelProposal
  guard ((tsa.flags &&& txServiceAttachmentEncryptBody) ≠ 0)
  let isA := decide (cpd.aAddr = keys.accountAddress)
  let isB := decide (cpd.bAddr = keys.accountAddress)
  guard ((isA ^^ isB) = true)
  onlyFor isB
    (validateEscrowCancelRelease E R keys ectb.txCancelTemplate msId cpd proposalTemplateTx
      (getMultisigOutIndex proposalTemplateTx.vout) minimumReleaseFee)
  guard (tx.getTxFlags = 0)
  guard (tx.getTxUnlockTime = 0)
  guard (tx.getTxExpirationTime = 0)

end Validation

end Wallet
end Virie
