import Virie.Offers.Service

/-! # The state of a wallet

What the wallet keeps between its operations: the chain it has seen, the outputs it
owns, the tables of indices into them, payments, the transfer history, multisig
outputs and escrow contracts. Account keys, the attachment cipher and the checks of
escrow bodies enter as one record of functions. -/

open Foundation

namespace Virie

def nullKi : KeyImage := ⟨0⟩

def bcEscrowServiceId : String := "E"
def bcEscrowServiceInstructionProposal : String := "PROP"
def bcEscrowServiceInstructionReleaseTemplates : String := "REL_TEMPL"
def bcEscrowServiceInstructionCancelProposal : String := "CAN_PROP"
def bcEscrowServiceInstructionReleaseNormal : String := "REL_N"
def bcEscrowServiceInstructionReleaseCancel : String := "REL_C"
def bcEscrowServiceInstructionReleaseBurn : String := "REL_B"
def bcEscrowServiceInstructionPrivateDetails : String := "DETAILS"
def bcPaymentIdServiceId : String := "P"

namespace Wallet

/-! ## Escrow contracts -/

structure ContractPrivateDetails where
  title : String
  comment : String
  aAddr : AccountPublicAddress
  bAddr : AccountPublicAddress
  amountToPay : Nat
  amountAPledge : Nat
  amountBPledge : Nat
deriving DecidableEq, Inhabited

structure ProposalBody where
  txTemplate : Transaction
  txOnetimeSecretKey : SecretKey
deriving DecidableEq, Inhabited

structure EscrowReleaseTemplatesBody where
  txNormalTemplate : Transaction
  txBurnTemplate : Transaction
deriving DecidableEq, Inhabited

structure EscrowCancelTemplatesBody where
  txCancelTemplate : Transaction
deriving DecidableEq, Inhabited

/-- The states of a contract; `none` is the zero of a freshly inserted entry. -/
inductive ContractState where
  | none
  | proposalSent
  | contractAccepted
  | contractReleasedNormal
  | contractReleasedBurned
  | contractCancelProposalSent
  | contractReleasedCancelled
deriving DecidableEq, Inhabited

/-- `height` is the height of the last change of the state. -/
structure EscrowContractDetails where
  state : ContractState
  isA : Bool
  privateDetails : ContractPrivateDetails
  expirationTime : Nat
  cancelExpirationTime : Nat
  timestamp : Nat
  height : Nat
  paymentId : String
  proposal : ProposalBody
  releaseBody : EscrowReleaseTemplatesBody
  cancelBody : EscrowCancelTemplatesBody
deriving DecidableEq, Inhabited

/-! ## Outputs -/

/-- The bits of the flags of a transfer. -/
structure TransferFlags where
  spent : Bool := false
  blocked : Bool := false
  escrowProposalReservation : Bool := false
  minedTransfer : Bool := false
  coldSigReservation : Bool := false
deriving DecidableEq, Inhabited

namespace TransferFlags

def flagSpent : TransferFlags := { spent := true }
def flagBlocked : TransferFlags := { blocked := true }
def flagEscrowProposalReservation : TransferFlags := { escrowProposalReservation := true }
def flagMinedTransfer : TransferFlags := { minedTransfer := true }
def flagColdSigReservation : TransferFlags := { coldSigReservation := true }

/-- The bits of either operand. -/
def add (a b : TransferFlags) : TransferFlags where
  spent := a.spent || b.spent
  blocked := a.blocked || b.blocked
  escrowProposalReservation := a.escrowProposalReservation || b.escrowProposalReservation
  minedTransfer := a.minedTransfer || b.minedTransfer
  coldSigReservation := a.coldSigReservation || b.coldSigReservation

/-- The bits of the first operand that the second one lacks. -/
def remove (a b : TransferFlags) : TransferFlags where
  spent := a.spent && !b.spent
  blocked := a.blocked && !b.blocked
  escrowProposalReservation := a.escrowProposalReservation && !b.escrowProposalReservation
  minedTransfer := a.minedTransfer && !b.minedTransfer
  coldSigReservation := a.coldSigReservation && !b.coldSigReservation

/-- Whether the operands share a bit. -/
def meets (a b : TransferFlags) : Bool :=
  a.spent && b.spent || a.blocked && b.blocked ||
    a.escrowProposalReservation && b.escrowProposalReservation ||
    a.minedTransfer && b.minedTransfer || a.coldSigReservation && b.coldSigReservation

end TransferFlags

structure TransactionWalletInfo where
  blockHeight : Nat
  blockTimestamp : Nat
  tx : Transaction
deriving DecidableEq, Inhabited

/-- An output of a transaction. -/
structure OutputRef where
  tx : Transaction
  internalOutputIndex : Nat
deriving DecidableEq, Inhabited

structure TransferDetailsBase where
  ptxWalletInfo : TransactionWalletInfo
  internalOutputIndex : Nat
  spentHeight : Nat
  flags : TransferFlags
deriving DecidableEq, Inhabited

structure TransferDetails extends TransferDetailsBase where
  globalOutputIndex : Nat
  keyImage : KeyImage
deriving DecidableEq, Inhabited

namespace TransferDetailsBase

open TransferFlags

def output? (td : TransferDetailsBase) : Option TxOut :=
  td.ptxWalletInfo.tx.vout[td.internalOutputIndex]?

def amount (td : TransferDetailsBase) : Nat := (td.output?.map TxOut.amount).getD 0

def isSpent (td : TransferDetailsBase) : Bool := td.flags.spent

def isSpendable (td : TransferDetailsBase) : Bool :=
  !td.flags.meets (((flagSpent.add flagBlocked).add flagEscrowProposalReservation).add
    flagColdSigReservation)

/-- The output a transfer stands for. -/
def ref (td : TransferDetailsBase) : OutputRef := ⟨td.ptxWalletInfo.tx, td.internalOutputIndex⟩

end TransferDetailsBase

/-- An index into the transfers as a table of the wallet holds it. The `output` is no field of
the source: it says for which output the index was stored, and no function reads it. -/
structure TransferIndex where
  index : Nat
  output : Option OutputRef
deriving DecidableEq, Inhabited

structure PaymentDetails where
  txHash : Hash
  amount : Nat
  blockHeight : Nat
  unlockTime : Nat
deriving DecidableEq, Inhabited

/-- Amounts a transaction spent and received. -/
structure WalletTransferInfoDetails where
  rcv : List Nat
  spn : List Nat
deriving DecidableEq, Inhabited

/-- An entry of the transfer history, or of the unconfirmed transactions. -/
structure WalletTransferInfo where
  amount : Nat
  timestamp : Nat
  height : Nat
  unlockTime : Nat
  paymentId : String
  remoteAddresses : List String
  recipientsAliases : List String
  comment : String
  isIncome : Bool
  td : WalletTransferInfoDetails
  fee : Nat
  showSender : Bool
  tx : Transaction
  selectedIndicies : List TransferIndex
deriving DecidableEq, Inhabited

structure ExpirationEntryInfo where
  selectedTransfers : List TransferIndex
  changeAmount : Nat
  expirationTime : Nat
  relatedTxId : Hash
deriving DecidableEq, Inhabited

/-- A transfer waiting for its cold signature: since when, and which output it was. -/
structure ColdSignReserve where
  time : Nat
  output : Option OutputRef
deriving DecidableEq, Inhabited

end Wallet

open Wallet

structure Wallet where
  /-- The ids of the processed blocks, from the genesis up. -/
  blockchain : List Hash
  transfers : List TransferDetails
  multisigTransfers : Container Hash TransferDetailsBase
  /-- Payments under their ids; one id may have many. -/
  payments : List (String × PaymentDetails)
  keyImages : Container KeyImage TransferIndex
  pendingKeyImages : Container PublicKey KeyImage
  coldSignReserves : Container Nat ColdSignReserve
  transferHistory : List WalletTransferInfo
  unconfirmedInTransfers : Container Hash Transaction
  unconfirmedTxs : Container Hash WalletTransferInfo
  unconfirmedMultisigTransfers : List Hash
  contracts : Container Hash EscrowContractDetails
  moneyExpirations : List ExpirationEntryInfo
  /-- The spendable transfers by amount, from the last time they were collected. -/
  foundFreeAmounts : Container Nat (Container Nat (Option OutputRef))
  fakeOutputsCount : Nat
  /-- The counter of new blocks that a pull of blocks fills in for its caller. -/
  blocksAdded : Nat

/-- The account of a wallet and what its code calls outside. -/
structure WalletEnv where
  core : Env
  watchOnly : Bool
  createtime : Nat
  publicAddress : AccountPublicAddress
  /-- The derivation of a transaction key with the view key of the account. -/
  generateKeyDerivation : PublicKey → Option KeyDerivation
  /-- The one-time key of an output number for the spend key of the account. -/
  derivePublicKey : KeyDerivation → Nat → Option PublicKey
  /-- The one-time key and the key image of an output of the account. -/
  generateKeyImageHelper : PublicKey → Nat → PublicKey × KeyImage
  getDerivationXor : KeyDerivation → Nat
  derivationHash : KeyDerivation → Nat
  genesisTxPubKey : PublicKey
  /-- The output of the genesis coinbase that belongs to the account. -/
  genesisOffset : Option Nat
  addressAsStr : AccountPublicAddress → String
  /-- The extra fields and attachments, decrypted as the receiver or as the sender does. -/
  decryptPayloadItems : Bool → Transaction → List PayloadItem
  unpackProposal : String → Option ProposalBody
  loadPrivateDetails : String → Option ContractPrivateDetails
  unpackCancelTemplates : String → Option EscrowCancelTemplatesBody
  validateEscrowProposal : Bool → Transaction → ProposalBody →
    Option (List PayloadItem × Hash × ContractPrivateDetails)
  validateEscrowContract : Transaction → ContractPrivateDetails → Bool → List PayloadItem →
    Option (Hash × EscrowReleaseTemplatesBody)
  /-- The check of a request to cancel, with the least fee of the release. -/
  validateEscrowCancelProposal : Nat → Transaction → EscrowCancelTemplatesBody →
    List PayloadItem → Hash → ContractPrivateDetails → Transaction → Bool

/-- A wallet with its spend key, whose key images are never the null image. -/
structure WalletEnv.Full (W : WalletEnv) : Prop where
  signs : W.watchOnly = false
  image_ne : ∀ txPubKey o, (W.generateKeyImageHelper txPubKey o).2 ≠ nullKi

/-- An account for concrete runs, whose escrow checks accept everything as about contract 7. -/
def WalletEnv.plain : WalletEnv where
  core := .plain
  watchOnly := false
  createtime := 0
  publicAddress := ⟨⟨1⟩, ⟨2⟩⟩
  generateKeyDerivation pub := some ⟨pub.val⟩
  derivePublicKey derivation o := some ⟨derivation.val + o⟩
  generateKeyImageHelper pub o := (⟨pub.val + o⟩, ⟨pub.val + o + 1⟩)
  getDerivationXor derivation := derivation.val
  derivationHash derivation := derivation.val
  genesisTxPubKey := nullPkey
  genesisOffset := none
  addressAsStr _ := ""
  decryptPayloadItems _ tx := tx.extra ++ tx.attachment
  unpackProposal _ := some default
  loadPrivateDetails _ := some default
  unpackCancelTemplates _ := none
  validateEscrowProposal _ _ _ := some ([], ⟨7⟩, default)
  validateEscrowContract _ _ _ _ := some (⟨7⟩, default)
  validateEscrowCancelProposal _ _ _ _ _ _ _ := false

namespace Wallet

/-- A wallet before its first refresh. -/
def new : Wallet where
  blockchain := []
  transfers := []
  multisigTransfers := ∅
  payments := []
  keyImages := ∅
  pendingKeyImages := ∅
  coldSignReserves := ∅
  transferHistory := []
  unconfirmedInTransfers := ∅
  unconfirmedTxs := ∅
  unconfirmedMultisigTransfers := []
  contracts := ∅
  moneyExpirations := []
  foundFreeAmounts := ∅
  fakeOutputsCount := 0
  blocksAdded := 0

/-- An index as a table stores it: with the output it stands for now. -/
def indexed (wallet : Wallet) (i : Nat) : TransferIndex :=
  ⟨i, wallet.transfers[i]?.map fun td => td.ref⟩

/-- Drop the collected free amounts, as most exceptions do. -/
def exceptionHandler (wallet : Wallet) : Wallet := { wallet with foundFreeAmounts := ∅ }

/-- Raise an exception of the kind whose macro calls the exception handler. -/
def throwIf (condition : Bool) : Procedure Wallet Unit :=
  if condition then do
    modify exceptionHandler
    throw .thrown
  else pure ()

/-- Raise an exception of the kind that only throws: a lost connection, a busy daemon. -/
def onlyThrowIf (condition : Bool) : Procedure Wallet Unit :=
  if condition then throw .thrown else pure ()

/-- The value of an option; the exception handler runs where there is none. -/
def demandEx {α : Type} : Option α → Procedure Wallet α
  | some value => pure value
  | none => do
    modify exceptionHandler
    throw .thrown

/-- Change one transfer. -/
def updateTransfer (wallet : Wallet) (i : Nat) (change : TransferDetails → TransferDetails) :
    Wallet :=
  { wallet with transfers := wallet.transfers.modify i change }

def mapFlags (change : TransferFlags → TransferFlags) (td : TransferDetails) : TransferDetails :=
  { td with flags := change td.flags }

section Rules

variable {w w' : Wallet} {condition : Bool}

@[simp] theorem throwIf_ok {result : Unit} :
    throwIf condition w = .ok result w' ↔ condition = false ∧ w = w' := by
  cases condition with
  | true =>
    simp only [throwIf, ↓reduceIte, reduceCtorEq, false_and, iff_false]
    intro ran
    obtain ⟨_, _, _, stopped⟩ := Procedure.bind_ok.mp ran
    exact Procedure.throw_ok.mp stopped
  | false => simp only [throwIf, Bool.false_eq_true, ↓reduceIte, Procedure.pure_ok, true_and]

@[simp] theorem onlyThrowIf_ok {result : Unit} :
    onlyThrowIf condition w = .ok result w' ↔ condition = false ∧ w = w' := by
  cases condition with
  | true => simp only [onlyThrowIf, ↓reduceIte, Procedure.throw_ok, reduceCtorEq, false_and]
  | false => simp only [onlyThrowIf, Bool.false_eq_true, ↓reduceIte, Procedure.pure_ok, true_and]

@[simp] theorem demandEx_ok {α : Type} {option : Option α} {result : α} :
    demandEx option w = .ok result w' ↔ option = some result ∧ w = w' := by
  cases option with
  | some value => simp only [demandEx, Procedure.pure_ok, Option.some.injEq]
  | none =>
    simp only [demandEx, reduceCtorEq, false_and, iff_false]
    intro ran
    obtain ⟨_, _, _, stopped⟩ := Procedure.bind_ok.mp ran
    exact Procedure.throw_ok.mp stopped

/-- A run that succeeds, with the state it ends in. -/
theorem ok_of_succeeds {α : Type} (run : EStateM.Result Stop Wallet α)
    (succeeds : (Procedure.answer run).succeeds = true) :
    ∃ value, run = .ok value (Procedure.final run) := by
  cases run with
  | ok value after => exact ⟨value, rfl⟩
  | error reason after => cases succeeds

end Rules

end Wallet
end Virie
