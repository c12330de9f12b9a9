import Virie.Construction
import Virie.Wallet.State

/-! # What a transaction means to an account

Which outputs a transaction gives to the account of the wallet, and what the escrow
attachments of a transaction do to the contracts the wallet keeps. A history entry is
filled in while its attachments are handled. -/

open Foundation

namespace Virie

/-- Subtraction of 64-bit words. -/
def subU64 (a b : Nat) : Nat := (a + 2 ^ 64 - b % 2 ^ 64) % 2 ^ 64

/-- The first attachment of a service with an instruction. -/
def getFirstServiceAttachmentById (items : List PayloadItem) (id instruction : String) :
    Option TxServiceAttachment :=
  items.findSome? fun
    | .txServiceAttachment tsa =>
      if tsa.serviceId = id ∧ tsa.instruction = instruction then some tsa else none
    | _ => none

def getPaymentIdFromTx (att : List PayloadItem) : Option String :=
  (getFirstServiceAttachmentById att bcPaymentIdServiceId "").map TxServiceAttachment.body

/-- Whether the interface shows a transaction as the acceptance of an escrow proposal. -/
def isEscrowTransfer (tx : Transaction) : Bool :=
  !tx.isCoinbase &&
  (tx.parseAndValidateTxExtra.bind TxExtraInfo.namedAlias).isNone &&
  !(tx.attachment.findSome? fun
      | .txServiceAttachment a => some a
      | _ => none).any (fun a => a.serviceId = bcOffersServiceId &&
        [bcOffersServiceInstructionAdd, bcOffersServiceInstructionUpd,
          bcOffersServiceInstructionDel].contains a.instruction) &&
  ((getFirstServiceAttachmentById tx.extra bcEscrowServiceId
      bcEscrowServiceInstructionReleaseTemplates).or
    (getFirstServiceAttachmentById tx.attachment bcEscrowServiceId
      bcEscrowServiceInstructionReleaseTemplates)).isSome

namespace Wallet

/-! ## Own outputs -/

section Account

variable (W : WalletEnv)

def isOutToAcc (derivation : KeyDerivation) (outputIndex : Nat) (target : TxoutTarget) : Bool :=
  match W.derivePublicKey derivation outputIndex, target with
  | some pk, .toKey out => pk == out.key
  | some pk, .multisig out => out.keys.contains pk
  | none, _ => false

/-- A transaction without hints may be anybody's. -/
def checkTxDerivationHint (tx : Transaction) (derivation : KeyDerivation) : Bool :=
  let hints := tx.extra.filterMap fun
    | .etcTxDerivationHint v => some v
    | _ => none
  hints.isEmpty || hints.contains (W.getDerivationXor derivation)

/-- The outputs a transaction gives to an account. -/
structure AccOuts where
  outs : List Nat
  moneyTransfered : Nat
  derivation : KeyDerivation
deriving DecidableEq

def lookupAccOutsGenesis (tx : Transaction) (derivation : KeyDerivation) : Option AccOuts :=
  match W.genesisOffset with
  | none => some ⟨[], 0, derivation⟩
  | some offset =>
    match tx.vout[offset]? with
    | some ⟨amount, .toKey out⟩ =>
      if isOutToAcc W derivation offset (.toKey out) then some ⟨[offset], amount, derivation⟩
      else some ⟨[], 0, derivation⟩
    | _ => none

/-- The numbers of the own outputs, and the sum of those that go to a key. -/
def ownOuts (derivation : KeyDerivation) : Nat → List TxOut → List Nat × Nat → List Nat × Nat
  | _, [], found => found
  | i, o :: rest, (outs, money) =>
    ownOuts derivation (i + 1) rest <|
      if isOutToAcc W derivation i o.target then
        (outs ++ [i],
          match o.target with
          | .toKey _ => addU64 money o.amount
          | .multisig _ => money)
      else (outs, money)

def lookupAccOuts (tx : Transaction) (txPubKey : PublicKey) : Option AccOuts :=
  (W.generateKeyDerivation txPubKey).bind fun derivation =>
    if tx.isCoinbase && tx.getBlockHeight == 0 && txPubKey == W.genesisTxPubKey then
      lookupAccOutsGenesis W tx derivation
    else if !checkTxDerivationHint W tx derivation then some ⟨[], 0, derivation⟩
    else
      let (outs, money) := ownOuts W derivation 0 tx.vout ([], 0)
      some ⟨outs, money, derivation⟩

/-- The lookup with the key the transaction itself names. -/
def lookupAccOutsByExtra (tx : Transaction) : Option AccOuts :=
  if tx.getTxPubKeyFromExtra = nullPkey then none
  else lookupAccOuts W tx tx.getTxPubKeyFromExtra

def isDerivationUsedToEncrypt (tx : Transaction) (derivation : KeyDerivation) : Bool :=
  match cryptoChecksum tx with
  | some (_, derivationHash) => W.derivationHash derivation == derivationHash
  | none => false

end Account

/-! ## The expiration list -/

def lockedForProposal : TransferFlags :=
  TransferFlags.flagBlocked.add TransferFlags.flagEscrowProposalReservation

def lockForProposal (i : Nat) : Procedure Wallet Unit := do
  let wallet ← get
  throwIf (decide (wallet.transfers.length ≤ i))
  set (wallet.updateTransfer i (mapFlags fun flags => flags.add lockedForProposal))

/-- Lock transfers until a time, less those that another entry locks already. -/
def addTransfersToExpirationList (selectedTransfers : List Nat)
    (expiration changeAmount : Nat) (relatedTxId : Hash) : Procedure Wallet Unit := do
  let wallet ← get
  let selectedTransfersLocal := selectedTransfers.filter fun i =>
    !wallet.moneyExpirations.any fun entry => entry.selectedTransfers.any fun st => st.index == i
  if selectedTransfersLocal.isEmpty then pure ()
  else do
    modify fun wallet => { wallet with
      moneyExpirations := wallet.moneyExpirations ++
        [⟨selectedTransfersLocal.map wallet.indexed, changeAmount, expiration, relatedTxId⟩] }
    Procedure.forEach lockForProposal selectedTransfersLocal

/-- An entry without one transfer; an entry that loses its last transfer goes. -/
def ExpirationEntryInfo.withoutTransfer (transferIndex : Nat) (entry : ExpirationEntryInfo) :
    Option ExpirationEntryInfo :=
  if entry.selectedTransfers.any fun st => st.index == transferIndex then
    let st := entry.selectedTransfers.eraseP fun st => st.index == transferIndex
    if st.isEmpty then none else some { entry with selectedTransfers := st }
  else some entry

def removeTransferFromExpirationList (transferIndex : Nat) : Procedure Wallet Unit := do
  let wallet ← get
  throwIf (decide (wallet.transfers.length ≤ transferIndex))
  set ({ wallet with
      moneyExpirations :=
        wallet.moneyExpirations.filterMap (ExpirationEntryInfo.withoutTransfer transferIndex) }
    |>.updateTransfer transferIndex (mapFlags fun flags => flags.remove lockedForProposal))

/-! ## Contracts -/

section Contracts

variable (W : WalletEnv)

/-- A state change that a transaction brings, with the height of its history entry. -/
def changeContractState (contract : EscrowContractDetails) (newState : ContractState)
    (wti : WalletTransferInfo) : EscrowContractDetails :=
  { contract with state := newState, height := wti.height }

/-- The transfers whose key images a transaction spends. -/
def scanTxToKeyInputs (wallet : Wallet) (tx : Transaction) : List Nat :=
  tx.keyImages.filterMap fun ki => (wallet.keyImages.get ki).map TransferIndex.index

def handleProposal (wti : WalletTransferInfo) (prop : ProposalBody) :
    Procedure Wallet WalletTransferInfo :=
  match W.validateEscrowProposal wti.isIncome wti.tx prop with
  | none => pure wti
  | some (decryptedItems, msId, cpd) => do
    let wallet ← get
    let before := (wallet.contracts.get msId).getD default
    let isA := cpd.aAddr.spendPublicKey == W.publicAddress.spendPublicKey
    let expirationTime := prop.txTemplate.getTxExpirationTime
    let ed := changeContractState
      { before with
        expirationTime
        timestamp := wti.timestamp
        isA
        privateDetails := cpd
        paymentId := (getPaymentIdFromTx decryptedItems).getD before.paymentId
        proposal := prop } .proposalSent wti
    set { wallet with contracts := wallet.contracts.set msId ed }
    if !isA then pure { wti with fee := 0 }
    else do
      let foundTransfers := scanTxToKeyInputs wallet prop.txTemplate
      let own ← demandEx (lookupAccOutsByExtra W prop.txTemplate)
      addTransfersToExpirationList foundTransfers expirationTime own.moneyTransfered
        (getTransactionHash W.core wti.tx.toTransactionPrefix)
      pure wti

def handleContract (wti : WalletTransferInfo) (cntr : ContractPrivateDetails)
    (decryptedAttach : List PayloadItem) : Procedure Wallet WalletTransferInfo :=
  let isA := cntr.aAddr == W.publicAddress
  match W.validateEscrowContract wti.tx cntr isA decryptedAttach with
  | none => pure wti
  | some (msId, rel) => do
    let wallet ← get
    let before := (wallet.contracts.get msId).getD default
    let ed := changeContractState
      { before with
        isA
        expirationTime := wti.tx.getTxExpirationTime
        timestamp := if wti.timestamp = 0 then before.timestamp else wti.timestamp
        paymentId := wti.paymentId
        privateDetails := cntr
        releaseBody := rel } .contractAccepted wti
    set { wallet with contracts := wallet.contracts.set msId ed }
    -- the fee of an accepted contract is paid by the seller
    pure (if isA then { wti with amount := addU64 wti.amount wti.fee, fee := 0 } else wti)

/-- The state a release instruction brings a contract to. -/
def releasedState (releaseInstruction : String) : Option ContractState :=
  if releaseInstruction = bcEscrowServiceInstructionReleaseNormal then
    some .contractReleasedNormal
  else if releaseInstruction = bcEscrowServiceInstructionReleaseCancel then
    some .contractReleasedCancelled
  else if releaseInstruction = bcEscrowServiceInstructionReleaseBurn then
    some .contractReleasedBurned
  else none

def handleReleaseContract (wti : WalletTransferInfo) (releaseInstruction : String) :
    Procedure Wallet WalletTransferInfo := do
  let wallet ← get
  let msId := (wti.tx.multisigInputIds.head?).getD nullHash
  if msId = nullHash then pure wti
  else
    match wallet.contracts.get msId, releasedState releaseInstruction with
    | some contract, some newState => do
      set { wallet with
        contracts := wallet.contracts.set msId (changeContractState contract newState wti) }
      let details := contract.privateDetails
      let released :=
        if newState = .contractReleasedBurned then
          { wti with
            amount := addU64 (addU64 details.amountToPay details.amountAPledge)
              details.amountBPledge
            fee := if contract.isA then 0 else wti.tx.getTxFee }
        else wti
      pure (if contract.isA then { released with fee := 0 } else released)
    | _, _ => pure wti

/-- A contract with a valid request to cancel it; most states decline the request. -/
def cancelProposed (contract : EscrowContractDetails) (ectb : EscrowCancelTemplatesBody)
    (wti : WalletTransferInfo) : Option EscrowContractDetails :=
  let withBody (contract : EscrowContractDetails) : EscrowContractDetails :=
    { contract with
      cancelBody := ectb
      cancelExpirationTime := ectb.txCancelTemplate.getTxExpirationTime }
  match contract.state with
  | .contractAccepted =>
    some (withBody (changeContractState contract .contractCancelProposalSent wti))
  | .contractCancelProposalSent => some (withBody contract)
  | _ => none

/-- The least fee of the release of a contract. -/
def getMinimumAllowedFeeForContract (wallet : Wallet) (msId : Hash) : Nat :=
  match wallet.multisigTransfers.get msId with
  | some td => min td.ptxWalletInfo.tx.getTxFee txMinimumFee
  | none => txMinimumFee

def handleCancelProposal (wti : WalletTransferInfo) (ectb : EscrowCancelTemplatesBody)
    (decryptedAttach : List PayloadItem) : Procedure Wallet WalletTransferInfo := do
  let wallet ← get
  match ectb.txCancelTemplate.vin with
  | .multisig input :: _ =>
    let contractId := input.multisigOutId
    let updated := (wallet.contracts.get contractId).bind fun contract =>
      if W.validateEscrowCancelProposal (getMinimumAllowedFeeForContract wallet contractId) wti.tx
          ectb decryptedAttach contractId contract.privateDetails contract.proposal.txTemplate then
        cancelProposed contract ectb wti
      else none
    match updated with
    | some contract => do
      set { wallet with contracts := wallet.contracts.set contractId contract }
      pure wti
    | none => pure wti
  | _ => pure wti

/-- What one escrow attachment does; `none` where its body cannot be read. -/
def handleServiceAttachment (decryptedAttach : List PayloadItem) (sa : TxServiceAttachment)
    (wti : WalletTransferInfo) : Option (Procedure Wallet WalletTransferInfo) :=
  if sa.instruction = bcEscrowServiceInstructionProposal then
    (W.unpackProposal sa.body).map (handleProposal W wti)
  else if sa.instruction = bcEscrowServiceInstructionPrivateDetails then
    (W.loadPrivateDetails sa.body).map fun cntr => handleContract W wti cntr decryptedAttach
  else if (releasedState sa.instruction).isSome then
    some (handleReleaseContract wti sa.instruction)
  else if sa.instruction = bcEscrowServiceInstructionCancelProposal then
    (W.unpackCancelTemplates sa.body).map fun cpb =>
      handleCancelProposal W wti cpb decryptedAttach
  else some (pure wti)

/-- Where a history entry is kept while it is filled in. -/
inductive WtiPlace where
  | lastOfHistory
  | unconfirmed (txHash : Hash)

def setWti (place : WtiPlace) (wti : WalletTransferInfo) (wallet : Wallet) : Wallet :=
  match place with
  | .lastOfHistory =>
    { wallet with transferHistory := wallet.transferHistory.dropLast ++ [wti] }
  | .unconfirmed txHash =>
    { wallet with unconfirmedTxs := wallet.unconfirmedTxs.set txHash wti }

/-- The escrow attachments in turn, up to the first with an unreadable body. -/
def processContractInfo (place : WtiPlace) (decryptedAttach : List PayloadItem) :
    List PayloadItem → WalletTransferInfo → Procedure Wallet WalletTransferInfo
  | .txServiceAttachment sa :: rest, wti =>
    if sa.serviceId = bcEscrowServiceId then
      match handleServiceAttachment W decryptedAttach sa wti with
      | none => pure wti
      | some handle => do
        let handled ← handle
        modify (setWti place handled)
        processContractInfo place decryptedAttach rest handled
    else processContractInfo place decryptedAttach rest wti
  | _ :: rest, wti => processContractInfo place decryptedAttach rest wti
  | [], wti => pure wti

/-- A request to cancel that expired brings its contract back, and so does a cancellation that no
block has confirmed. -/
def contractExpired (txExpirationTsMedian : Nat) (contract : EscrowContractDetails) :
    EscrowContractDetails :=
  let expired := contract.cancelBody.txCancelTemplate.isTxExpired txExpirationTsMedian
  match contract.state with
  | .contractCancelProposalSent =>
    if expired then { contract with state := .contractAccepted } else contract
  | .contractReleasedCancelled =>
    if contract.height == 0 && expired then { contract with state := .contractAccepted }
    else contract
  | _ => contract

def handleContractExpirations (txExpirationTsMedian : Nat) (wallet : Wallet) : Wallet :=
  { wallet with
    contracts := wallet.contracts.map fun _ contract =>
      contractExpired txExpirationTsMedian contract }

/-! ## History entries -/

/-- The inputs and outputs of a transaction that concern the wallet. -/
structure MoneyTransfer2Details where
  receiveIndices : List Nat := []
  spentIndices : List Nat := []
deriving DecidableEq

def spentKeyAmount : Txin → Option Nat
  | .toKey input => some input.amount
  | _ => none

def receivedKeyAmount (out : TxOut) : Option Nat :=
  match out.target with
  | .toKey _ => some out.amount
  | .multisig _ => none

def fillTransferDetails (tx : Transaction) (td : MoneyTransfer2Details)
    (resTd : WalletTransferInfoDetails) : WalletTransferInfoDetails where
  spn := resTd.spn ++ td.spentIndices.filterMap fun si => tx.vin[si]?.bind spentKeyAmount
  rcv := resTd.rcv ++ td.receiveIndices.filterMap fun ri => tx.vout[ri]?.bind receivedKeyAmount

def prepareWtiDecryptedAttachments (decryptedAtt : List PayloadItem) (wti : WalletTransferInfo) :
    WalletTransferInfo :=
  let payer := decryptedAtt.findSome? fun
    | .txPayer accAddr => some (W.addressAsStr accAddr)
    | _ => none
  let receiver := decryptedAtt.findSome? fun
    | .txReceiver accAddr => some (W.addressAsStr accAddr)
    | _ => none
  let comment := decryptedAtt.findSome? fun
    | .txComment comment => some comment
    | _ => none
  { wti with
    showSender := payer.isSome
    remoteAddresses :=
      if wti.isIncome then wti.remoteAddresses ++ payer.toList
      else if wti.remoteAddresses.isEmpty then receiver.toList else wti.remoteAddresses
    comment := comment.getD wti.comment
    paymentId := (getPaymentIdFromTx decryptedAtt).getD wti.paymentId }

/-- Fill in an entry and handle the escrow attachments of its transaction. -/
def prepareWti (place : WtiPlace) (wti : WalletTransferInfo) (height timestamp : Nat)
    (tx : Transaction) (amount : Nat) (td : MoneyTransfer2Details) : Procedure Wallet Unit := do
  let decryptAttachmentAsIncome :=
    wti.isIncome || isEscrowTransfer tx && !td.spentIndices.contains 0
  let decryptedAtt := W.decryptPayloadItems decryptAttachmentAsIncome tx
  let filled := prepareWtiDecryptedAttachments W decryptedAtt
    { wti with
      tx
      amount
      height
      td := fillTransferDetails tx td wti.td
      timestamp
      fee := tx.getTxFee
      unlockTime := tx.getTxUnlockTime }
  modify (setWti place filled)
  let _ ← processContractInfo W place decryptedAtt decryptedAtt filled
  pure ()

end Contracts

end Wallet
end Virie
