import Virie.Wallet.Contracts

/-! # How a wallet follows the chain

A block is processed transaction by transaction: inputs that spend own outputs, own
outputs with their key images, payments and a history entry. The daemon is asked for
the global indexes of each transaction with own outputs; its answers come with the
delivered block. A block that differs from the known one at its height detaches the
chain from there on. -/

open Foundation

namespace Virie.Wallet

/-- The daemon's answer to the request for the global output indexes of a transaction. -/
inductive OIndexesReply where
  | noConnection
  | busy
  | failed
  | ok (oIndexes : List Nat)
deriving DecidableEq, Inhabited

structure DeliveredTx where
  tx : Transaction
  reply : OIndexesReply
deriving DecidableEq, Inhabited

/-- A block with its transactions, as one attempt to process it meets them. -/
structure BlockEntry where
  bl : Block
  minerReply : OIndexesReply
  txs : List DeliveredTx
deriving DecidableEq, Inhabited

namespace BlockEntry

def blId (W : WalletEnv) (entry : BlockEntry) : Hash := getBlockHash W.core entry.bl

/-- The transactions of a block in the order in which they are processed. -/
def delivered (entry : BlockEntry) : List DeliveredTx :=
  ⟨entry.bl.minerTx, entry.minerReply⟩ :: entry.txs

/-- Blocks older than the account by more than a day are not looked into. -/
def isScanned (W : WalletEnv) (entry : BlockEntry) (height : Nat) : Bool :=
  height == 0 || decide (W.createtime < entry.bl.timestamp + 60 * 60 * 24)

end BlockEntry

section Scanning

variable (W : WalletEnv)

/-! ## Inputs -/

/-- What the inputs of a transaction spend. -/
structure SpendProgress where
  moneySpentInIns : Nat := 0
  isDerivedFromCoinbase : Bool
  spentIndices : List Nat := []
deriving DecidableEq

/-- The recipients of a transaction this wallet sent; its unconfirmed entry goes. -/
def processUnconfirmed (tx : Transaction) : Procedure Wallet (List String × List String) := do
  let wallet ← get
  let txHash := getTransactionHash W.core tx.toTransactionPrefix
  match wallet.unconfirmedTxs.get txHash with
  | some wti => do
    set { wallet with unconfirmedTxs := wallet.unconfirmedTxs.erase txHash }
    pure (wti.remoteAddresses, wti.recipientsAliases)
  | none => pure ([], [])

def spendAt (height : Nat) (td : TransferDetails) : TransferDetails :=
  { td with flags := td.flags.add TransferFlags.flagSpent, spentHeight := height }

/-- One input. An index outside the transfers is undefined in the source and stops here. -/
def processInput (coinBaseTx : Bool) (height i : Nat) (progress : SpendProgress) :
    Txin → Procedure Wallet SpendProgress
  | .gen _ => pure progress
  | .toKey input => do
    let wallet ← get
    match wallet.keyImages.get input.kImage with
    | none => pure progress
    | some stored => do
      let td ← Procedure.demand .thrown wallet.transfers[stored.index]?
      set (wallet.updateTransfer stored.index (spendAt height))
      removeTransferFromExpirationList stored.index
      pure
        { moneySpentInIns := addU64 progress.moneySpentInIns input.amount
          isDerivedFromCoinbase := coinBaseTx && td.flags.minedTransfer
          spentIndices := progress.spentIndices ++ [i] }
  | .multisig input => do
    let wallet ← get
    match wallet.multisigTransfers.get input.multisigOutId with
    | none => pure progress
    | some td => do
      set { wallet with
        multisigTransfers := wallet.multisigTransfers.set input.multisigOutId
          { td with flags := td.flags.add TransferFlags.flagSpent, spentHeight := height } }
      pure { progress with spentIndices := progress.spentIndices ++ [i] }

def processInputs (coinBaseTx : Bool) (height : Nat) :
    Nat → List Txin → SpendProgress → Procedure Wallet SpendProgress
  | _, [], progress => pure progress
  | i, input :: rest, progress => do
    let progress ← processInput coinBaseTx height i progress input
    processInputs coinBaseTx height (i + 1) rest progress

/-! ## Outputs -/

structure ReceiveProgress where
  moneyGotInOuts : Nat
  receiveIndices : List Nat := []
deriving DecidableEq

/-- The key image of an own output: computed by a full wallet, looked up by a watch-only one. -/
def ownKeyImage (txPubKey : PublicKey) (o : Nat) (otk : TxoutToKey) :
    Procedure Wallet KeyImage := do
  if W.watchOnly then do
    let wallet ← get
    pure ((wallet.pendingKeyImages.get otk.key).getD nullKi)
  else do
    let (ephemeral, ki) := W.generateKeyImageHelper txPubKey o
    throwIf (ephemeral != otk.key)
    pure ki

def addTransferToTransfersCache (amount index : Nat) (wallet : Wallet) : Wallet :=
  let free := (wallet.foundFreeAmounts.get amount).getD ∅
  { wallet with
    foundFreeAmounts := wallet.foundFreeAmounts.set amount
      (if free.has index then free else free.set index (wallet.indexed index).output) }

/-- Record an own output. -/
def pushTransfer (td : TransferDetails) (wallet : Wallet) : Wallet :=
  let pushed := { wallet with transfers := wallet.transfers ++ [td] }
  addTransferToTransfersCache td.amount wallet.transfers.length
    { pushed with
      keyImages :=
        if td.keyImage = nullKi then wallet.keyImages
        else wallet.keyImages.set td.keyImage (pushed.indexed wallet.transfers.length) }

/-- An own output to a key, unless its key image is known. -/
def receiveToKey (info : TransactionWalletInfo) (oIndexes : List Nat) (ki : KeyImage)
    (mined : Bool) (o amount : Nat) (progress : ReceiveProgress) :
    Procedure Wallet ReceiveProgress := do
  let wallet ← get
  match if ki = nullKi then none else wallet.keyImages.get ki with
  | some stored => do
    throwIf (decide (wallet.transfers.length ≤ stored.index))
    throwIf (decide (progress.moneyGotInOuts < amount))
    pure { progress with moneyGotInOuts := progress.moneyGotInOuts - amount }
  | none => do
    set (wallet.pushTransfer
      { ptxWalletInfo := info
        internalOutputIndex := o
        spentHeight := 0
        flags := { minedTransfer := mined }
        globalOutputIndex := oIndexes.getD o 0
        keyImage := ki })
    pure { progress with receiveIndices := progress.receiveIndices ++ [o] }

/-- An own multisig output; the entry of a known one is pointed to this transaction. -/
def receiveMultisig (info : TransactionWalletInfo) (o : Nat) (wallet : Wallet) : Wallet :=
  let multisigId := getMultisigOutId W.core info.tx.toTransactionPrefix o
  { wallet with
    multisigTransfers := wallet.multisigTransfers.modify multisigId default fun tdb =>
      { tdb with ptxWalletInfo := info, internalOutputIndex := o } }

def receiveOutput (info : TransactionWalletInfo) (txPubKey : PublicKey) (oIndexes : List Nat)
    (mined : Bool) (o : Nat) (progress : ReceiveProgress) :
    Procedure Wallet ReceiveProgress := do
  let out ← demandEx info.tx.vout[o]?
  match out.target with
  | .toKey otk => do
    let ki ← ownKeyImage W txPubKey o otk
    receiveToKey info oIndexes ki mined o out.amount progress
  | .multisig _ => do
    modify (receiveMultisig W info o)
    pure progress

/-- The own outputs in turn. The last one of a coinbase may be the change of a stake. -/
def receiveOutputs (info : TransactionWalletInfo) (txPubKey : PublicKey) (oIndexes : List Nat)
    (coinBaseTx isDerivedFromCoinbase : Bool) :
    List Nat → ReceiveProgress → Procedure Wallet ReceiveProgress
  | [], progress => pure progress
  | o :: rest, progress => do
    let progress ← receiveOutput W info txPubKey oIndexes
      (coinBaseTx && !(rest.isEmpty && !isDerivedFromCoinbase)) o progress
    receiveOutputs info txPubKey oIndexes coinBaseTx isDerivedFromCoinbase rest progress

/-- The daemon's answer, checked. -/
def globalOutputIndexes (tx : Transaction) : OIndexesReply → Procedure Wallet (List Nat)
  | .noConnection => throw .thrown
  | .busy => throw .thrown
  | .failed => do
    throwIf true
    pure []
  | .ok oIndexes => do
    throwIf (decide (oIndexes.length ≠ tx.vout.length))
    pure oIndexes

/-! ## Transactions and blocks -/

/-- A payment under the id that a transaction names in the clear. -/
def receivePayment (tx : Transaction) (height spent got : Nat) (wallet : Wallet) : Wallet :=
  match if got = 0 then none else getPaymentIdFromTx tx.attachment with
  | some paymentId =>
    let received := got - spent
    if received ≠ 0 ∧ paymentId ≠ "" then
      { wallet with
        payments := wallet.payments ++ [(paymentId,
          { txHash := getTransactionHash W.core tx.toTransactionPrefix
            amount := received
            blockHeight := height
            unlockTime := tx.getTxUnlockTime })] }
    else wallet
  | none => wallet

def emptyWti (isIncome : Bool) (recipients : List String × List String) : WalletTransferInfo where
  amount := 0
  timestamp := 0
  height := 0
  unlockTime := 0
  paymentId := ""
  remoteAddresses := recipients.1
  recipientsAliases := recipients.2
  comment := ""
  isIncome
  td := ⟨[], []⟩
  fee := 0
  showSender := false
  tx := default
  selectedIndicies := []

/-- Append an entry to the history and fill it in. -/
def pushHistory (b : Block) (tx : Transaction) (amount : Nat) (td : MoneyTransfer2Details)
    (wti : WalletTransferInfo) : Procedure Wallet Unit := do
  modify fun wallet => { wallet with transferHistory := wallet.transferHistory ++ [wti] }
  prepareWti W .lastOfHistory wti (getBlockHeight b) (getActualTimestamp b) tx amount td

def handleMoneyReceived2 (b : Block) (tx : Transaction) (amount : Nat)
    (td : MoneyTransfer2Details) : Procedure Wallet Unit :=
  pushHistory W b tx amount td (emptyWti true ([], []))

def handleMoneySpent2 (b : Block) (tx : Transaction) (amount : Nat)
    (td : MoneyTransfer2Details) (recipients : List String × List String) :
    Procedure Wallet Unit :=
  pushHistory W b tx amount td (emptyWti false recipients)

/-- The history entry of a transaction, by what it spent and brought. -/
def recordTransfer (b : Block) (tx : Transaction) (derivation : KeyDerivation)
    (spent got : Nat) (mtd : MoneyTransfer2Details) (recipients : List String × List String) :
    Procedure Wallet Unit :=
  if spent ≠ 0 then
    if got < spent then
      handleMoneySpent2 W b tx (subU64 spent (addU64 got tx.getTxFee)) mtd recipients
    else
      handleMoneyReceived2 W b tx (subU64 got (subU64 spent tx.getTxFee)) mtd
  else if got ≠ 0 then handleMoneyReceived2 W b tx got mtd
  else if isDerivationUsedToEncrypt W tx derivation then handleMoneyReceived2 W b tx 0 mtd
  else if mtd.spentIndices ≠ [] then handleMoneySpent2 W b tx 0 mtd recipients
  else pure ()

/-- The own outputs of a transaction; only for these the daemon is asked. -/
def receiveAll (delivered : DeliveredTx) (height timestamp : Nat) (txPubKey : PublicKey)
    (own : AccOuts) (isDerivedFromCoinbase : Bool) : Procedure Wallet ReceiveProgress :=
  if own.outs.isEmpty then pure { moneyGotInOuts := own.moneyTransfered }
  else do
    let oIndexes ← globalOutputIndexes delivered.tx delivered.reply
    receiveOutputs W ⟨height, timestamp, delivered.tx⟩ txPubKey oIndexes delivered.tx.isCoinbase
      isDerivedFromCoinbase own.outs { moneyGotInOuts := own.moneyTransfered }

def processNewTransaction (delivered : DeliveredTx) (height : Nat) (b : Block) :
    Procedure Wallet Unit := do
  let tx := delivered.tx
  let recipients ← processUnconfirmed W tx
  let extra ← demandEx tx.parseAndValidateTxExtra
  let spends ← processInputs tx.isCoinbase height 0 tx.vin
    { isDerivedFromCoinbase := !tx.isPosCoinbase }
  let own ← demandEx (lookupAccOuts W tx extra.txPubKey)
  let received ← receiveAll W delivered height b.timestamp extra.txPubKey own
    spends.isDerivedFromCoinbase
  modify (receivePayment W tx height spends.moneySpentInIns received.moneyGotInOuts)
  recordTransfer W b tx own.derivation spends.moneySpentInIns received.moneyGotInOuts
    ⟨received.receiveIndices, spends.spentIndices⟩ recipients

def processNewBlockchainEntry (entry : BlockEntry) (blId : Hash) (height : Nat) :
    Procedure Wallet Unit := do
  let wallet ← get
  throwIf (decide (height ≠ wallet.blockchain.length))
  Procedure.onlyIf (entry.isScanned W height)
    (Procedure.forEach (fun delivered => processNewTransaction W delivered height entry.bl)
      entry.delivered)
  modify fun wallet => { wallet with blockchain := wallet.blockchain ++ [blId] }

/-! ## Splits -/

/-- A spend at or above a height is undone. -/
def unspendFrom (height : Nat) (td : TransferDetails) : TransferDetails :=
  if height ≤ td.spentHeight then
    { td with flags := td.flags.remove TransferFlags.flagSpent, spentHeight := 0 }
  else td

/-- Whether a transfer lies below a height. -/
def TransferDetails.isBelow (height : Nat) (td : TransferDetails) : Bool :=
  decide (td.ptxWalletInfo.blockHeight < height)

/-- What detaching does once the key images of the removed transfers are gone. -/
def truncatedAt (height : Nat) (wallet : Wallet) : Wallet :=
  { wallet with
    transfers :=
      (wallet.transfers.takeWhile (TransferDetails.isBelow height)).map (unspendFrom height)
    blockchain := wallet.blockchain.take height
    transferHistory := wallet.transferHistory.rdropWhile fun wti => decide (height ≤ wti.height)
    payments := wallet.payments.filter fun payment => decide (payment.2.blockHeight < height) }

def forgetKeyImage (td : TransferDetails) : Procedure Wallet Unit := do
  let wallet ← get
  throwIf (wallet.keyImages.get td.keyImage).isNone
  set { wallet with keyImages := wallet.keyImages.erase td.keyImage }

/-- Remove what came with the blocks from a height on: everything after the first transfer at
or above it, the spends, history entries and payments. -/
def detachBlockchain (height : Nat) : Procedure Wallet Unit := do
  let wallet ← get
  Procedure.forEach forgetKeyImage
    (wallet.transfers.dropWhile (TransferDetails.isBelow height))
  modify (truncatedAt height)

/-- Process a delivered block the wallet has not got, and count it. -/
def addBlock (entry : BlockEntry) (currentIndex : Nat) : Procedure Wallet Unit := do
  processNewBlockchainEntry W entry (entry.blId W) currentIndex
  modify fun wallet => { wallet with blocksAdded := wallet.blocksAdded + 1 }

/-- One delivered block at its height. -/
def handlePulledBlock (startHeight currentIndex : Nat) (entry : BlockEntry) :
    Procedure Wallet Unit := do
  let wallet ← get
  match wallet.blockchain[currentIndex]? with
  | none => addBlock W entry currentIndex
  | some known =>
    if entry.blId W = known then pure ()
    else do
      throwIf (decide (currentIndex = startHeight))
      detachBlockchain currentIndex
      addBlock W entry currentIndex

/-- The delivered blocks from a height on. A stop requested from outside ends the loop early, as
a shorter delivery does. -/
def handlePulledBlocks (startHeight : Nat) : Nat → List BlockEntry → Procedure Wallet Unit
  | _, [] => pure ()
  | currentIndex, entry :: rest => do
    handlePulledBlock W startHeight currentIndex entry
    handlePulledBlocks startHeight (currentIndex + 1) rest

/-- The daemon's answer to the request for blocks. -/
inductive BlocksReply where
  | noConnection
  | busy
  | genesisMismatch
  | failed
  | ok (startHeight : Nat) (blocks : List BlockEntry)
deriving DecidableEq, Inhabited

/-- The answer to a request for blocks, checked and processed. -/
def acceptBlocks : BlocksReply → Procedure Wallet Unit
  | .noConnection => throw .thrown
  | .busy => throw .thrown
  | .genesisMismatch => throwIf true
  | .failed => throwIf true
  | .ok startHeight blocks => do
    let wallet ← get
    throwIf (!wallet.blockchain.isEmpty && decide (wallet.blockchain.length ≤ startHeight))
    handlePulledBlocks W startHeight startHeight blocks

def pullBlocks (reply : BlocksReply) : Procedure Wallet Unit := do
  modify fun wallet => { wallet with blocksAdded := 0 }
  acceptBlocks W reply

end Scanning
end Virie.Wallet
