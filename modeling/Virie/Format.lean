import Virie.Config
import Virie.Environment

/-! # Transaction and block utilities

Amounts, extra fields, unlock and expiration rules, ids, sizes and the hash that
each input signs. -/

open Foundation

namespace Virie

/-- Addition of 64-bit words. -/
def addU64 (a b : Nat) : Nat := (a + b) % 2 ^ 64

/-! ## Inputs, outputs and amounts -/

namespace Txin

def amount : Txin → Nat
  | .gen _ => 0
  | .toKey input => input.amount
  | .multisig input => input.amount

/-- The per-input details, empty for a coinbase input. -/
def etcOptions : Txin → List TxinEtcDetails
  | .gen _ => []
  | .toKey input => input.etcDetails
  | .multisig input => input.etcDetails

def expectedSignaturesCount : Txin → Nat
  | .gen _ => 0
  | .toKey input => input.keyOffsets.length
  | .multisig input => input.sigsCount

def isGen : Txin → Bool
  | .gen _ => true
  | _ => false

def isToKey : Txin → Bool
  | .toKey _ => true
  | _ => false

/-- The key image a key input spends. -/
def spentKeyImage : Txin → Option KeyImage
  | .toKey input => some input.kImage
  | _ => none

/-- The multisig output a multisig input spends. -/
def spentMultisigId : Txin → Option Hash
  | .multisig input => some input.multisigOutId
  | _ => none

end Txin

/-- The first attachment info among the details of an input. -/
def etcAttachmentInfo (details : List TxinEtcDetails) : Option ExtraAttachmentInfo :=
  details.findSome? fun
    | .extraAttachmentInfo value => some value
    | _ => none

/-- The first signed-parts entry among the details of an input. -/
def etcSignedParts (details : List TxinEtcDetails) : Option (Nat × Nat) :=
  details.findSome? fun
    | .signedParts nOuts nExtras => some (nOuts, nExtras)
    | _ => none

/-- The first attachment info of an extra field. -/
def extraAttachmentInfo (extra : List PayloadItem) : Option ExtraAttachmentInfo :=
  extra.findSome? fun
    | .extraAttachmentInfo value => some value
    | _ => none

namespace TransactionPrefix

variable (tx : TransactionPrefix)

def getTxUnlockTime : Nat :=
  (tx.extra.findSome? fun
    | .etcTxDetailsUnlockTime v => some v
    | _ => none).getD 0

def getTxExpirationTime : Nat :=
  (tx.extra.findSome? fun
    | .etcTxDetailsExpirationTime v => some v
    | _ => none).getD 0

def getTxFlags : Nat :=
  (tx.extra.findSome? fun
    | .etcTxDetailsFlags v => some v
    | _ => none).getD 0

def getTxPubKeyFromExtra : PublicKey :=
  (tx.extra.findSome? fun
    | .publicKey value => some value
    | _ => none).getD nullPkey

/-- Each input signs for itself. -/
def separatelySigned : Bool := (tx.getTxFlags &&& txFlagSignatureModeSeparate) != 0

def isCoinbase : Bool :=
  match tx.vin with
  | .gen _ :: _ => true
  | _ => false

def isPowCoinbase : Bool := tx.isCoinbase && tx.vin.length == 1

/-- The height a coinbase names, zero for other transactions. -/
def getBlockHeight : Nat :=
  match tx.vin with
  | .gen height :: _ => height
  | _ => 0

/-- The sum of the input amounts; a zero amount is refused. -/
def getInputsMoneyAmount : Option Nat :=
  tx.vin.foldlM (fun money input =>
    if input.amount = 0 then none else some (addU64 money input.amount)) 0

def getOutsMoneyAmount : Nat :=
  tx.vout.foldl (fun money out => addU64 money out.amount) 0

/-- Inputs less outputs, zero for a coinbase and for an overspending transaction. -/
def getTxFee : Nat :=
  if tx.isCoinbase then 0
  else
    let amountIn := tx.vin.foldl (fun money input => addU64 money input.amount) 0
    let amountOut := tx.getOutsMoneyAmount
    if amountIn ≥ amountOut then amountIn - amountOut else 0

/-- No partial sum of the amounts wraps around. -/
def sumsWithoutOverflow (money : Nat) : List Nat → Bool
  | [] => true
  | amount :: rest => ¬ money > addU64 amount money && sumsWithoutOverflow (addU64 money amount) rest

def checkInputsOverflow : Bool :=
  tx.vin.all (fun input => !input.isGen) && sumsWithoutOverflow 0 (tx.vin.map Txin.amount)

def checkOutsOverflow : Bool := sumsWithoutOverflow 0 (tx.vout.map TxOut.amount)

def checkMoneyOverflow : Bool := tx.checkInputsOverflow && tx.checkOutsOverflow

def checkInputsTypesSupported : Bool := tx.vin.all fun input => !input.isGen

def checkOutsValid (E : Env) : Bool :=
  tx.vout.all fun out =>
    decide (0 < out.amount) &&
      match out.target with
      | .toKey target => E.checkKey target.key
      | .multisig target =>
        decide (target.keys.length > 0 ∧ target.minimumSigs > 0 ∧
          target.minimumSigs ≤ target.keys.length)

/-- The money burnt on outputs to the null key. -/
def getAmountForZeroPubkeys : Nat :=
  tx.vout.foldl (fun money out =>
    match out.target with
    | .toKey target => if target.key = nullPkey then addU64 money out.amount else money
    | .multisig _ => money) 0

/-- The key images of the inputs, in order. -/
def keyImages : List KeyImage := tx.vin.filterMap Txin.spentKeyImage

/-- The multisig outputs the inputs spend, in order. -/
def multisigInputIds : List Hash := tx.vin.filterMap Txin.spentMultisigId

/-- No key image occurs in two inputs. -/
def checkTxInputsKeyimagesDiff : Bool := decide tx.keyImages.Nodup

def isTxExpired (expirationTsMedian : Nat) : Bool :=
  tx.getTxExpirationTime != 0 &&
    decide (tx.getTxExpirationTime ≤ expirationTsMedian + txExpirationMedianShift)

end TransactionPrefix

namespace Transaction

variable (tx : Transaction)

def isPosCoinbase : Bool :=
  tx.isCoinbase &&
    match tx.vin with
    | [_, .toKey _] => tx.signatures.length == tx.vin.length - 1
    | _ => false

end Transaction

/-! ## The extra field -/

/-- What the extra field of a transaction says. -/
structure TxExtraInfo where
  txPubKey : PublicKey := nullPkey
  attachmentInfo : Option ExtraAttachmentInfo := none
  aliasEntry : Option ExtraAliasEntry := none
  userDataBlob : String := ""
deriving DecidableEq

/-- The alias entry of the extra field; an entry with an empty name counts as none. -/
def TxExtraInfo.namedAlias (info : TxExtraInfo) : Option ExtraAliasEntry :=
  info.aliasEntry.filter fun entry => entry.aliasName ≠ ""

/-- The progress of reading an extra field: entries that may occur only once. -/
structure TxExtraHandler where
  rei : TxExtraInfo := {}
  wasPubkey : Bool := false
  wasAttachment : Bool := false
  wasAlias : Bool := false
  wasUserdata : Bool := false
  wasPadding : Bool := false

def TxExtraHandler.apply (handler : TxExtraHandler) : PayloadItem → Option TxExtraHandler
  | .publicKey k =>
    if handler.wasPubkey then none
    else some { handler with wasPubkey := true, rei := { handler.rei with txPubKey := k } }
  | .extraAttachmentInfo ai =>
    if handler.wasAttachment then none
    else some { handler with
      wasAttachment := true, rei := { handler.rei with attachmentInfo := some ai } }
  | .extraAliasEntry ae =>
    if handler.wasAlias then none
    else some { handler with wasAlias := true, rei := { handler.rei with aliasEntry := some ae } }
  | .extraUserData buff =>
    if handler.wasUserdata then none
    else some { handler with
      wasUserdata := true, rei := { handler.rei with userDataBlob := buff } }
  | .extraPadding _ =>
    if handler.wasPadding then none else some { handler with wasPadding := true }
  | _ => some handler

namespace TransactionPrefix

variable (tx : TransactionPrefix)

def parseAndValidateTxExtra : Option TxExtraInfo :=
  (tx.extra.foldlM TxExtraHandler.apply {}).map TxExtraHandler.rei

def checkTxExtra : Bool := tx.parseAndValidateTxExtra.isSome

end TransactionPrefix

/-- The checks a transaction passes before it is looked at in any chain. -/
def checkTxSemantic (E : Env) (tx : TransactionPrefix) : Bool :=
  !tx.vin.isEmpty && tx.checkInputsTypesSupported && tx.checkOutsValid E &&
    tx.checkMoneyOverflow &&
    (match tx.getInputsMoneyAmount with
      | some inAmount => decide (tx.getOutsMoneyAmount ≤ inAmount)
      | none => false) &&
    tx.checkTxInputsKeyimagesDiff && tx.checkTxExtra

/-! ## Unlocking and mixing -/

/-- An unlock time below the largest block number is a height, otherwise a time. The
height test adds before it subtracts, as the wrapping source does on an empty chain. -/
def isTxSpendtimeUnlocked (unlockTime currentBlockchainSize currentTime : Nat) : Bool :=
  if unlockTime < currencyMaxBlockNumber then
    decide (unlockTime ≤ currentBlockchainSize + currencyLockedTxAllowedDeltaBlocks - 1)
  else decide (unlockTime ≤ currentTime + currencyLockedTxAllowedDeltaSeconds)

def isMixattrApplicableForFakeOutsCounter (mixAttr fakeOutputsCount : Nat) : Bool :=
  if mixAttr ≥ currencyToKeyOutForcedMixLowerBound then decide (fakeOutputsCount + 1 ≥ mixAttr)
  else if mixAttr = currencyToKeyOutForcedNoMix then decide (fakeOutputsCount = 0)
  else true

/-- Turn the offsets after `previous` into absolute ones; the walk ends at the first
direct reference, and an index after one raises an exception. -/
def accumulateOffsets (previous : TxoutRef) : List TxoutRef → Outcome (List TxoutRef)
  | [] => pure []
  | .byId ref :: rest => pure (.byId ref :: rest)
  | .index i :: rest =>
    match previous with
    | .byId _ => throw .thrown
    | .index p => do
      let absolute := TxoutRef.index (addU64 i p)
      let tail ← accumulateOffsets absolute rest
      pure (absolute :: tail)

def relativeOutputOffsetsToAbsolute : List TxoutRef → Outcome (List TxoutRef)
  | [] => pure []
  | first :: rest => do
    let tail ← accumulateOffsets first rest
    pure (first :: tail)

/-! ## Ids and sizes -/

section Ids

variable (E : Env)

def getTransactionHash (tx : TransactionPrefix) : Hash := E.prefixHash tx

def getTxTreeHash (b : Block) : Hash :=
  E.treeHash (getTransactionHash E b.minerTx.toTransactionPrefix :: b.txHashes)

def getBlockHash (b : Block) : Hash :=
  E.blockBlobHash b.toBlockHeader (getTxTreeHash E b) (b.txHashes.length + 1)

def getBlockHeight (b : Block) : Nat := b.minerTx.getBlockHeight

/-- The proof-of-work hash reads the block blob with its nonce set to zero. -/
def getBlockLonghash (b : Block) : Hash :=
  E.ethash (getBlockHeight b)
    (E.blockBlobHash { b.toBlockHeader with nonce := 0 } (getTxTreeHash E b)
      (b.txHashes.length + 1)) b.nonce

def isPosBlock (b : Block) : Bool :=
  (b.flags &&& currencyBlockFlagPosBlock) != 0 && b.minerTx.isPosCoinbase

/-- The time a proof-of-stake block claims in its coinbase, the header's otherwise. -/
def getActualTimestamp (b : Block) : Nat :=
  if isPosBlock b then
    (b.minerTx.extra.findSome? fun
      | .etcTxTime v => some v
      | _ => none).getD b.timestamp
  else b.timestamp

def getMultisigOutId (tx : TransactionPrefix) (n : Nat) : Hash :=
  match tx.vout[n]? with
  | some out =>
    match out.target with
    | .multisig _ => E.multisigIdHash tx.getTxPubKeyFromExtra out
    | .toKey _ => nullHash
  | none => nullHash

/-- The bytes of a variable-length encoding. -/
def getVarintPackedSize (v : Nat) : Nat :=
  1 + ((List.range' 1 9).takeWhile fun i => decide (2 ^ (7 * i) - 1 < v)).length

/-- The bytes of the signatures of the inputs from number `i` on. -/
def signaturesBlobsize (separatelySigned : Bool) : List Txin → Nat
  | [] => 0
  | input :: rest =>
    let sigCount := input.expectedSignaturesCount +
      if separatelySigned && rest.isEmpty then 1 else 0
    getVarintPackedSize sigCount + 64 * sigCount + signaturesBlobsize separatelySigned rest

/-- The size a transaction has with its signatures and attachments in place, also when
they were pruned. -/
def getObjectBlobsize (tx : TransactionPrefix) : Nat :=
  if tx.isCoinbase then E.prefixBlobsize tx
  else
    let fromLast := if tx.separatelySigned then
      tx.vin.getLast?.bind fun input => etcAttachmentInfo input.etcOptions else none
    E.prefixBlobsize tx + getVarintPackedSize tx.vin.length +
      signaturesBlobsize tx.separatelySigned tx.vin +
      match fromLast.or (extraAttachmentInfo tx.extra) with
      | some eai => eai.sz
      | none => getVarintPackedSize 0

def getSignBuffHashForAliasUpdate (ai : ExtraAliasEntry) : Hash :=
  E.aliasEntryHash { ai with sign := [] }

end Ids

/-! ## Attachments and signing -/

def haveAttachmentServiceInContainer (av : List PayloadItem) (serviceId instruction : String) :
    Bool :=
  av.any fun
    | .txServiceAttachment tsa => tsa.serviceId = serviceId && tsa.instruction = instruction
    | _ => false

section Attachments

variable (E : Env)

def getAttachmentExtraInfoDetails (attachment : List PayloadItem) : ExtraAttachmentInfo :=
  if attachment.isEmpty then ⟨0, nullHash, 0⟩
  else ⟨E.attachmentBlobsize attachment, E.attachmentHash attachment, attachment.length⟩

/-- Check a container's attachment info, if any, against the attachments. -/
def validateAttachmentInfo (found : Option ExtraAttachmentInfo) (attachments : List PayloadItem)
    (allowNoInfoForNonEmptyAttachmentsContainer : Bool) : Bool :=
  if found.isNone && allowNoInfoForNonEmptyAttachmentsContainer then true
  else
    let eai := found.getD ⟨0, nullHash, 0⟩
    found.isSome == !attachments.isEmpty && decide (eai.cnt ≤ attachments.length) &&
      decide (eai = getAttachmentExtraInfoDetails E (attachments.take eai.cnt))

/-- How much of a transaction the inputs up to the current one have signed. -/
structure SignedCounts where
  outputs : Nat
  extras : Nat
  attachments : Nat

/-- Extend the signed counts by one input; they never decrease. -/
def SignedCounts.addInput (counts : SignedCounts) (input : Txin) : Option SignedCounts := do
  let (nOuts, nExtras) ← etcSignedParts input.etcOptions
  guard (counts.outputs ≤ nOuts)
  guard (counts.extras ≤ nExtras)
  match etcAttachmentInfo input.etcOptions with
  | some eai =>
    guard (counts.attachments ≤ eai.cnt)
    pure ⟨nOuts, nExtras, eai.cnt⟩
  | none => pure ⟨nOuts, nExtras, counts.attachments⟩

/-- The counts signed by the inputs up to a number, from the extra field's default on. -/
def signedCounts (tx : Transaction) (inIndex : Nat) : Option SignedCounts :=
  (tx.vin.take (inIndex + 1)).foldlM SignedCounts.addInput
    ⟨0, 0, ((extraAttachmentInfo tx.extra).map ExtraAttachmentInfo.cnt).getD 0⟩

/-- The hash an input signs, the null hash when its signed parts are inconsistent. The
last input signs the whole prefix, every other one a cropped copy. -/
def preparePrefixHashForSign (tx : Transaction) (inIndex : Nat) (txId : Hash) : Hash :=
  if inIndex ≥ tx.vin.length then nullHash
  else if !tx.separatelySigned then txId
  else
    match signedCounts tx inIndex with
    | none => nullHash
    | some counts =>
      if inIndex = tx.vin.length - 1 then
        if counts.outputs = tx.vout.length ∧ counts.extras = tx.extra.length ∧
            counts.attachments = tx.attachment.length then txId else nullHash
      else if counts.outputs ≤ tx.vout.length ∧ counts.extras ≤ tx.extra.length ∧
          counts.attachments ≤ tx.attachment.length then
        E.prefixHash
          { version := tx.version
            vin := tx.vin.take (inIndex + 1)
            vout := tx.vout.take counts.outputs
            extra := tx.extra.take counts.extras }
      else nullHash

end Attachments

end Virie
