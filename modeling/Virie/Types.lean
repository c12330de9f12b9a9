import Virie.Foundation.Container

/-! # Blocks and transactions

The wire types of the currency core: transactions with their inputs, outputs,
extra fields and attachments, blocks, and the entries the blockchain storage
keeps about them. Machine words are natural numbers; a function whose overflow
matters reduces modulo its width where the source does. -/

open Foundation (Key)

namespace Virie

/-- A 32-byte hash, read as a number in the order of its bytes. -/
structure Hash where
  val : Nat
deriving DecidableEq, Inhabited

/-- A point of the curve in its encoded form. -/
structure PublicKey where
  val : Nat
deriving DecidableEq, Inhabited

structure SecretKey where
  val : Nat
deriving DecidableEq, Inhabited

/-- The mark a one-time key leaves when it is spent. -/
structure KeyImage where
  val : Nat
deriving DecidableEq, Inhabited

structure KeyDerivation where
  val : Nat
deriving DecidableEq, Inhabited

structure Signature where
  val : Nat
deriving DecidableEq, Inhabited

structure AccountPublicAddress where
  spendPublicKey : PublicKey
  viewPublicKey : PublicKey
deriving DecidableEq, Inhabited

instance : Key Hash := Key.ofInjective Hash.val fun _ _ same => congrArg Hash.mk same
instance : Key KeyImage := Key.ofInjective KeyImage.val fun _ _ same => congrArg KeyImage.mk same
instance : Key PublicKey :=
  Key.ofInjective PublicKey.val fun _ _ same => congrArg PublicKey.mk same

instance : Key AccountPublicAddress :=
  Key.ofInjective (fun address => (address.spendPublicKey, address.viewPublicKey))
    fun a b same => by
      obtain ⟨_, _⟩ := a
      obtain ⟨_, _⟩ := b
      simpa using same

def nullHash : Hash := ⟨0⟩
def nullPkey : PublicKey := ⟨0⟩

/-! ## Extra fields and attachments -/

/-- A commitment to the first `cnt` attachments: their size, hash and number. -/
structure ExtraAttachmentInfo where
  sz : Nat
  hsh : Hash
  cnt : Nat
deriving DecidableEq, Inhabited

structure TxServiceAttachment where
  serviceId : String
  instruction : String
  body : String
  security : List PublicKey
  flags : Nat
deriving DecidableEq, Inhabited

/-- An alias registration or update; `sign` holds at most one signature, which
an update must carry. -/
structure ExtraAliasEntryBase where
  address : AccountPublicAddress
  textComment : String
  viewKey : List SecretKey
  sign : List Signature
deriving DecidableEq, Inhabited

structure ExtraAliasEntry extends ExtraAliasEntryBase where
  aliasName : String
deriving DecidableEq, Inhabited

/-- The payload variants shared by the extra field and the attachments. -/
inductive PayloadItem where
  | txServiceAttachment (value : TxServiceAttachment)
  | txComment (comment : String)
  | txPayer (accAddr : AccountPublicAddress)
  | txReceiver (accAddr : AccountPublicAddress)
  | txMessage (msg : String)
  | string (value : String)
  | txCryptoChecksum (encryptedKeyDerivation : KeyDerivation) (derivationHash : Nat)
  | etcTxTime (v : Nat)
  | etcTxDetailsUnlockTime (v : Nat)
  | etcTxDetailsExpirationTime (v : Nat)
  | etcTxDetailsFlags (v : Nat)
  | publicKey (value : PublicKey)
  | extraAttachmentInfo (value : ExtraAttachmentInfo)
  | extraAliasEntry (value : ExtraAliasEntry)
  | extraUserData (buff : String)
  | extraPadding (buff : List Nat)
  | etcTxDerivationHint (v : Nat)
deriving DecidableEq, Inhabited

/-! ## Inputs and outputs -/

structure TxoutToKey where
  key : PublicKey
  mixAttr : Nat
deriving DecidableEq, Inhabited

structure TxoutMultisig where
  minimumSigs : Nat
  keys : List PublicKey
deriving DecidableEq, Inhabited

inductive TxoutTarget where
  | toKey (out : TxoutToKey)
  | multisig (out : TxoutMultisig)
deriving DecidableEq, Inhabited

structure TxOut where
  amount : Nat
  target : TxoutTarget
deriving DecidableEq, Inhabited

/-- A reference to an output by source transaction and output number. -/
structure RefById where
  txId : Hash
  n : Nat
deriving DecidableEq, Inhabited

/-- A ring member: a global index under the input's amount, or a direct reference. -/
inductive TxoutRef where
  | index (i : Nat)
  | byId (ref : RefById)
deriving DecidableEq, Inhabited

inductive TxinEtcDetails where
  | signedParts (nOuts nExtras : Nat)
  | extraAttachmentInfo (value : ExtraAttachmentInfo)
deriving DecidableEq, Inhabited

structure TxinToKey where
  amount : Nat
  keyOffsets : List TxoutRef
  kImage : KeyImage
  etcDetails : List TxinEtcDetails
deriving DecidableEq, Inhabited

structure TxinMultisig where
  amount : Nat
  multisigOutId : Hash
  sigsCount : Nat
  etcDetails : List TxinEtcDetails
deriving DecidableEq, Inhabited

inductive Txin where
  | gen (height : Nat)
  | toKey (input : TxinToKey)
  | multisig (input : TxinMultisig)
deriving DecidableEq, Inhabited

/-! ## Transactions and blocks -/

structure TransactionPrefix where
  version : Nat
  vin : List Txin
  vout : List TxOut
  extra : List PayloadItem
deriving DecidableEq, Inhabited

structure Transaction extends TransactionPrefix where
  signatures : List (List Signature)
  attachment : List PayloadItem
deriving DecidableEq, Inhabited

structure BlockHeader where
  majorVersion : Nat
  minorVersion : Nat
  timestamp : Nat
  prevId : Hash
  nonce : Nat
  flags : Nat
deriving DecidableEq, Inhabited

structure Block extends BlockHeader where
  minerTx : Transaction
  txHashes : List Hash
deriving DecidableEq, Inhabited

/-! ## Stored entries -/

/-- A connected transaction: `globalOutputIndexes` and `spentFlags` run along its
outputs. -/
structure TransactionChainEntry where
  tx : Transaction
  keeperBlockHeight : Nat
  globalOutputIndexes : List Nat
  spentFlags : List Bool
deriving DecidableEq, Inhabited

structure BlockExtendedInfo where
  bl : Block
  height : Nat
  blockCumulativeSize : Nat
  cumulativeDiffAdjusted : Nat
  cumulativeDiffPrecise : Nat
  difficulty : Nat
  alreadyGeneratedCoins : Nat
  stakeHash : Hash
  thisBlockTxFeeMedian : Nat
  effectiveTxFeeMedian : Nat
deriving DecidableEq, Inhabited

structure GindexIncrement where
  amount : Nat
  increment : Nat
deriving DecidableEq, Inhabited

structure GlobalOutputEntry where
  txId : Hash
  outNo : Nat
deriving DecidableEq, Inhabited

/-- An entry of the multisig container; `spentHeight` is zero while unspent. -/
structure MsOutputEntry where
  txId : Hash
  outNo : Nat
  spentHeight : Nat
deriving DecidableEq, Inhabited

structure StakeModifier where
  lastPowId : Hash
  lastPosKernelId : Hash
deriving DecidableEq, Inhabited

structure StakeKernel where
  stakeModifier : StakeModifier
  blockTimestamp : Nat
  kimage : KeyImage
deriving DecidableEq, Inhabited

/-- The flags a block submission returns. -/
structure BlockVerificationContext where
  addedToMainChain : Bool
  verificationFailed : Bool
  markedAsOrphaned : Bool
  alreadyExists : Bool
  addedToAltchain : Bool
deriving DecidableEq, Inhabited

structure TxVerificationContext where
  shouldBeRelayed : Bool
  verificationFailed : Bool
  verificationImpossible : Bool
  addedToPool : Bool
deriving DecidableEq, Inhabited

end Virie
