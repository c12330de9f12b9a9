import Virie.Config
import Virie.Types
import Virie.Foundation.Codec

/-! # The binary format

Blocks and transactions are serialized field by field. Keys, hashes and signatures are blobs;
most numbers have a variable length; lists and strings start with their length; a variant starts
with the tag of its type. A character of a string stands for one byte. -/

open Foundation

namespace Virie

namespace Wire

/-! ## Blobs and strings -/

def hash : Codec Hash := (Codec.uint 32).imap Hash.mk Hash.val
def publicKey : Codec PublicKey := (Codec.uint 32).imap PublicKey.mk PublicKey.val
def secretKey : Codec SecretKey := (Codec.uint 32).imap SecretKey.mk SecretKey.val
def keyImage : Codec KeyImage := (Codec.uint 32).imap KeyImage.mk KeyImage.val
def keyDerivation : Codec KeyDerivation := (Codec.uint 32).imap KeyDerivation.mk KeyDerivation.val
def signature : Codec Signature := (Codec.uint 64).imap Signature.mk Signature.val

def string : Codec String :=
  (Codec.vector (Codec.uint 1)).imap (fun bytes => String.ofList (bytes.map Char.ofNat))
    fun str => str.toList.map Char.toNat

/-! ## Extra fields and attachments -/

def accountPublicAddress : Codec AccountPublicAddress :=
  (publicKey.seq publicKey).imap (fun v => ⟨v.1, v.2⟩)
    fun address => (address.spendPublicKey, address.viewPublicKey)

def extraAttachmentInfo : Codec ExtraAttachmentInfo :=
  ((Codec.varint 64).seq (hash.seq (Codec.varint 64))).imap (fun v => ⟨v.1, v.2.1, v.2.2⟩)
    fun info => (info.sz, info.hsh, info.cnt)

def txCryptoChecksum : Codec (KeyDerivation × Nat) := keyDerivation.seq (Codec.uint 4)

def txServiceAttachment : Codec TxServiceAttachment :=
  (string.seq (string.seq (string.seq ((Codec.vector publicKey).seq (Codec.uint 1))))).imap
    (fun v => ⟨v.1, v.2.1, v.2.2.1, v.2.2.2.1, v.2.2.2.2⟩)
    fun attachment => (attachment.serviceId, attachment.instruction, attachment.body,
      attachment.security, attachment.flags)

def extraAliasEntryBase : Codec ExtraAliasEntryBase :=
  (accountPublicAddress.seq (string.seq ((Codec.vector secretKey).seq
    (Codec.vector signature)))).imap (fun v => ⟨v.1, v.2.1, v.2.2.1, v.2.2.2⟩)
    fun base => (base.address, base.textComment, base.viewKey, base.sign)

def extraAliasEntry : Codec ExtraAliasEntry :=
  (string.seq extraAliasEntryBase).imap (fun v => ⟨v.2, v.1⟩)
    fun entry => (entry.aliasName, entry.toExtraAliasEntryBase)

def payloadTag : PayloadItem → UInt8
  | .txServiceAttachment _ => 12
  | .txComment _ => 7
  | .txPayer _ => 8
  | .txReceiver _ => 29
  | .txMessage _ => 11
  | .string _ => 9
  | .txCryptoChecksum _ _ => 10
  | .etcTxTime _ => 27
  | .etcTxDetailsUnlockTime _ => 14
  | .etcTxDetailsExpirationTime _ => 15
  | .etcTxDetailsFlags _ => 16
  | .publicKey _ => 22
  | .extraAttachmentInfo _ => 18
  | .extraAliasEntry _ => 20
  | .extraUserData _ => 19
  | .extraPadding _ => 21
  | .etcTxDerivationHint _ => 23

/-- The payload types in the order in which a reader tries them. -/
def payloadItem : Codec PayloadItem := Codec.variant payloadTag
  [(12, txServiceAttachment.alternative .txServiceAttachment fun
      | .txServiceAttachment value => some value
      | _ => none),
    (7, string.alternative .txComment fun
      | .txComment comment => some comment
      | _ => none),
    (8, accountPublicAddress.alternative .txPayer fun
      | .txPayer accAddr => some accAddr
      | _ => none),
    (29, accountPublicAddress.alternative .txReceiver fun
      | .txReceiver accAddr => some accAddr
      | _ => none),
    (11, string.alternative .txMessage fun
      | .txMessage msg => some msg
      | _ => none),
    (9, string.alternative .string fun
      | .string value => some value
      | _ => none),
    (10, txCryptoChecksum.alternative (fun v => .txCryptoChecksum v.1 v.2) fun
      | .txCryptoChecksum encrypted derivationHash => some (encrypted, derivationHash)
      | _ => none),
    (27, (Codec.varint 64).alternative .etcTxTime fun
      | .etcTxTime v => some v
      | _ => none),
    (14, (Codec.varint 64).alternative .etcTxDetailsUnlockTime fun
      | .etcTxDetailsUnlockTime v => some v
      | _ => none),
    (15, (Codec.varint 64).alternative .etcTxDetailsExpirationTime fun
      | .etcTxDetailsExpirationTime v => some v
      | _ => none),
    (16, (Codec.varint 64).alternative .etcTxDetailsFlags fun
      | .etcTxDetailsFlags v => some v
      | _ => none),
    (22, publicKey.alternative .publicKey fun
      | .publicKey value => some value
      | _ => none),
    (18, extraAttachmentInfo.alternative .extraAttachmentInfo fun
      | .extraAttachmentInfo value => some value
      | _ => none),
    (20, extraAliasEntry.alternative .extraAliasEntry fun
      | .extraAliasEntry value => some value
      | _ => none),
    (19, string.alternative .extraUserData fun
      | .extraUserData buff => some buff
      | _ => none),
    (21, (Codec.vector (Codec.uint 1)).alternative .extraPadding fun
      | .extraPadding buff => some buff
      | _ => none),
    (23, (Codec.uint 2).alternative .etcTxDerivationHint fun
      | .etcTxDerivationHint v => some v
      | _ => none)]

/-! ## Inputs and outputs -/

def refById : Codec RefById :=
  (hash.seq (Codec.varint 32)).imap (fun v => ⟨v.1, v.2⟩) fun ref => (ref.txId, ref.n)

def txoutRefTag : TxoutRef → UInt8
  | .index _ => 26
  | .byId _ => 25

def txoutRef : Codec TxoutRef := Codec.variant txoutRefTag
  [(26, (Codec.uint 8).alternative .index fun
      | .index i => some i
      | _ => none),
    (25, refById.alternative .byId fun
      | .byId ref => some ref
      | _ => none)]

def signedParts : Codec (Nat × Nat) := (Codec.varint 32).seq (Codec.varint 32)

def txinEtcDetailsTag : TxinEtcDetails → UInt8
  | .signedParts _ _ => 17
  | .extraAttachmentInfo _ => 18

def txinEtcDetails : Codec TxinEtcDetails := Codec.variant txinEtcDetailsTag
  [(17, signedParts.alternative (fun v => .signedParts v.1 v.2) fun
      | .signedParts nOuts nExtras => some (nOuts, nExtras)
      | _ => none),
    (18, extraAttachmentInfo.alternative .extraAttachmentInfo fun
      | .extraAttachmentInfo value => some value
      | _ => none)]

def txinToKey : Codec TxinToKey :=
  ((Codec.varint 64).seq ((Codec.vector txoutRef).seq (keyImage.seq
    (Codec.vector txinEtcDetails)))).imap (fun v => ⟨v.1, v.2.1, v.2.2.1, v.2.2.2⟩)
    fun input => (input.amount, input.keyOffsets, input.kImage, input.etcDetails)

def txinMultisig : Codec TxinMultisig :=
  ((Codec.varint 64).seq (hash.seq ((Codec.varint 32).seq (Codec.vector txinEtcDetails)))).imap
    (fun v => ⟨v.1, v.2.1, v.2.2.1, v.2.2.2⟩)
    fun input => (input.amount, input.multisigOutId, input.sigsCount, input.etcDetails)

def txinTag : Txin → UInt8
  | .gen _ => 0
  | .toKey _ => 1
  | .multisig _ => 2

def txin : Codec Txin := Codec.variant txinTag
  [(0, (Codec.varint 64).alternative .gen fun
      | .gen height => some height
      | _ => none),
    (1, txinToKey.alternative .toKey fun
      | .toKey input => some input
      | _ => none),
    (2, txinMultisig.alternative .multisig fun
      | .multisig input => some input
      | _ => none)]

/-- A packed key and mix attribute. -/
def txoutToKey : Codec TxoutToKey :=
  (publicKey.seq (Codec.uint 1)).imap (fun v => ⟨v.1, v.2⟩) fun out => (out.key, out.mixAttr)

def txoutMultisig : Codec TxoutMultisig :=
  ((Codec.varint 32).seq (Codec.vector publicKey)).imap (fun v => ⟨v.1, v.2⟩)
    fun out => (out.minimumSigs, out.keys)

def txoutTargetTag : TxoutTarget → UInt8
  | .toKey _ => 3
  | .multisig _ => 4

def txoutTarget : Codec TxoutTarget := Codec.variant txoutTargetTag
  [(3, txoutToKey.alternative .toKey fun
      | .toKey out => some out
      | _ => none),
    (4, txoutMultisig.alternative .multisig fun
      | .multisig out => some out
      | _ => none)]

def txOut : Codec TxOut :=
  ((Codec.varint 64).seq txoutTarget).imap (fun v => ⟨v.1, v.2⟩) fun out => (out.amount, out.target)

/-! ## Transactions and blocks -/

/-- A version above the current one is refused before anything else is read. -/
def transactionPrefix : Codec TransactionPrefix :=
  (((Codec.varint 64).guarded fun version => !decide (currentTransactionVersion < version)).seq
    ((Codec.vector txin).seq ((Codec.vector txOut).seq (Codec.vector payloadItem)))).imap
    (fun v => ⟨v.1, v.2.1, v.2.2.1, v.2.2.2⟩) fun tx => (tx.version, tx.vin, tx.vout, tx.extra)

def transaction : Codec Transaction :=
  (transactionPrefix.seq ((Codec.vector (Codec.vector signature)).seq
    (Codec.vector payloadItem))).imap (fun v => ⟨v.1, v.2.1, v.2.2⟩)
    fun tx => (tx.toTransactionPrefix, tx.signatures, tx.attachment)

def blockHeader : Codec BlockHeader :=
  (((Codec.uint 1).guarded fun major => !decide (major > currentBlockMajorVersion)).seq
    ((Codec.uint 8).seq (hash.seq ((Codec.varint 8).seq ((Codec.varint 64).seq
      (Codec.uint 1)))))).imap
    (fun v => ⟨v.1, v.2.2.2.1, v.2.2.2.2.1, v.2.2.1, v.2.1, v.2.2.2.2.2⟩)
    fun header => (header.majorVersion, header.nonce, header.prevId, header.minorVersion,
      header.timestamp, header.flags)

def block : Codec Block :=
  (blockHeader.seq (transaction.seq (Codec.vector hash))).imap (fun v => ⟨v.1, v.2.1, v.2.2⟩)
    fun b => (b.toBlockHeader, b.minerTx, b.txHashes)

end Wire

/-! ## Blobs -/

def txToBlob (tx : Transaction) : Option (List UInt8) := Wire.transaction.toBlob tx

/-- The archive does not look at what the reading of a variable-length number reports. -/
def parseAndValidateTxFromBlob (txBlob : List UInt8) : Option Transaction :=
  Wire.transaction.fromBlob false txBlob

def blockToBlob (b : Block) : Option (List UInt8) := Wire.block.toBlob b

def parseAndValidateBlockFromBlob (bBlob : List UInt8) : Option Block :=
  Wire.block.fromBlob false bBlob

end Virie
