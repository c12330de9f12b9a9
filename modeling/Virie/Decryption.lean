import Virie.Construction

/-! # Reading the payload of a transaction

The receiver of a transaction derives the key of its encrypted entries from the transaction key,
the sender finds it in the checksum entry. The entries are decrypted only with a key that the
checksum entry confirms; without one they are read as they stand. -/

namespace Virie

/-- The functions a reader uses: those of a sender, and what unpacking makes of a deflated body. -/
structure Reading extends Sending where
  unpack : String → String

section Decryption

variable (R : Reading)

def decryptAttach (key : KeyDerivation) : PayloadItem → PayloadItem
  | .txComment comment => .txComment (R.cryptString comment key)
  | .txMessage msg => .txMessage (R.cryptString msg key)
  | .txServiceAttachment sa =>
    let decrypted :=
      if (sa.flags &&& txServiceAttachmentEncryptBody) != 0 then R.cryptString sa.body key
      else sa.body
    .txServiceAttachment { sa with
      body := if (sa.flags &&& txServiceAttachmentDeflateBody) != 0 then R.unpack decrypted
        else decrypted }
  | .txPayer accAddr => .txPayer (R.cryptAddress accAddr key)
  | .txReceiver accAddr => .txReceiver (R.cryptAddress accAddr key)
  | other => other

/-- The derivation the sender has put into the checksum entry, when the entry confirms it. -/
def sentKeyDerivation (tx : Transaction) (accKeys : AccountKeys) : Option KeyDerivation := do
  let (encrypted, derivationHash) ← cryptoChecksum tx
  let derivation := R.cryptDerivation encrypted accKeys.spendSecretKey
  if R.derivationHash derivation = derivationHash then pure derivation else none

/-- The key of the encrypted entries for the receiver or the sender, null when there is none. -/
def encryptionKeyDerivation (isIncome : Bool) (tx : Transaction) (accKeys : AccountKeys) :
    KeyDerivation :=
  (if isIncome then getEncryptionKeyDerivation R.toSending tx accKeys
    else sentKeyDerivation R tx accKeys).getD nullDerivation

/-- The extra entries and the attachments of a transaction, decrypted. -/
def decryptPayloadItems (isIncome : Bool) (tx : Transaction) (accKeys : AccountKeys) :
    List PayloadItem :=
  let derivation := encryptionKeyDerivation R isIncome tx accKeys
  if derivation = nullDerivation then tx.extra ++ tx.attachment
  else tx.extra.map (decryptAttach R derivation) ++ tx.attachment.map (decryptAttach R derivation)

end Decryption

end Virie
