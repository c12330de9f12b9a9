import Virie.Multisig.Signing

/-! # Constructing transactions

A transaction is constructed from the outputs it spends and the destinations it pays. A separately
signed one may be extended by later calls, also by other senders: they append inputs, outputs,
extra entries and attachments and sign the new inputs. -/

open Foundation

namespace Virie

def txServiceAttachmentEncryptBody : Nat := 1
def txServiceAttachmentDeflateBody : Nat := 2

/-- An output to spend, among other outputs for a ring. -/
structure TxSourceEntry where
  outputs : List (TxoutRef × PublicKey)
  realOutput : Nat
  realOutTxKey : PublicKey
  realOutputInTxIndex : Nat
  amount : Nat
  multisigId : Hash
  msSigsCount : Nat
  msKeysCount : Nat
  separatelySignedTxComplete : Bool
deriving DecidableEq, Inhabited

def TxSourceEntry.isMultisig (source : TxSourceEntry) : Bool := decide (source.msSigsCount > 0)

/-- A payment; several addresses share a multisig output. -/
structure TxDestinationEntry where
  amount : Nat
  addr : List AccountPublicAddress
  minimumSigs : Nat
deriving DecidableEq, Inhabited

/-- The key and encryption functions a sender uses. -/
structure Sending extends Signing where
  generateKeyImage : PublicKey → SecretKey → KeyImage
  generateRingSignature : Hash → KeyImage → List PublicKey → SecretKey → Nat → List Signature
  cryptString : String → KeyDerivation → String
  cryptAddress : AccountPublicAddress → KeyDerivation → AccountPublicAddress
  cryptDerivation : KeyDerivation → SecretKey → KeyDerivation
  pack : String → String
  /-- The first four bytes of the hash of a derivation. -/
  derivationHash : KeyDerivation → Nat

def nullSkey : SecretKey := ⟨0⟩
def nullDerivation : KeyDerivation := ⟨0⟩

section Construction

variable (S : Sending)

/-! ## Keys -/

def derivePublicKeyFromTargetAddress (destinationAddr : AccountPublicAddress)
    (txSecKey : SecretKey) (index : Nat) : Option (PublicKey × KeyDerivation) := do
  let derivation ← S.generateKeyDerivation destinationAddr.viewPublicKey txSecKey
  let outEphPublicKey ← S.derivePublicKey derivation index destinationAddr.spendPublicKey
  pure (outEphPublicKey, derivation)

/-- The 16-bit words of a derivation, combined. -/
def getDerivationXor (derivation : KeyDerivation) : Nat :=
  (List.range 16).foldl (fun res i => res ^^^ (derivation.val / 2 ^ (16 * i) % 2 ^ 16)) 0

/-! ## Extra fields -/

/-- Replace the first entry of a kind, or append one. -/
def updateOrAddField (sameType : PayloadItem → Bool) (entry : PayloadItem) :
    List PayloadItem → List PayloadItem
  | [] => [entry]
  | ev :: rest => if sameType ev then entry :: rest else ev :: updateOrAddField sameType entry rest

def isUnlockTime : PayloadItem → Bool
  | .etcTxDetailsUnlockTime _ => true
  | _ => false

def isFlags : PayloadItem → Bool
  | .etcTxDetailsFlags _ => true
  | _ => false

def isExpirationTime : PayloadItem → Bool
  | .etcTxDetailsExpirationTime _ => true
  | _ => false

/-! ## Encryption -/

/-- Encrypt one entry; the answer says whether it is of an encrypted kind. -/
def encryptAttach (key : KeyDerivation) : PayloadItem → PayloadItem × Bool
  | .txComment comment => (.txComment (S.cryptString comment key), true)
  | .txPayer accAddr => (.txPayer (S.cryptAddress accAddr key), true)
  | .txReceiver accAddr => (.txReceiver (S.cryptAddress accAddr key), true)
  | .txMessage msg => (.txMessage (S.cryptString msg key), true)
  | .txServiceAttachment sa =>
    let packed :=
      if (sa.flags &&& txServiceAttachmentDeflateBody) != 0 then S.pack sa.body else sa.body
    if (sa.flags &&& txServiceAttachmentEncryptBody) != 0 then
      (.txServiceAttachment { sa with body := S.cryptString packed key }, true)
    else (.txServiceAttachment { sa with body := packed }, false)
  | other => (other, false)

/-- Encrypt the entries of a list; the answer says whether one is of an encrypted kind. -/
def encryptAll (key : KeyDerivation) (entries : List PayloadItem) : List PayloadItem × Bool :=
  (entries.map fun entry => (encryptAttach S key entry).1,
    entries.any fun entry => (encryptAttach S key entry).2)

/-- Encrypt attachments and extra entries for an address. The sender finds the derivation in a
checksum entry. Without a derivation nothing is encrypted. -/
def encryptAttachments (tx : Transaction) (senderKeys : AccountKeys)
    (destinationAddr : AccountPublicAddress) (txRandomKey : Keypair) : Transaction :=
  match S.generateKeyDerivation destinationAddr.viewPublicKey txRandomKey.sec with
  | none => tx
  | some derivation =>
    let attachment := encryptAll S derivation tx.attachment
    let extra := encryptAll S derivation tx.extra
    let chs := PayloadItem.txCryptoChecksum
      (S.cryptDerivation derivation senderKeys.spendSecretKey) (S.derivationHash derivation)
    if extra.2 then { tx with attachment := attachment.1, extra := extra.1 ++ [chs] }
    else if attachment.2 then { tx with attachment := attachment.1 ++ [chs], extra := extra.1 }
    else { tx with attachment := attachment.1, extra := extra.1 }

/-- The checksum entry of a transaction, first of all in its extra field. -/
def cryptoChecksum (tx : Transaction) : Option (KeyDerivation × Nat) :=
  (tx.extra ++ tx.attachment).findSome? fun
    | .txCryptoChecksum encrypted derivationHash => some (encrypted, derivationHash)
    | _ => none

/-- The derivation a receiver decrypts with, when the checksum entry confirms it. -/
def getEncryptionKeyDerivation (tx : Transaction) (accKeys : AccountKeys) :
    Option KeyDerivation := do
  let (_, derivationHash) ← cryptoChecksum tx
  let derivation ← S.generateKeyDerivation tx.getTxPubKeyFromExtra accKeys.viewSecretKey
  if S.derivationHash derivation = derivationHash then pure derivation else none

/-! ## Inputs -/

def TxoutRef.isIndex : TxoutRef → Bool
  | .index _ => true
  | .byId _ => false

/-- Every index after the first one as the distance from the one before it. -/
def relativeIndexes (previous : Nat) : List TxoutRef → List TxoutRef
  | .index i :: rest => .index (i - previous) :: relativeIndexes i rest
  | rest => rest

def indexLe (a b : TxoutRef) : Bool :=
  match a, b with
  | .index i, .index j => decide (i ≤ j)
  | _, _ => true

/-- Sort the offsets, indexes first, and make the indexes relative. -/
def absoluteOutputOffsetsToRelative (off : List TxoutRef) : List TxoutRef :=
  if off.length < 2 then off
  else
    relativeIndexes 0 ((off.filter TxoutRef.isIndex).mergeSort indexLe ++
      off.filter fun ref => !ref.isIndex)

/-- The input for a source, and the key it is signed with. -/
def constructTxIn (senderAccountKeys : AccountKeys) (source : TxSourceEntry) :
    Option (Txin × Keypair) :=
  if !source.isMultisig then do
    let (_, realKey) ← source.outputs[source.realOutput]?
    let inEphemeral ← S.deriveEphemeralKeyHelper senderAccountKeys source.realOutTxKey
      source.realOutputInTxIndex
    if inEphemeral.pub ≠ realKey then none
    else
      pure (.toKey
        { amount := source.amount
          keyOffsets := absoluteOutputOffsetsToRelative (source.outputs.map Prod.fst)
          kImage := S.generateKeyImage inEphemeral.pub inEphemeral.sec
          etcDetails := [] }, inEphemeral)
  else
    some (.multisig
      { amount := source.amount
        multisigOutId := source.multisigId
        sigsCount := source.msSigsCount % 2 ^ 32
        etcDetails := [] }, default)

/-! ## Outputs -/

/-- The one-time key of an address. A derivation that was not used in this call before leaves a
hint in the extra field. -/
def constructTargetKey (txSecKey : SecretKey) (outputIndex : Nat)
    (state : List PublicKey × List PayloadItem × List Nat) (apa : AccountPublicAddress) :
    Option (List PublicKey × List PayloadItem × List Nat) :=
  let (targetKeys, extra, derivCache) := state
  if apa.spendPublicKey = nullPkey ∧ apa.viewPublicKey = nullPkey then
    some (targetKeys ++ [nullPkey], extra, derivCache)
  else do
    let (outEphPublicKey, derivation) ←
      derivePublicKeyFromTargetAddress S apa txSecKey outputIndex
    let hint := getDerivationXor derivation
    if derivCache.contains hint then pure (targetKeys ++ [outEphPublicKey], extra, derivCache)
    else pure (targetKeys ++ [outEphPublicKey], extra ++ [.etcTxDerivationHint hint],
      hint :: derivCache)

def constructTxOut (txSecKey : SecretKey) (txOutsAttr : Nat) (tx : Transaction)
    (derivCache : List Nat) (de : TxDestinationEntry) : Option (Transaction × List Nat) := do
  guard (de.addr.length = 1 ∨ (de.addr.length > 1 ∧ de.minimumSigs ≤ de.addr.length))
  let (targetKeys, extra, derivCache) ←
    de.addr.foldlM (constructTargetKey S txSecKey tx.vout.length) ([], tx.extra, derivCache)
  let target := match targetKeys with
    | [key] => TxoutTarget.toKey ⟨key, txOutsAttr⟩
    | keys => .multisig ⟨de.minimumSigs % 2 ^ 32, keys⟩
  pure ({ tx with extra, vout := tx.vout ++ [⟨de.amount, target⟩] }, derivCache)

/-- The outputs of all destinations in turn. -/
def constructTxOuts (txSecKey : SecretKey) (txOutsAttr : Nat) :
    List TxDestinationEntry → Transaction → List Nat → Option Transaction
  | [], tx, _ => some tx
  | de :: rest, tx, derivCache => do
    guard (de.amount > 0)
    let (tx, derivCache) ← constructTxOut S txSecKey txOutsAttr tx derivCache de
    constructTxOuts txSecKey txOutsAttr rest tx derivCache

/-! ## Attachments -/

/-- The attachment with a key of the sender, when it asks for one. -/
def deriveOfferKey (senderAddr : AccountPublicAddress) (oneTimeSecretKey : SecretKey)
    (attCount : Nat) (tsa : TxServiceAttachment) : Option TxServiceAttachment :=
  match tsa.security with
  | [] => some tsa
  | [_] =>
    (derivePublicKeyFromTargetAddress S senderAddr oneTimeSecretKey attCount).map fun derived =>
      { tsa with security := [derived.1] }
  | _ => none

/-- Derive the keys of service attachments, counting them from a number on. Every attachment of
the transaction gets a key of the sender who calls, also the ones of earlier calls. -/
def deriveOfferKeys (senderAddr : AccountPublicAddress) (oneTimeSecretKey : SecretKey) :
    Nat → List PayloadItem → Option (List PayloadItem)
  | _, [] => some []
  | attCount, .txServiceAttachment tsa :: rest => do
    let first ← deriveOfferKey S senderAddr oneTimeSecretKey attCount tsa
    let others ← deriveOfferKeys senderAddr oneTimeSecretKey (attCount + 1) rest
    pure (.txServiceAttachment first :: others)
  | attCount, other :: rest => do
    let others ← deriveOfferKeys senderAddr oneTimeSecretKey attCount rest
    pure (other :: others)

/-- The attachment info of a list of attachments as an entry, none for an empty list. -/
def attachmentInfoOf (E : Env) (attachment : List PayloadItem) : Option ExtraAttachmentInfo :=
  if attachment.isEmpty then none else some (getAttachmentExtraInfoDetails E attachment)

/-- The details a separately signed input gets: how many outputs and extra entries it signs, and
the attachments. -/
def separateDetails (E : Env) (tx : Transaction) : List TxinEtcDetails :=
  .signedParts (tx.vout.length % 2 ^ 32) (tx.extra.length % 2 ^ 32) ::
    ((attachmentInfoOf E tx.attachment).map TxinEtcDetails.extraAttachmentInfo).toList

/-- Append details to an input. A coinbase input has no place for them. -/
def Txin.addDetails (details : List TxinEtcDetails) : Txin → Txin
  | .gen height => .gen height
  | .toKey input => .toKey { input with etcDetails := input.etcDetails ++ details }
  | .multisig input => .multisig { input with etcDetails := input.etcDetails ++ details }

/-! ## The call -/

/-- The arguments of a call. The key pair is the one generated for a new transaction. -/
structure ConstructTx where
  senderAccountKeys : AccountKeys
  sources : List TxSourceEntry
  destinations : List TxDestinationEntry
  extra : List PayloadItem
  attachments : List PayloadItem
  unlockTime : Nat
  cryptDestinationAddr : AccountPublicAddress
  expirationTime : Nat
  txOutsAttr : Nat
  shuffle : Bool
  flags : Nat
  generated : Keypair

/-- Inputs are signed separately. -/
def ConstructTx.separate (args : ConstructTx) : Bool :=
  (args.flags &&& txFlagSignatureModeSeparate) != 0

/-- A transaction under construction and its secret key. -/
structure TxDraft where
  tx : Transaction
  oneTimeSecretKey : SecretKey
deriving DecidableEq, Inhabited

variable (E : Env)

/-- A new transaction without inputs and outputs. -/
def startTx (args : ConstructTx) : Transaction :=
  let unlocked := if args.unlockTime ≠ 0 then
    updateOrAddField isUnlockTime (.etcTxDetailsUnlockTime args.unlockTime) args.extra
    else args.extra
  let flagged := if args.flags ≠ 0 then
    updateOrAddField isFlags (.etcTxDetailsFlags args.flags) unlocked else unlocked
  let expiring := if args.expirationTime ≠ 0 then
    updateOrAddField isExpirationTime (.etcTxDetailsExpirationTime args.expirationTime) flagged
    else flagged
  encryptAttachments S
    { version := currentTransactionVersion, vin := [], vout := []
      extra := expiring ++ [.publicKey args.generated.pub], signatures := []
      attachment := args.attachments }
    args.senderAccountKeys args.cryptDestinationAddr args.generated

/-- A transaction with more extra entries and attachments, encrypted like the ones it has. -/
def appendTx (args : ConstructTx) (draft : TxDraft) : Option Transaction := do
  guard (draft.tx.getTxPubKeyFromExtra ≠ nullPkey ∧ draft.oneTimeSecretKey ≠ nullSkey)
  let derivation ← getEncryptionKeyDerivation S draft.tx args.senderAccountKeys
  guard (derivation ≠ nullDerivation)
  pure { draft.tx with
    attachment := draft.tx.attachment ++ (encryptAll S derivation args.attachments).1
    extra := draft.tx.extra ++ (encryptAll S derivation args.extra).1 }

/-- What a call builds on, and the transaction key. A separately signing call appends to a
transaction that has inputs. -/
def beginTx (args : ConstructTx) (draft : TxDraft) : Option (Transaction × Keypair) :=
  if args.separate && !draft.tx.vin.isEmpty then
    (appendTx S args draft).map fun tx =>
      (tx, ⟨draft.tx.getTxPubKeyFromExtra, draft.oneTimeSecretKey⟩)
  else some (startTx S args, args.generated)

/-- The signatures of a new input. -/
def signTxIn (source : TxSourceEntry) (input : Txin) (inEphemeral : Keypair)
    (txHashForSignature : Hash) : List Signature :=
  match input with
  | .toKey toKey =>
    S.generateRingSignature txHashForSignature toKey.kImage (source.outputs.map Prod.snd)
      inEphemeral.sec source.realOutput
  | _ => List.replicate source.msKeysCount nullSig

/-- Sign the new inputs from a number on. The last source of a complete separately signed
transaction adds a signature of the transaction key. -/
def signTxIns (args : ConstructTx) (txkey : Keypair) (tx : Transaction) (txPrefixHash : Hash) :
    Nat → List (TxSourceEntry × Txin × Keypair) → Option (List (List Signature))
  | _, [] => some []
  | inputIndex, (source, input, inEphemeral) :: rest => do
    let txHashForSignature := preparePrefixHashForSign E tx inputIndex txPrefixHash
    guard (txHashForSignature ≠ nullHash)
    let sigs := signTxIn S source input inEphemeral txHashForSignature
    guard (source.separatelySignedTxComplete = true →
      inputIndex = tx.vin.length - 1 ∧ args.separate = true ∧ txHashForSignature = txPrefixHash)
    let others ← signTxIns args txkey tx txPrefixHash (inputIndex + 1) rest
    pure ((if source.separatelySignedTxComplete then
      sigs ++ [S.generateSignature txPrefixHash txkey.pub txkey.sec] else sigs) :: others)

/-- The amounts of sources, destinations as in 64-bit words. -/
def summaryMoney (amounts : List Nat) : Nat := amounts.foldl addU64 0

/-- Construct a transaction or, in append mode, extend one. A failed call leaves a transaction
that is not used any more. -/
def constructTx (args : ConstructTx) (draft : TxDraft) : Option TxDraft := do
  guard (args.destinations.length ≤ currencyTxMaxAllowedOuts)
  let (tx, txkey) ← beginTx S args draft
  let inputs ← args.sources.mapM (constructTxIn S args.senderAccountKeys)
  let starter := tx.vin
  let dsts := if args.shuffle then
    args.destinations.mergeSort (fun a b => decide (a.amount ≤ b.amount)) else args.destinations
  let tx ← constructTxOuts S txkey.sec args.txOutsAttr dsts tx []
  guard (args.separate = true ∨ summaryMoney (dsts.map TxDestinationEntry.amount) ≤
    summaryMoney (args.sources.map TxSourceEntry.amount))
  let attachment ← deriveOfferKeys S args.senderAccountKeys.accountAddress txkey.sec 0
    tx.attachment
  let tx := { tx with attachment }
  let tx := if args.separate then
      { tx with vin := starter ++ inputs.map fun input =>
          input.1.addDetails (separateDetails E tx) }
    else
      { tx with
        vin := starter ++ inputs.map Prod.fst
        extra := tx.extra ++
          ((attachmentInfoOf E tx.attachment).map PayloadItem.extraAttachmentInfo).toList }
  let txPrefixHash := getTransactionHash E tx.toTransactionPrefix
  let sigs ← signTxIns S E args txkey tx txPrefixHash starter.length (args.sources.zip inputs)
  pure ⟨{ tx with signatures := tx.signatures ++ sigs }, txkey.sec⟩

end Construction

/-- Keys for concrete runs: a one-time key is the spend key plus seven. -/
def plainSending : Sending where
  generateKeyDerivation pub _ := some ⟨pub.val⟩
  derivePublicKey _ _ pub := some ⟨pub.val + 7⟩
  deriveSecretKey _ _ sec := sec
  secretKeyToPublicKey sec := some ⟨sec.val⟩
  generateSignature _ _ _ := ⟨1⟩
  generateKeyImage _ sec := ⟨sec.val⟩
  generateRingSignature _ _ _ _ _ := [⟨1⟩]
  cryptString text _ := text
  cryptAddress address _ := address
  cryptDerivation derivation _ := derivation
  pack body := body
  derivationHash derivation := derivation.val

end Virie
