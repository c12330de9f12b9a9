import Virie.Serialization.Format

/-! # The formats are sound

Every field of a value must fit the type it has in the source: numbers their width, characters a
byte, lists a 64-bit length. For such values each format of the node is lawful. -/

open Foundation

namespace Virie

/-! ## Values of the source's types -/

/-- A list whose length is a machine word and whose elements fit. -/
def FitsList {α : Type} (fits : α → Prop) (vs : List α) : Prop :=
  vs.length < 2 ^ 64 ∧ ∀ v ∈ vs, fits v

def Hash.Fits (h : Hash) : Prop := h.val < 256 ^ 32
def PublicKey.Fits (key : PublicKey) : Prop := key.val < 256 ^ 32
def SecretKey.Fits (key : SecretKey) : Prop := key.val < 256 ^ 32
def KeyImage.Fits (image : KeyImage) : Prop := image.val < 256 ^ 32
def KeyDerivation.Fits (derivation : KeyDerivation) : Prop := derivation.val < 256 ^ 32
def Signature.Fits (sig : Signature) : Prop := sig.val < 256 ^ 64

/-- A string of bytes. -/
def FitsString (str : String) : Prop :=
  str.toList.length < 2 ^ 64 ∧ ∀ c ∈ str.toList, c.toNat < 256

def AccountPublicAddress.Fits (address : AccountPublicAddress) : Prop :=
  address.spendPublicKey.Fits ∧ address.viewPublicKey.Fits

def ExtraAttachmentInfo.Fits (info : ExtraAttachmentInfo) : Prop :=
  info.sz < 2 ^ 64 ∧ info.hsh.Fits ∧ info.cnt < 2 ^ 64

def TxServiceAttachment.Fits (attachment : TxServiceAttachment) : Prop :=
  FitsString attachment.serviceId ∧ FitsString attachment.instruction ∧
    FitsString attachment.body ∧ FitsList PublicKey.Fits attachment.security ∧
    attachment.flags < 256 ^ 1

def ExtraAliasEntryBase.Fits (base : ExtraAliasEntryBase) : Prop :=
  base.address.Fits ∧ FitsString base.textComment ∧ FitsList SecretKey.Fits base.viewKey ∧
    FitsList Signature.Fits base.sign

def ExtraAliasEntry.Fits (entry : ExtraAliasEntry) : Prop :=
  FitsString entry.aliasName ∧ entry.toExtraAliasEntryBase.Fits

def PayloadItem.Fits : PayloadItem → Prop
  | .txServiceAttachment value => value.Fits
  | .txComment comment => FitsString comment
  | .txPayer accAddr => accAddr.Fits
  | .txReceiver accAddr => accAddr.Fits
  | .txMessage msg => FitsString msg
  | .string value => FitsString value
  | .txCryptoChecksum encrypted derivationHash => encrypted.Fits ∧ derivationHash < 256 ^ 4
  | .etcTxTime v => v < 2 ^ 64
  | .etcTxDetailsUnlockTime v => v < 2 ^ 64
  | .etcTxDetailsExpirationTime v => v < 2 ^ 64
  | .etcTxDetailsFlags v => v < 2 ^ 64
  | .publicKey value => value.Fits
  | .extraAttachmentInfo value => value.Fits
  | .extraAliasEntry value => value.Fits
  | .extraUserData buff => FitsString buff
  | .extraPadding buff => FitsList (· < 256 ^ 1) buff
  | .etcTxDerivationHint v => v < 256 ^ 2

def RefById.Fits (ref : RefById) : Prop := ref.txId.Fits ∧ ref.n < 2 ^ 32

def TxoutRef.Fits : TxoutRef → Prop
  | .index i => i < 256 ^ 8
  | .byId ref => ref.Fits

def TxinEtcDetails.Fits : TxinEtcDetails → Prop
  | .signedParts nOuts nExtras => nOuts < 2 ^ 32 ∧ nExtras < 2 ^ 32
  | .extraAttachmentInfo value => value.Fits

def TxinToKey.Fits (input : TxinToKey) : Prop :=
  input.amount < 2 ^ 64 ∧ FitsList TxoutRef.Fits input.keyOffsets ∧ input.kImage.Fits ∧
    FitsList TxinEtcDetails.Fits input.etcDetails

def TxinMultisig.Fits (input : TxinMultisig) : Prop :=
  input.amount < 2 ^ 64 ∧ input.multisigOutId.Fits ∧ input.sigsCount < 2 ^ 32 ∧
    FitsList TxinEtcDetails.Fits input.etcDetails

def Txin.Fits : Txin → Prop
  | .gen height => height < 2 ^ 64
  | .toKey input => input.Fits
  | .multisig input => input.Fits

def TxoutToKey.Fits (out : TxoutToKey) : Prop := out.key.Fits ∧ out.mixAttr < 256 ^ 1

def TxoutMultisig.Fits (out : TxoutMultisig) : Prop :=
  out.minimumSigs < 2 ^ 32 ∧ FitsList PublicKey.Fits out.keys

def TxoutTarget.Fits : TxoutTarget → Prop
  | .toKey out => out.Fits
  | .multisig out => out.Fits

def TxOut.Fits (out : TxOut) : Prop := out.amount < 2 ^ 64 ∧ out.target.Fits

def TransactionPrefix.Fits (tx : TransactionPrefix) : Prop :=
  tx.version < 2 ^ 64 ∧ FitsList Txin.Fits tx.vin ∧ FitsList TxOut.Fits tx.vout ∧
    FitsList PayloadItem.Fits tx.extra

def Transaction.Fits (tx : Transaction) : Prop :=
  tx.toTransactionPrefix.Fits ∧ FitsList (FitsList Signature.Fits) tx.signatures ∧
    FitsList PayloadItem.Fits tx.attachment

def BlockHeader.Fits (header : BlockHeader) : Prop :=
  header.majorVersion < 256 ^ 1 ∧ header.nonce < 256 ^ 8 ∧ header.prevId.Fits ∧
    header.minorVersion < 2 ^ 8 ∧ header.timestamp < 2 ^ 64 ∧ header.flags < 256 ^ 1

def Block.Fits (b : Block) : Prop :=
  b.toBlockHeader.Fits ∧ b.minerTx.Fits ∧ FitsList Hash.Fits b.txHashes

namespace Wire

/-! ## Blobs and strings -/

/-- A record is lawful with its fields: it fits when they do and is built from them. -/
theorem lawful_record {α β : Type} {codec : Codec α} {fits : α → Prop} (lawful : codec.Lawful fits)
    {build : α → β} {parts : β → α} (rebuilt : ∀ b, build (parts b) = b)
    (taken : ∀ a, parts (build a) = a) :
    (codec.imap build parts).Lawful fun b => fits (parts b) :=
  lawful.imap (fun b fitting => ⟨fitting, rebuilt b⟩) fun a fitting => by
    rw [taken a]
    exact ⟨fitting, rfl⟩

theorem lawful_hash : hash.Lawful Hash.Fits :=
  lawful_record (Codec.lawful_uint 32) (fun _ => rfl) fun _ => rfl

theorem lawful_publicKey : publicKey.Lawful PublicKey.Fits :=
  lawful_record (Codec.lawful_uint 32) (fun _ => rfl) fun _ => rfl

theorem lawful_secretKey : secretKey.Lawful SecretKey.Fits :=
  lawful_record (Codec.lawful_uint 32) (fun _ => rfl) fun _ => rfl

theorem lawful_keyImage : keyImage.Lawful KeyImage.Fits :=
  lawful_record (Codec.lawful_uint 32) (fun _ => rfl) fun _ => rfl

theorem lawful_keyDerivation : keyDerivation.Lawful KeyDerivation.Fits :=
  lawful_record (Codec.lawful_uint 32) (fun _ => rfl) fun _ => rfl

theorem lawful_signature : signature.Lawful Signature.Fits :=
  lawful_record (Codec.lawful_uint 64) (fun _ => rfl) fun _ => rfl

theorem productive_hash : hash.Productive := (Codec.productive_uint 31).imap _ _
theorem productive_publicKey : publicKey.Productive := (Codec.productive_uint 31).imap _ _
theorem productive_secretKey : secretKey.Productive := (Codec.productive_uint 31).imap _ _
theorem productive_signature : signature.Productive := (Codec.productive_uint 63).imap _ _

theorem lawful_bytes : (Codec.vector (Codec.uint 1)).Lawful (FitsList (· < 256 ^ 1)) :=
  (Codec.lawful_uint 1).vector (Codec.productive_uint 0)

theorem lawful_string : string.Lawful FitsString := by
  refine lawful_bytes.imap (fun str => ?_) (fun bytes => ?_)
  · rintro ⟨short, small⟩
    refine ⟨⟨by rw [List.length_map]; exact short, fun b member => ?_⟩, ?_⟩
    · obtain ⟨c, inside, rfl⟩ := List.mem_map.mp member
      exact small c inside
    · rw [List.map_map]
      have same : Char.ofNat ∘ Char.toNat = id := funext fun c => Char.ofNat_toNat c
      rw [same, List.map_id, String.ofList_toList]
  · rintro ⟨short, small⟩
    have code : ∀ b ∈ bytes, (Char.ofNat b).toNat = b := by
      intro b member
      have byte : b < 256 := small b member
      rw [Char.toNat_ofNat, if_pos (Or.inl (by omega))]
    have same : (bytes.map Char.ofNat).map Char.toNat = bytes := by
      rw [List.map_map]
      exact (List.map_congr_left code).trans (List.map_id _)
    refine ⟨⟨?_, fun c member => ?_⟩, ?_⟩
    · rw [String.toList_ofList, List.length_map]
      exact short
    · rw [String.toList_ofList] at member
      obtain ⟨b, inside, rfl⟩ := List.mem_map.mp member
      rw [code b inside]
      exact small b inside
    · rw [String.toList_ofList, same]

/-! ## Extra fields and attachments -/

theorem lawful_accountPublicAddress : accountPublicAddress.Lawful AccountPublicAddress.Fits :=
  lawful_record (lawful_publicKey.seq lawful_publicKey) (fun _ => rfl) fun _ => rfl

theorem lawful_varint64 : (Codec.varint 64).Lawful (· < 2 ^ 64) := Codec.lawful_varint (by decide)
theorem lawful_varint32 : (Codec.varint 32).Lawful (· < 2 ^ 32) := Codec.lawful_varint (by decide)

theorem lawful_extraAttachmentInfo : extraAttachmentInfo.Lawful ExtraAttachmentInfo.Fits :=
  lawful_record (lawful_varint64.seq (lawful_hash.seq lawful_varint64)) (fun _ => rfl) fun _ => rfl

theorem lawful_txServiceAttachment : txServiceAttachment.Lawful TxServiceAttachment.Fits :=
  lawful_record (lawful_string.seq (lawful_string.seq (lawful_string.seq
    ((lawful_publicKey.vector productive_publicKey).seq (Codec.lawful_uint 1)))))
    (fun _ => rfl) fun _ => rfl

theorem lawful_extraAliasEntryBase : extraAliasEntryBase.Lawful ExtraAliasEntryBase.Fits :=
  lawful_record (lawful_accountPublicAddress.seq (lawful_string.seq
    ((lawful_secretKey.vector productive_secretKey).seq
      (lawful_signature.vector productive_signature)))) (fun _ => rfl) fun _ => rfl

theorem lawful_extraAliasEntry : extraAliasEntry.Lawful ExtraAliasEntry.Fits :=
  lawful_record (lawful_string.seq lawful_extraAliasEntryBase) (fun _ => rfl) fun _ => rfl

/-- An alternative whose values are the ones with its tag is lawful for them. -/
theorem lawful_alternative {α β : Type} {codec : Codec α} {fits : α → Prop}
    (lawful : codec.Lawful fits) {inject : α → β} {project : β → Option α} {suits : β → Prop}
    (projects : ∀ a, project (inject a) = some a)
    (range : ∀ b, suits b ↔ ∃ a, b = inject a ∧ fits a) :
    (codec.alternative inject project).Lawful suits :=
  (lawful.alternative projects).congr range

theorem lawful_payloadItem : payloadItem.Lawful PayloadItem.Fits := by
  refine Codec.Lawful.variant ?_ fun v => by cases v <;> simp [payloadTag]
  simp only [List.forall_mem_cons, List.not_mem_nil, false_imp_iff, implies_true, and_true]
  refine ⟨lawful_alternative lawful_txServiceAttachment (fun _ => rfl) ?_,
    lawful_alternative lawful_string (fun _ => rfl) ?_,
    lawful_alternative lawful_accountPublicAddress (fun _ => rfl) ?_,
    lawful_alternative lawful_accountPublicAddress (fun _ => rfl) ?_,
    lawful_alternative lawful_string (fun _ => rfl) ?_,
    lawful_alternative lawful_string (fun _ => rfl) ?_,
    lawful_alternative (lawful_keyDerivation.seq (Codec.lawful_uint 4)) (fun _ => rfl) ?_,
    lawful_alternative lawful_varint64 (fun _ => rfl) ?_,
    lawful_alternative lawful_varint64 (fun _ => rfl) ?_,
    lawful_alternative lawful_varint64 (fun _ => rfl) ?_,
    lawful_alternative lawful_varint64 (fun _ => rfl) ?_,
    lawful_alternative lawful_publicKey (fun _ => rfl) ?_,
    lawful_alternative lawful_extraAttachmentInfo (fun _ => rfl) ?_,
    lawful_alternative lawful_extraAliasEntry (fun _ => rfl) ?_,
    lawful_alternative lawful_string (fun _ => rfl) ?_,
    lawful_alternative lawful_bytes (fun _ => rfl) ?_,
    lawful_alternative (Codec.lawful_uint 2) (fun _ => rfl) ?_⟩ <;>
  · intro v
    cases v <;> simp [PayloadItem.Fits, payloadTag]

/-! ## Inputs and outputs -/

theorem lawful_refById : refById.Lawful RefById.Fits :=
  lawful_record (lawful_hash.seq lawful_varint32) (fun _ => rfl) fun _ => rfl

theorem lawful_txoutRef : txoutRef.Lawful TxoutRef.Fits := by
  refine Codec.Lawful.variant ?_ fun v => by cases v <;> simp [txoutRefTag]
  simp only [List.forall_mem_cons, List.not_mem_nil, false_imp_iff, implies_true, and_true]
  refine ⟨lawful_alternative (Codec.lawful_uint 8) (fun _ => rfl) ?_,
    lawful_alternative lawful_refById (fun _ => rfl) ?_⟩ <;>
  · intro v
    cases v <;> simp [TxoutRef.Fits, txoutRefTag]

theorem lawful_txinEtcDetails : txinEtcDetails.Lawful TxinEtcDetails.Fits := by
  refine Codec.Lawful.variant ?_ fun v => by cases v <;> simp [txinEtcDetailsTag]
  simp only [List.forall_mem_cons, List.not_mem_nil, false_imp_iff, implies_true, and_true]
  refine ⟨lawful_alternative (lawful_varint32.seq lawful_varint32) (fun _ => rfl) ?_,
    lawful_alternative lawful_extraAttachmentInfo (fun _ => rfl) ?_⟩ <;>
  · intro v
    cases v <;> simp [TxinEtcDetails.Fits, txinEtcDetailsTag]

theorem lawful_etcDetails : (Codec.vector txinEtcDetails).Lawful (FitsList TxinEtcDetails.Fits) :=
  lawful_txinEtcDetails.vector (Codec.productive_variant _ _)

theorem lawful_txinToKey : txinToKey.Lawful TxinToKey.Fits :=
  lawful_record (lawful_varint64.seq ((lawful_txoutRef.vector (Codec.productive_variant _ _)).seq
    (lawful_keyImage.seq lawful_etcDetails))) (fun _ => rfl) fun _ => rfl

theorem lawful_txinMultisig : txinMultisig.Lawful TxinMultisig.Fits :=
  lawful_record (lawful_varint64.seq (lawful_hash.seq (lawful_varint32.seq lawful_etcDetails)))
    (fun _ => rfl) fun _ => rfl

theorem lawful_txin : txin.Lawful Txin.Fits := by
  refine Codec.Lawful.variant ?_ fun v => by cases v <;> simp [txinTag]
  simp only [List.forall_mem_cons, List.not_mem_nil, false_imp_iff, implies_true, and_true]
  refine ⟨lawful_alternative lawful_varint64 (fun _ => rfl) ?_,
    lawful_alternative lawful_txinToKey (fun _ => rfl) ?_,
    lawful_alternative lawful_txinMultisig (fun _ => rfl) ?_⟩ <;>
  · intro v
    cases v <;> simp [Txin.Fits, txinTag]

theorem lawful_txoutToKey : txoutToKey.Lawful TxoutToKey.Fits :=
  lawful_record (lawful_publicKey.seq (Codec.lawful_uint 1)) (fun _ => rfl) fun _ => rfl

theorem lawful_txoutMultisig : txoutMultisig.Lawful TxoutMultisig.Fits :=
  lawful_record (lawful_varint32.seq (lawful_publicKey.vector productive_publicKey))
    (fun _ => rfl) fun _ => rfl

theorem lawful_txoutTarget : txoutTarget.Lawful TxoutTarget.Fits := by
  refine Codec.Lawful.variant ?_ fun v => by cases v <;> simp [txoutTargetTag]
  simp only [List.forall_mem_cons, List.not_mem_nil, false_imp_iff, implies_true, and_true]
  refine ⟨lawful_alternative lawful_txoutToKey (fun _ => rfl) ?_,
    lawful_alternative lawful_txoutMultisig (fun _ => rfl) ?_⟩ <;>
  · intro v
    cases v <;> simp [TxoutTarget.Fits, txoutTargetTag]

theorem lawful_txOut : txOut.Lawful TxOut.Fits :=
  lawful_record (lawful_varint64.seq lawful_txoutTarget) (fun _ => rfl) fun _ => rfl

theorem productive_txOut : txOut.Productive := ((Codec.productive_varint 64).seq _).imap _ _

/-! ## Transactions and blocks -/

theorem lawful_payload : (Codec.vector payloadItem).Lawful (FitsList PayloadItem.Fits) :=
  lawful_payloadItem.vector (Codec.productive_variant _ _)

/-- The prefix of a transaction is written and read unless its version is above the current one. -/
theorem lawful_transactionPrefix :
    transactionPrefix.Lawful fun tx => tx.Fits ∧ tx.version ≤ currentTransactionVersion := by
  refine (lawful_record ((lawful_varint64.guarded _).seq
    ((lawful_txin.vector (Codec.productive_variant _ _)).seq
      ((lawful_txOut.vector productive_txOut).seq lawful_payload))) (fun _ => rfl)
      fun _ => rfl).congr fun tx => ?_
  simp only [TransactionPrefix.Fits, Bool.not_eq_true', decide_eq_false_iff_not, Nat.not_lt]
  constructor
  · rintro ⟨⟨small, rest⟩, known⟩
    exact ⟨⟨small, known⟩, rest⟩
  · rintro ⟨⟨small, known⟩, rest⟩
    exact ⟨⟨small, rest⟩, known⟩

theorem lawful_transaction :
    transaction.Lawful fun tx => tx.Fits ∧ tx.version ≤ currentTransactionVersion := by
  refine (lawful_record (lawful_transactionPrefix.seq
    (((lawful_signature.vector productive_signature).vector (Codec.productive_vector _)).seq
      lawful_payload)) (fun _ => rfl) fun _ => rfl).congr fun tx => ?_
  constructor
  · rintro ⟨⟨front, rest⟩, known⟩
    exact ⟨⟨front, known⟩, rest⟩
  · rintro ⟨⟨front, known⟩, rest⟩
    exact ⟨⟨front, rest⟩, known⟩

theorem lawful_blockHeader :
    blockHeader.Lawful fun header =>
      header.Fits ∧ header.majorVersion ≤ currentBlockMajorVersion := by
  refine (lawful_record (((Codec.lawful_uint 1).guarded _).seq ((Codec.lawful_uint 8).seq
    (lawful_hash.seq ((Codec.lawful_varint (by decide)).seq (lawful_varint64.seq
      (Codec.lawful_uint 1)))))) (fun _ => rfl) fun _ => rfl).congr fun header => ?_
  simp only [BlockHeader.Fits, Bool.not_eq_true', decide_eq_false_iff_not, gt_iff_lt, Nat.not_lt]
  constructor
  · rintro ⟨⟨small, rest⟩, known⟩
    exact ⟨⟨small, known⟩, rest⟩
  · rintro ⟨⟨small, known⟩, rest⟩
    exact ⟨⟨small, rest⟩, known⟩

theorem lawful_block :
    block.Lawful fun b => b.Fits ∧ b.majorVersion ≤ currentBlockMajorVersion ∧
      b.minerTx.version ≤ currentTransactionVersion := by
  refine (lawful_record (lawful_blockHeader.seq (lawful_transaction.seq
    (lawful_hash.vector productive_hash))) (fun _ => rfl) fun _ => rfl).congr fun b => ?_
  constructor
  · rintro ⟨⟨front, minerTx, rest⟩, known, knownToo⟩
    exact ⟨⟨front, known⟩, ⟨minerTx, knownToo⟩, rest⟩
  · rintro ⟨⟨front, known⟩, ⟨minerTx, knownToo⟩, rest⟩
    exact ⟨⟨front, minerTx, rest⟩, known, knownToo⟩

end Wire

end Virie
