import Virie.Decryption
import Virie.Foundation.Interspersed
import Virie.SeparateSignatures

/-! # Both parties read the payload

A new transaction is encrypted for the first foreign destination, and a checksum entry lets the
sender find the key again. Bodies are packed whether or not anything is encrypted, but unpacked
only with a confirmed key: without an encrypted item there is no checksum entry, and packed bodies
stay packed for everybody. With one, both parties read all items, also those that the recipient
appends later. -/

open Foundation

namespace Virie

/-- The first destination that is neither shared nor the sender, or the sender. -/
def getCryptAddressFromDestinations (senderAccountKeys : AccountKeys)
    (destinations : List TxDestinationEntry) : AccountPublicAddress :=
  (destinations.findSome? fun de =>
    match de.addr with
    | [addr] => if senderAccountKeys.accountAddress ≠ addr then some addr else none
    | _ => none).getD senderAccountKeys.accountAddress

/-! ## Kinds of items -/

/-- The kinds of entries that the construction of a transaction writes itself. -/
def PayloadItem.isOwnKind : PayloadItem → Bool
  | .txCryptoChecksum _ _ => true
  | .publicKey _ => true
  | .etcTxDerivationHint _ => true
  | .extraAttachmentInfo _ => true
  | .etcTxDetailsUnlockTime _ => true
  | .etcTxDetailsExpirationTime _ => true
  | .etcTxDetailsFlags _ => true
  | _ => false

def PayloadItem.checksumEntry : PayloadItem → Option (KeyDerivation × Nat)
  | .txCryptoChecksum encrypted derivationHash => some (encrypted, derivationHash)
  | _ => none

def PayloadItem.publicKeyEntry : PayloadItem → Option PublicKey
  | .publicKey value => some value
  | _ => none

/-- An item without the keys that are derived for it. -/
def PayloadItem.keyless : PayloadItem → PayloadItem
  | .txServiceAttachment tsa =>
    .txServiceAttachment { tsa with security := tsa.security.map fun _ => nullPkey }
  | other => other

/-- The item is of an encrypted kind. -/
def PayloadItem.isEncrypted : PayloadItem → Bool
  | .txComment _ => true
  | .txPayer _ => true
  | .txReceiver _ => true
  | .txMessage _ => true
  | .txServiceAttachment sa => (sa.flags &&& txServiceAttachmentEncryptBody) != 0
  | _ => false

/-- Packing does not change the item. -/
def PayloadItem.PackedAlike (R : Reading) : PayloadItem → Prop
  | .txServiceAttachment sa =>
    (sa.flags &&& txServiceAttachmentDeflateBody) ≠ 0 → R.pack sa.body = sa.body
  | _ => True

/-- What the reader relies on: the cipher undoes itself, unpacking undoes packing, and both sides
derive the same key, which is never null. -/
structure Reading.Laws (R : Reading) : Prop where
  cryptString : ∀ text key, R.cryptString (R.cryptString text key) key = text
  cryptAddress : ∀ address key, R.cryptAddress (R.cryptAddress address key) key = address
  cryptDerivation : ∀ derivation key,
    R.cryptDerivation (R.cryptDerivation derivation key) key = derivation
  unpack : ∀ body, R.unpack (R.pack body) = body
  symmetric : ∀ {pub sec pubToo secToo}, R.Matching pub sec → R.Matching pubToo secToo →
    R.generateKeyDerivation pub secToo = R.generateKeyDerivation pubToo sec
  nonnull : ∀ {pub sec derivation}, R.generateKeyDerivation pub sec = some derivation →
    derivation ≠ nullDerivation

/-- An item as it stands in a transaction: encrypted, if a key could be derived. -/
def sealItem (R : Reading) (derivation : Option KeyDerivation) (item : PayloadItem) :
    PayloadItem :=
  (derivation.map fun key => (encryptAttach R.toSending key item).1).getD item

section Items

variable {R : Reading} {derivation : Option KeyDerivation} {key : KeyDerivation}
  {item : PayloadItem}

theorem encryptAttach_flag (key : KeyDerivation) (item : PayloadItem) :
    (encryptAttach R.toSending key item).2 = item.isEncrypted := by
  cases item with
  | txServiceAttachment sa =>
    unfold encryptAttach PayloadItem.isEncrypted
    dsimp only
    cases (sa.flags &&& txServiceAttachmentEncryptBody) != 0 with
    | true => rfl
    | false => rfl
  | _ => rfl

theorem sealItem_own (own : item.isOwnKind = true) : sealItem R derivation item = item := by
  cases derivation with
  | none => rfl
  | some key =>
    cases item with
    | txServiceAttachment sa => cases own
    | txComment comment => cases own
    | txPayer accAddr => cases own
    | txReceiver accAddr => cases own
    | txMessage msg => cases own
    | _ => rfl

theorem sealItem_checksumEntry (item : PayloadItem) :
    (sealItem R derivation item).checksumEntry = item.checksumEntry := by
  cases derivation with
  | none => rfl
  | some key =>
    cases item with
    | txServiceAttachment sa =>
      simp only [sealItem, Option.map_some, Option.getD_some, encryptAttach]
      split <;> rfl
    | _ => rfl

theorem sealItem_publicKeyEntry (item : PayloadItem) :
    (sealItem R derivation item).publicKeyEntry = item.publicKeyEntry := by
  cases derivation with
  | none => rfl
  | some key =>
    cases item with
    | txServiceAttachment sa =>
      simp only [sealItem, Option.map_some, Option.getD_some, encryptAttach]
      split <;> rfl
    | _ => rfl

theorem sealItem_keyless (item : PayloadItem) :
    (sealItem R derivation item).keyless = sealItem R derivation item.keyless := by
  cases derivation with
  | none => rfl
  | some key =>
    cases item with
    | txServiceAttachment sa =>
      simp only [sealItem, Option.map_some, Option.getD_some, encryptAttach, PayloadItem.keyless]
      cases (sa.flags &&& txServiceAttachmentEncryptBody) != 0 with
      | true => rfl
      | false => rfl
    | _ => rfl

theorem keyless_checksumEntry (item : PayloadItem) :
    item.keyless.checksumEntry = item.checksumEntry := by
  cases item with
  | _ => rfl

theorem keyless_isOwnKind (item : PayloadItem) : item.keyless.isOwnKind = item.isOwnKind := by
  cases item with
  | _ => rfl

theorem decryptAttach_keyless (item : PayloadItem) :
    (decryptAttach R key item).keyless = decryptAttach R key item.keyless := by
  cases item with
  | _ => rfl

/-- Decryption with the key undoes encryption. -/
theorem decryptAttach_seal (laws : R.Laws) (item : PayloadItem) :
    decryptAttach R key (sealItem R (some key) item) = item := by
  cases item with
  | txComment comment => exact congrArg PayloadItem.txComment (laws.cryptString comment key)
  | txMessage msg => exact congrArg PayloadItem.txMessage (laws.cryptString msg key)
  | txPayer accAddr => exact congrArg PayloadItem.txPayer (laws.cryptAddress accAddr key)
  | txReceiver accAddr => exact congrArg PayloadItem.txReceiver (laws.cryptAddress accAddr key)
  | txServiceAttachment sa =>
    obtain ⟨serviceId, instruction, body, security, flags⟩ := sa
    simp only [sealItem, Option.map_some, Option.getD_some, encryptAttach]
    cases encrypt : (flags &&& txServiceAttachmentEncryptBody) != 0 with
    | true =>
      simp only [↓reduceIte, decryptAttach, encrypt, laws.cryptString]
      cases deflate : (flags &&& txServiceAttachmentDeflateBody) != 0 with
      | true => simp only [↓reduceIte, laws.unpack]
      | false => rfl
    | false =>
      simp only [Bool.false_eq_true, ↓reduceIte, decryptAttach, encrypt]
      cases deflate : (flags &&& txServiceAttachmentDeflateBody) != 0 with
      | true => simp only [↓reduceIte, laws.unpack]
      | false => rfl
  | _ => rfl

/-- An item that is not encrypted stays as it is exactly when packing does not change it. -/
theorem sealItem_eq_iff (plain : item.isEncrypted = false) :
    sealItem R (some key) item = item ↔ item.PackedAlike R := by
  cases item with
  | txServiceAttachment sa =>
    obtain ⟨serviceId, instruction, body, security, flags⟩ := sa
    simp only [PayloadItem.isEncrypted] at plain
    simp only [sealItem, Option.map_some, Option.getD_some, encryptAttach, plain,
      Bool.false_eq_true, ↓reduceIte, PayloadItem.PackedAlike]
    cases deflate : (flags &&& txServiceAttachmentDeflateBody) != 0 with
    | true =>
      rw [bne_iff_ne] at deflate
      simp only [↓reduceIte, PayloadItem.txServiceAttachment.injEq,
        TxServiceAttachment.mk.injEq, true_and, and_true, deflate, ne_eq, not_false_eq_true,
        true_implies]
    | false =>
      rw [bne_eq_false_iff_eq] at deflate
      simp only [Bool.false_eq_true, ↓reduceIte, deflate, ne_eq, not_true_eq_false, false_implies]
  | txComment comment => cases plain
  | txPayer accAddr => cases plain
  | txReceiver accAddr => cases plain
  | txMessage msg => cases plain
  | _ => exact iff_of_true rfl trivial

end Items

/-! ## What a call writes -/

/-- An entry that is written after the payload: neither a checksum nor a key. -/
def PayloadItem.isTrailing : PayloadItem → Bool
  | .txCryptoChecksum _ _ => false
  | .publicKey _ => false
  | other => other.isOwnKind

section Calls

variable {S : Sending} {E : Env}

theorem constructTargetKey_trailing {txSecKey : SecretKey} {outputIndex : Nat}
    {state next : List PublicKey × List PayloadItem × List Nat} {apa : AccountPublicAddress}
    (constructed : constructTargetKey S txSecKey outputIndex state apa = some next) :
    ∃ hints, next.2.1 = state.2.1 ++ hints ∧ ∀ item ∈ hints, item.isTrailing = true := by
  obtain ⟨targetKeys, extra, derivCache⟩ := state
  simp only [constructTargetKey] at constructed
  split at constructed
  · obtain rfl := Option.some.inj constructed
    exact ⟨[], (List.append_nil _).symm, fun _ member => by cases member⟩
  · simp only [Option.bind_eq_bind, Option.bind_eq_some_iff] at constructed
    obtain ⟨⟨key, derivation⟩, _, constructed⟩ := constructed
    split at constructed
    · obtain rfl := Option.some.inj constructed
      exact ⟨[], (List.append_nil _).symm, fun _ member => by cases member⟩
    · obtain rfl := Option.some.inj constructed
      refine ⟨_, rfl, fun item member => ?_⟩
      rw [List.mem_singleton.mp member]
      rfl

theorem constructTargetKeys_trailing {txSecKey : SecretKey} {outputIndex : Nat}
    {addr : List AccountPublicAddress} {state final : List PublicKey × List PayloadItem × List Nat}
    (constructed : addr.foldlM (constructTargetKey S txSecKey outputIndex) state = some final) :
    ∃ hints, final.2.1 = state.2.1 ++ hints ∧ ∀ item ∈ hints, item.isTrailing = true := by
  induction addr generalizing state with
  | nil =>
    obtain rfl := Option.some.inj constructed
    exact ⟨[], (List.append_nil _).symm, fun _ member => by cases member⟩
  | cons apa rest ih =>
    rw [List.foldlM_cons, Option.bind_eq_bind, Option.bind_eq_some_iff] at constructed
    obtain ⟨next, first, later⟩ := constructed
    obtain ⟨hints, here, own⟩ := constructTargetKey_trailing first
    obtain ⟨more, there, ownToo⟩ := ih later
    refine ⟨hints ++ more, by rw [there, here, List.append_assoc], fun item member => ?_⟩
    rcases List.mem_append.mp member with early | late
    · exact own item early
    · exact ownToo item late

/-- The outputs of a call leave hints in the extra field and nothing else. -/
theorem constructTxOuts_trailing {txSecKey : SecretKey} {txOutsAttr : Nat}
    {dsts : List TxDestinationEntry} {tx after : Transaction} {derivCache : List Nat}
    (constructed : constructTxOuts S txSecKey txOutsAttr dsts tx derivCache = some after) :
    ∃ hints, after.extra = tx.extra ++ hints ∧ ∀ item ∈ hints, item.isTrailing = true := by
  induction dsts generalizing tx derivCache with
  | nil =>
    obtain rfl := Option.some.inj constructed
    exact ⟨[], (List.append_nil _).symm, fun _ member => by cases member⟩
  | cons de rest ih =>
    simp only [constructTxOuts, Option.bind_eq_bind, Option.bind_eq_some_iff, Prod.exists]
      at constructed
    obtain ⟨_, _, next, cache, first, later⟩ := constructed
    simp only [constructTxOut, Option.bind_eq_bind, Option.bind_eq_some_iff, Option.pure_def,
      Option.some.injEq, Prod.mk.injEq] at first
    obtain ⟨_, _, _, keys, rfl, _⟩ := first
    obtain ⟨hints, here, own⟩ := constructTargetKeys_trailing keys
    obtain ⟨more, there, ownToo⟩ := ih later
    refine ⟨hints ++ more, ?_, fun item member => ?_⟩
    · rw [there]
      dsimp only
      rw [here, List.append_assoc]
    · rcases List.mem_append.mp member with early | late
      · exact own item early
      · exact ownToo item late

/-- Deriving the keys of attachments changes nothing but these keys. -/
theorem deriveOfferKeys_keyless {senderAddr : AccountPublicAddress} {oneTimeSecretKey : SecretKey}
    {attCount : Nat} {items derived : List PayloadItem}
    (keys : deriveOfferKeys S senderAddr oneTimeSecretKey attCount items = some derived) :
    derived.map PayloadItem.keyless = items.map PayloadItem.keyless := by
  induction items generalizing attCount derived with
  | nil =>
    obtain rfl := Option.some.inj keys
    rfl
  | cons item rest ih =>
    cases item with
    | txServiceAttachment tsa =>
      simp only [deriveOfferKeys, Option.bind_eq_bind, Option.bind_eq_some_iff, Option.pure_def,
        Option.some.injEq] at keys
      obtain ⟨first, made, others, later, rfl⟩ := keys
      rw [List.map_cons, List.map_cons, ih later]
      congr 1
      obtain ⟨serviceId, instruction, body, security, flags⟩ := tsa
      unfold deriveOfferKey at made
      split at made
      · obtain rfl := Option.some.inj made
        rfl
      · next one =>
        obtain ⟨_, _, rfl⟩ := Option.map_eq_some_iff.mp made
        change security = [_] at one
        rw [one]
        rfl
      · cases made
    | _ =>
      simp only [deriveOfferKeys, Option.bind_eq_bind, Option.bind_eq_some_iff, Option.pure_def,
        Option.some.injEq] at keys
      obtain ⟨others, later, rfl⟩ := keys
      rw [List.map_cons, List.map_cons, ih later]

/-- What a call leaves of the payload it begins with: hints and attachment infos are appended to
the extra field, and the keys of the attachments are derived. -/
theorem constructTx_payload {args : ConstructTx} {draft result : TxDraft}
    (built : constructTx S E args draft = some result) :
    ∃ base txkey trailing, beginTx S args draft = some (base, txkey) ∧
      result.tx.extra = base.extra ++ trailing ∧ (∀ item ∈ trailing, item.isTrailing = true) ∧
      result.tx.attachment.map PayloadItem.keyless = base.attachment.map PayloadItem.keyless ∧
      (base.vin ≠ [] → result.tx.vin ≠ []) := by
  simp only [constructTx, Option.bind_eq_bind, Option.bind_eq_some_iff,
    Option.guard_eq_some', Option.pure_def, Option.some.injEq] at built
  obtain ⟨_, _, ⟨base, txkey⟩, started, inputs, _, grown, outs, _, _, attachment, keys, sigs, _,
    rfl⟩ := built
  obtain ⟨hints, extra, own⟩ := constructTxOuts_trailing outs
  have grows := constructTxOuts_grows outs
  have keyless := deriveOfferKeys_keyless keys
  rw [grows.attachment] at keyless
  cases separate : args.separate with
  | true =>
    refine ⟨base, txkey, hints, started, ?_, own, ?_, fun some_ none => some_ ?_⟩
    · simpa only [↓reduceIte] using extra
    · simpa only [↓reduceIte] using keyless
    · simp only [↓reduceIte] at none
      exact (List.append_eq_nil_iff.mp none).1
  | false =>
    refine ⟨base, txkey, hints ++ ((attachmentInfoOf E attachment).map
      PayloadItem.extraAttachmentInfo).toList, started, ?_, fun item member => ?_, ?_,
      fun some_ none => some_ ?_⟩
    · simp only [Bool.false_eq_true, ↓reduceIte, extra, List.append_assoc]
    · rcases List.mem_append.mp member with early | late
      · exact own item early
      · obtain ⟨_, _, rfl⟩ := Option.map_eq_some_iff.mp (Option.mem_toList.mp late)
        rfl
    · simpa only [Bool.false_eq_true, ↓reduceIte] using keyless
    · simp only [Bool.false_eq_true, ↓reduceIte] at none
      exact (List.append_eq_nil_iff.mp none).1

end Calls

/-! ## The payload of a new transaction -/

theorem PayloadItem.isOwnKind_of_trailing {item : PayloadItem} (own : item.isTrailing = true) :
    item.isOwnKind = true := by
  cases item with
  | txCryptoChecksum encrypted derivationHash => cases own
  | publicKey value => cases own
  | _ => exact own

theorem PayloadItem.checksumEntry_of_trailing {item : PayloadItem}
    (own : item.isTrailing = true) : item.checksumEntry = none := by
  cases item with
  | txCryptoChecksum encrypted derivationHash => cases own
  | _ => rfl

theorem PayloadItem.publicKeyEntry_of_trailing {item : PayloadItem}
    (own : item.isTrailing = true) : item.publicKeyEntry = none := by
  cases item with
  | publicKey value => cases own
  | _ => rfl

theorem PayloadItem.isEncrypted_of_own {item : PayloadItem} (own : item.isOwnKind = true) :
    item.isEncrypted = false := by
  cases item with
  | txComment comment => cases own
  | txPayer accAddr => cases own
  | txReceiver accAddr => cases own
  | txMessage msg => cases own
  | txServiceAttachment sa => cases own
  | _ => rfl

/-- An entry of a kind that an argument sets has the value of the argument. -/
def KeepsField (sameType : PayloadItem → Bool) (entry : PayloadItem) (extra : List PayloadItem) :
    Prop :=
  ∀ found, extra.find? sameType = some found → found = entry

section Fields

variable {sameType other : PayloadItem → Bool} {entry : PayloadItem}

theorem updateOrAddField_trailing (own : entry.isTrailing = true) {extra : List PayloadItem}
    (keeps : KeepsField sameType entry extra) :
    Interspersed (fun item => item.isTrailing = true) extra
      (updateOrAddField sameType entry extra) := by
  induction extra with
  | nil => exact .extra own .nil
  | cons ev rest ih =>
    unfold updateOrAddField
    by_cases same : sameType ev = true
    · have kept := keeps ev (List.find?_cons_of_pos same)
      rw [if_pos same, ← kept]
      exact .refl _
    · rw [if_neg same]
      refine .item (ih fun found there => keeps found ?_)
      rw [List.find?_cons_of_neg same]
      exact there

theorem find?_updateOrAddField (new : other entry = false)
    (apart : ∀ item, sameType item = true → other item = false) (extra : List PayloadItem) :
    (updateOrAddField sameType entry extra).find? other = extra.find? other := by
  induction extra with
  | nil => rw [updateOrAddField, List.find?_cons, new]
  | cons ev rest ih =>
    unfold updateOrAddField
    by_cases same : sameType ev = true
    · rw [if_pos same, List.find?_cons, List.find?_cons, new, apart ev same]
    · rw [if_neg same, List.find?_cons, List.find?_cons, ih]

/-- Set a field whose argument is not zero. -/
def setField (value : Nat) (sameType : PayloadItem → Bool) (entry : PayloadItem)
    (extra : List PayloadItem) : List PayloadItem :=
  if value ≠ 0 then updateOrAddField sameType entry extra else extra

theorem setField_trailing {value : Nat} (own : entry.isTrailing = true) {extra : List PayloadItem}
    (keeps : value ≠ 0 → KeepsField sameType entry extra) :
    Interspersed (fun item => item.isTrailing = true) extra
      (setField value sameType entry extra) := by
  unfold setField
  by_cases set : value ≠ 0
  · rw [if_pos set]
    exact updateOrAddField_trailing own (keeps set)
  · rw [if_neg set]
    exact .refl _

theorem setField_keeps {value : Nat} {entryToo : PayloadItem} (new : other entry = false)
    (apart : ∀ item, sameType item = true → other item = false) {extra : List PayloadItem}
    (keeps : KeepsField other entryToo extra) :
    KeepsField other entryToo (setField value sameType entry extra) := by
  intro found there
  refine keeps found ?_
  unfold setField at there
  split at there
  · rw [← there]
    exact (find?_updateOrAddField new apart extra).symm
  · exact there

end Fields

/-- Something that a call is asked to write is of an encrypted kind. -/
def ConstructTx.encrypts (args : ConstructTx) : Bool :=
  (args.extra ++ args.attachments).any PayloadItem.isEncrypted

/-- The items of a call and of later ones do not take the place of what the first one writes: no
entry is replaced by an argument, there are no checksum entries, and where something is encrypted
no transaction keys. -/
structure Untouched (args : ConstructTx) (calls : List ConstructTx) : Prop where
  unlock : args.unlockTime ≠ 0 →
    KeepsField isUnlockTime (.etcTxDetailsUnlockTime args.unlockTime) args.extra
  flags : args.flags ≠ 0 → KeepsField isFlags (.etcTxDetailsFlags args.flags) args.extra
  expiration : args.expirationTime ≠ 0 →
    KeepsField isExpirationTime (.etcTxDetailsExpirationTime args.expirationTime) args.extra
  checksums : ∀ item ∈ args.extra ++ args.attachments, item.checksumEntry = none
  laterChecksums : ∀ call ∈ calls, ∀ item ∈ call.extra, item.checksumEntry = none
  keys : args.encrypts = true → ∀ item ∈ args.extra, item.publicKeyEntry = none

section First

variable {R : Reading} {args : ConstructTx} {calls : List ConstructTx}

/-- The extra entries with the times and flags of the arguments. -/
def fieldsOf (args : ConstructTx) : List PayloadItem :=
  setField args.expirationTime isExpirationTime (.etcTxDetailsExpirationTime args.expirationTime)
    (setField args.flags isFlags (.etcTxDetailsFlags args.flags)
      (setField args.unlockTime isUnlockTime (.etcTxDetailsUnlockTime args.unlockTime) args.extra))

theorem startTx_eq (args : ConstructTx) :
    startTx R.toSending args = encryptAttachments R.toSending
      { version := currentTransactionVersion, vin := [], vout := []
        extra := fieldsOf args ++ [.publicKey args.generated.pub], signatures := []
        attachment := args.attachments }
      args.senderAccountKeys args.cryptDestinationAddr args.generated := rfl

theorem Untouched.fields (untouched : Untouched args calls) :
    Interspersed (fun item => item.isTrailing = true) args.extra (fieldsOf args) := by
  have flagsApart : ∀ item, isUnlockTime item = true → isFlags item = false := fun item same => by
    cases item <;> first | rfl | cases same
  have expirationApart : ∀ item, isUnlockTime item = true → isExpirationTime item = false :=
    fun item same => by cases item <;> first | rfl | cases same
  have expirationFlags : ∀ item, isFlags item = true → isExpirationTime item = false :=
    fun item same => by cases item <;> first | rfl | cases same
  refine (setField_trailing rfl untouched.unlock).trans
    ((setField_trailing rfl fun set => ?_).trans (setField_trailing rfl fun set => ?_))
  · exact setField_keeps rfl flagsApart (untouched.flags set)
  · exact setField_keeps rfl expirationFlags
      (setField_keeps rfl expirationApart (untouched.expiration set))

/-- The checksum entry of a key. -/
def checksumFor (R : Reading) (senderKeys : AccountKeys) (key : KeyDerivation) : PayloadItem :=
  .txCryptoChecksum (R.cryptDerivation key senderKeys.spendSecretKey) (R.derivationHash key)

/-- The checksum entry of a new transaction stands in its extra field or among its attachments,
if it is there. -/
theorem encryptAttachments_payload (tx : Transaction) (senderKeys : AccountKeys)
    (addr : AccountPublicAddress) (txkey : Keypair) :
    ∃ toExtra toAttachment,
      (encryptAttachments R.toSending tx senderKeys addr txkey).extra = (tx.extra ++ toExtra).map
        (sealItem R (R.generateKeyDerivation addr.viewPublicKey txkey.sec)) ∧
      (encryptAttachments R.toSending tx senderKeys addr txkey).attachment =
        (tx.attachment ++ toAttachment).map
          (sealItem R (R.generateKeyDerivation addr.viewPublicKey txkey.sec)) ∧
      toExtra ++ toAttachment =
        if (tx.extra ++ tx.attachment).any PayloadItem.isEncrypted then
          ((R.generateKeyDerivation addr.viewPublicKey txkey.sec).map
            (checksumFor R senderKeys)).toList
        else [] := by
  unfold encryptAttachments
  cases derived : R.generateKeyDerivation addr.viewPublicKey txkey.sec with
  | none =>
    have still : sealItem R none = id := rfl
    refine ⟨[], [], ?_, ?_, ?_⟩
    · rw [still, List.map_id, List.append_nil]
    · rw [still, List.map_id, List.append_nil]
    · rw [Option.map_none, Option.toList_none, ite_self, List.append_nil]
  | some key =>
    have flags : ∀ items : List PayloadItem, (encryptAll R.toSending key items).2 =
        items.any PayloadItem.isEncrypted := fun items => by
      simp only [encryptAll, encryptAttach_flag]
    have sealed : ∀ items : List PayloadItem, (encryptAll R.toSending key items).1 =
        items.map (sealItem R (some key)) := fun items => rfl
    have checksum : sealItem R (some key) (checksumFor R senderKeys key) =
        checksumFor R senderKeys key := rfl
    dsimp only
    rw [flags, flags, sealed, sealed, List.any_append]
    cases inExtra : tx.extra.any PayloadItem.isEncrypted with
    | true =>
      refine ⟨[checksumFor R senderKeys key], [], ?_, ?_, rfl⟩
      · rw [if_pos rfl, List.map_append, List.map_singleton, checksum]
        rfl
      · rw [if_pos rfl, List.append_nil]
    | false =>
      rw [if_neg Bool.false_ne_true]
      cases inAttachment : tx.attachment.any PayloadItem.isEncrypted with
      | true =>
        refine ⟨[], [checksumFor R senderKeys key], ?_, ?_, rfl⟩
        · rw [if_pos rfl, List.append_nil]
        · rw [if_pos rfl, List.map_append, List.map_singleton, checksum]
          rfl
      | false =>
        refine ⟨[], [], ?_, ?_, rfl⟩
        · rw [if_neg Bool.false_ne_true, List.append_nil]
        · rw [if_neg Bool.false_ne_true, List.append_nil]

end First

/-! ## What a transaction carries -/

section Carried

variable {R : Reading} {derivation : Option KeyDerivation} {extras attachments : List PayloadItem}
  {tx after : Transaction}

/-- A transaction carries extra entries and attachments, all sealed, among entries of its own. -/
structure Carries (R : Reading) (derivation : Option KeyDerivation)
    (extras attachments : List PayloadItem) (tx : Transaction) : Prop where
  extra : ∃ plain, Interspersed (fun item => item.isOwnKind = true) extras plain ∧
    tx.extra = plain.map (sealItem R derivation)
  attachment : ∃ plain, Interspersed (fun item => item.isOwnKind = true) attachments plain ∧
    tx.attachment.map PayloadItem.keyless =
      (plain.map (sealItem R derivation)).map PayloadItem.keyless

/-- More sealed items at the ends, entries of the transaction's own after them, and new keys of
attachments. -/
theorem Carries.grow (carries : Carries R derivation extras attachments tx)
    {moreExtras moreAttachments trailing : List PayloadItem}
    (extra : after.extra = tx.extra ++ moreExtras.map (sealItem R derivation) ++ trailing)
    (own : ∀ item ∈ trailing, item.isTrailing = true)
    (attachment : after.attachment.map PayloadItem.keyless =
      (tx.attachment ++ moreAttachments.map (sealItem R derivation)).map PayloadItem.keyless) :
    Carries R derivation (extras ++ moreExtras) (attachments ++ moreAttachments) after := by
  obtain ⟨plain, among, same⟩ := carries.extra
  obtain ⟨plainToo, amongToo, sameToo⟩ := carries.attachment
  have still : trailing.map (sealItem R derivation) = trailing := by
    conv_rhs => rw [← List.map_id trailing]
    refine List.map_congr_left fun item member => ?_
    exact sealItem_own (PayloadItem.isOwnKind_of_trailing (own item member))
  refine ⟨⟨plain ++ moreExtras ++ trailing, ?_, ?_⟩, plainToo ++ moreAttachments, ?_, ?_⟩
  · exact (among.append (.refl _)).append_added fun item member =>
      PayloadItem.isOwnKind_of_trailing (own item member)
  · rw [extra, same, List.map_append, List.map_append, still]
  · exact amongToo.append (.refl _)
  · rw [attachment, List.map_append, sameToo, ← List.map_append, ← List.map_append]

theorem cryptoChecksum_eq (tx : Transaction) :
    cryptoChecksum tx = (tx.extra ++ tx.attachment).findSome? PayloadItem.checksumEntry := by
  unfold cryptoChecksum
  congr 1

theorem getTxPubKeyFromExtra_eq (tx : TransactionPrefix) :
    tx.getTxPubKeyFromExtra =
      (tx.extra.findSome? PayloadItem.publicKeyEntry).getD nullPkey := by
  unfold TransactionPrefix.getTxPubKeyFromExtra
  congr 1

theorem findSome?_seal_checksumEntry (items : List PayloadItem) :
    (items.map (sealItem R derivation)).findSome? PayloadItem.checksumEntry =
      items.findSome? PayloadItem.checksumEntry := by
  rw [List.findSome?_map]
  congr 1
  funext item
  exact sealItem_checksumEntry item

theorem findSome?_keyless_checksumEntry (items : List PayloadItem) :
    (items.map PayloadItem.keyless).findSome? PayloadItem.checksumEntry =
      items.findSome? PayloadItem.checksumEntry := by
  rw [List.findSome?_map]
  congr 1
  funext item
  exact keyless_checksumEntry item

/-- A transaction names a checksum entry and its transaction key. -/
structure Named (checksum : KeyDerivation × Nat) (pub : PublicKey) (tx : Transaction) : Prop where
  checksum : cryptoChecksum tx = some checksum
  key : tx.extra.findSome? PayloadItem.publicKeyEntry = some pub

/-- Appended items leave the names, when no checksum entry gets in front. -/
theorem Named.grow {checksum : KeyDerivation × Nat} {pub : PublicKey}
    (named : Named checksum pub tx) {more moreToo : List PayloadItem}
    (extra : after.extra = tx.extra ++ more)
    (none : ∀ item ∈ more, item.checksumEntry = none)
    (attachment : after.attachment.map PayloadItem.keyless =
      (tx.attachment ++ moreToo).map PayloadItem.keyless) : Named checksum pub after := by
  constructor
  · have found := named.checksum
    rw [cryptoChecksum_eq] at found ⊢
    rw [List.findSome?_append, ← findSome?_keyless_checksumEntry after.attachment, attachment,
      findSome?_keyless_checksumEntry, extra, List.findSome?_append, List.findSome?_append,
      List.findSome?_eq_none_iff.mpr none, Option.or_none]
    rw [List.findSome?_append] at found
    rw [← Option.or_assoc, found, Option.some_or]
  · rw [extra, List.findSome?_append, named.key, Option.some_or]

end Carried

/-! ## Reading -/

section Readers

variable (R : Reading)

/-- The recipient and the sender of a transaction read items in order, apart from derived keys,
and otherwise only entries that the construction writes itself. -/
def ReadableBy (recipient sender : AccountKeys) (tx : Transaction) (items : List PayloadItem) :
    Prop :=
  ∀ isIncome, Interspersed (fun item => item.isOwnKind = true) (items.map PayloadItem.keyless)
    ((decryptPayloadItems R isIncome tx (if isIncome then recipient else sender)).map
      PayloadItem.keyless)

/-- No key can be derived for an address, or something is encrypted, or packing changes nothing. -/
def PayloadKept (addr : AccountPublicAddress) (args : ConstructTx) : Prop :=
  R.generateKeyDerivation addr.viewPublicKey args.generated.sec = none ∨ args.encrypts = true ∨
    ∀ item ∈ args.extra ++ args.attachments, item.PackedAlike R

end Readers

section Reading

variable {R : Reading} {E : Env} {derivation : Option KeyDerivation} {key : KeyDerivation}
  {extras attachments : List PayloadItem} {tx : Transaction} {recipient sender : AccountKeys}
  {pub : PublicKey}

/-- The recipient finds the key by derivation. -/
theorem Named.receives {encrypted : KeyDerivation}
    (named : Named (encrypted, R.derivationHash key) pub tx)
    (derived : R.generateKeyDerivation pub recipient.viewSecretKey = some key) :
    getEncryptionKeyDerivation R.toSending tx recipient = some key := by
  unfold getEncryptionKeyDerivation
  rw [named.checksum, getTxPubKeyFromExtra_eq, named.key, Option.getD_some]
  simp only [Option.bind_eq_bind, Option.bind_some, derived, ↓reduceIte, Option.pure_def]

/-- Both parties find the key of the items. -/
theorem Named.opens (laws : R.Laws)
    (named : Named (R.cryptDerivation key sender.spendSecretKey, R.derivationHash key) pub tx)
    (derived : R.generateKeyDerivation pub recipient.viewSecretKey = some key) (isIncome : Bool) :
    encryptionKeyDerivation R isIncome tx (if isIncome then recipient else sender) = key := by
  cases isIncome with
  | true =>
    simp only [encryptionKeyDerivation, ↓reduceIte, named.receives derived, Option.getD_some]
  | false =>
    simp only [encryptionKeyDerivation, Bool.false_eq_true, ↓reduceIte, sentKeyDerivation,
      named.checksum, Option.bind_eq_bind, Option.bind_some, laws.cryptDerivation,
      Option.pure_def, Option.getD_some]

/-- What is carried under the key that both parties find is readable. -/
theorem Carries.readable (laws : R.Laws) (carries : Carries R (some key) extras attachments tx)
    (nonnull : key ≠ nullDerivation)
    (opens : ∀ isIncome,
      encryptionKeyDerivation R isIncome tx (if isIncome then recipient else sender) = key) :
    ReadableBy R recipient sender tx (extras ++ attachments) := by
  intro isIncome
  obtain ⟨plain, among, same⟩ := carries.extra
  obtain ⟨plainToo, amongToo, sameToo⟩ := carries.attachment
  have undone : ∀ items : List PayloadItem,
      (items.map (sealItem R (some key))).map (decryptAttach R key) = items := fun items => by
    rw [List.map_map]
    conv_rhs => rw [← List.map_id items]
    exact List.map_congr_left fun item _ => decryptAttach_seal laws item
  have commutes : PayloadItem.keyless ∘ decryptAttach R key =
      decryptAttach R key ∘ PayloadItem.keyless := funext decryptAttach_keyless
  have sealCommutes : PayloadItem.keyless ∘ sealItem R (some key) =
      sealItem R (some key) ∘ PayloadItem.keyless := funext sealItem_keyless
  have read : (decryptPayloadItems R isIncome tx (if isIncome then recipient else sender)).map
      PayloadItem.keyless = (plain ++ plainToo).map PayloadItem.keyless := by
    unfold decryptPayloadItems
    rw [opens isIncome]
    dsimp only
    rw [if_neg nonnull, List.map_append, List.map_append, same, undone, List.map_map, commutes,
      ← List.map_map, sameToo, List.map_map (l := plainToo), sealCommutes,
      ← List.map_map (l := plainToo), undone]
  rw [read]
  exact (among.append amongToo).map _ fun item own => (keyless_isOwnKind item).trans own

/-- Without a checksum entry the items are read as they stand. -/
theorem decryptPayloadItems_unnamed (unnamed : cryptoChecksum tx = none) (isIncome : Bool)
    (keys : AccountKeys) :
    decryptPayloadItems R isIncome tx keys = tx.extra ++ tx.attachment := by
  have null : encryptionKeyDerivation R isIncome tx keys = nullDerivation := by
    cases isIncome with
    | true =>
      simp only [encryptionKeyDerivation, ↓reduceIte, getEncryptionKeyDerivation, unnamed,
        Option.bind_eq_bind, Option.bind_none, Option.getD_none]
    | false =>
      simp only [encryptionKeyDerivation, Bool.false_eq_true, ↓reduceIte, sentKeyDerivation,
        unnamed, Option.bind_eq_bind, Option.bind_none, Option.getD_none]
  unfold decryptPayloadItems
  dsimp only
  rw [null, if_pos rfl]

/-- Without a checksum entry both parties read the sealed items. -/
theorem Carries.read_unnamed (carries : Carries R derivation extras attachments tx)
    (unnamed : cryptoChecksum tx = none) :
    ∃ plain, Interspersed (fun item => item.isOwnKind = true) (extras ++ attachments) plain ∧
      ∀ isIncome keys, (decryptPayloadItems R isIncome tx keys).map PayloadItem.keyless =
        (plain.map (sealItem R derivation)).map PayloadItem.keyless := by
  obtain ⟨plain, among, same⟩ := carries.extra
  obtain ⟨plainToo, amongToo, sameToo⟩ := carries.attachment
  refine ⟨plain ++ plainToo, among.append amongToo, fun isIncome keys => ?_⟩
  rw [decryptPayloadItems_unnamed unnamed, List.map_append, same, sameToo, ← List.map_append,
    ← List.map_append]

/-- Items without a checksum entry that are carried unchanged are readable. -/
theorem Carries.readable_unnamed (carries : Carries R derivation extras attachments tx)
    (unnamed : cryptoChecksum tx = none)
    (still : ∀ item ∈ extras ++ attachments, sealItem R derivation item = item) :
    ReadableBy R recipient sender tx (extras ++ attachments) := by
  intro isIncome
  obtain ⟨plain, among, read⟩ := carries.read_unnamed unnamed
  have kept : plain.map (sealItem R derivation) = plain := by
    conv_rhs => rw [← List.map_id plain]
    refine List.map_congr_left fun item member => ?_
    rcases among.mem member with original | own
    · exact still item original
    · exact sealItem_own own
  rw [read, kept]
  exact among.map _ fun item own => (keyless_isOwnKind item).trans own

theorem sealItem_isOwnKind (item : PayloadItem) :
    (sealItem R derivation item).isOwnKind = item.isOwnKind := by
  cases derivation with
  | none => rfl
  | some key =>
    cases item with
    | txServiceAttachment sa =>
      simp only [sealItem, Option.map_some, Option.getD_some, encryptAttach]
      split <;> rfl
    | _ => rfl

/-- Items without a checksum entry that are readable are carried unchanged. -/
theorem Carries.still_of_readable (carries : Carries R derivation extras attachments tx)
    (unnamed : cryptoChecksum tx = none)
    (readable : ReadableBy R recipient sender tx (extras ++ attachments)) {item : PayloadItem}
    (member : item ∈ extras ++ attachments) :
    (sealItem R derivation item).keyless = item.keyless := by
  obtain ⟨plain, among, reads⟩ := carries.read_unnamed unnamed
  by_cases own : item.isOwnKind = true
  · rw [sealItem_own own]
  · have read := readable true
    rw [reads] at read
    let keep : PayloadItem → Bool := fun item => !item.isOwnKind
    have dropped : ∀ item : PayloadItem, item.isOwnKind = true → keep item = false :=
      fun item own => by rw [← Bool.not_true, ← own]
    have whole := read.filter_eq dropped
    have plainly := among.filter_eq dropped
    have keepSealed : (keep ∘ PayloadItem.keyless) ∘ sealItem R derivation = keep :=
      funext fun item => congrArg Bool.not
        ((keyless_isOwnKind (sealItem R derivation item)).trans (sealItem_isOwnKind item))
    have keepKeyless : keep ∘ PayloadItem.keyless = keep :=
      funext fun item => congrArg Bool.not (keyless_isOwnKind item)
    rw [List.filter_map, List.filter_map, keepSealed, plainly, List.filter_map, keepKeyless,
      List.map_map] at whole
    refine List.map_inj_left.mp whole item (List.mem_filter.mpr ⟨member, ?_⟩)
    exact (Bool.not_eq_true' _).mpr (Bool.eq_false_iff.mpr own)

end Reading

/-! ## Runs of calls -/

/-- Calls that one party makes in append mode, one after the other. -/
inductive AppendedBy (S : Sending) (E : Env) (keys : AccountKeys) :
    List ConstructTx → TxDraft → TxDraft → Prop
  | nil {draft : TxDraft} : AppendedBy S E keys [] draft draft
  | call {args : ConstructTx} {calls : List ConstructTx} {draft next final : TxDraft}
      (party : args.senderAccountKeys = keys) (separate : args.separate = true)
      (inputs : draft.tx.vin ≠ []) (built : constructTx S E args draft = some next)
      (later : AppendedBy S E keys calls next final) :
      AppendedBy S E keys (args :: calls) draft final

section Runs

variable {R : Reading} {E : Env} {args : ConstructTx} {calls : List ConstructTx}
  {key : KeyDerivation} {pub : PublicKey} {draft first final : TxDraft}
  {extras attachments : List PayloadItem}

theorem startTx_encrypts (untouched : Untouched args calls) :
    ((fieldsOf args ++ [PayloadItem.publicKey args.generated.pub]) ++ args.attachments).any
      PayloadItem.isEncrypted = args.encrypts := by
  have fields := untouched.fields.any_eq (p := PayloadItem.isEncrypted) fun item own =>
    PayloadItem.isEncrypted_of_own (PayloadItem.isOwnKind_of_trailing own)
  rw [ConstructTx.encrypts, List.any_append, List.any_append, fields, List.any_append]
  simp only [List.any_cons, List.any_nil, PayloadItem.isEncrypted, Bool.or_false]

/-- A new transaction carries the items it is asked for; the key of its checksum entry, if there
is one, is the key of the items. -/
theorem startTx_carries (untouched : Untouched args calls) :
    Carries R (R.generateKeyDerivation args.cryptDestinationAddr.viewPublicKey args.generated.sec)
        args.extra args.attachments (startTx R.toSending args) ∧
      cryptoChecksum (startTx R.toSending args) =
        (if args.encrypts then
          ((R.generateKeyDerivation args.cryptDestinationAddr.viewPublicKey
            args.generated.sec).map (checksumFor R args.senderAccountKeys)).toList
        else []).findSome? PayloadItem.checksumEntry ∧
      (args.encrypts = true → (startTx R.toSending args).extra.findSome?
        PayloadItem.publicKeyEntry = some args.generated.pub) := by
  rw [startTx_eq]
  obtain ⟨toExtra, toAttachment, extra, attachment, added⟩ := encryptAttachments_payload (R := R)
    { version := currentTransactionVersion, vin := [], vout := []
      extra := fieldsOf args ++ [.publicKey args.generated.pub], signatures := []
      attachment := args.attachments }
    args.senderAccountKeys args.cryptDestinationAddr args.generated
  dsimp only at extra attachment added
  rw [startTx_encrypts untouched] at added
  have own : ∀ item ∈ toExtra ++ toAttachment, item.isOwnKind = true := by
    intro item member
    rw [added] at member
    split at member
    · obtain ⟨_, _, rfl⟩ := Option.map_eq_some_iff.mp (Option.mem_toList.mp member)
      rfl
    · cases member
  have fields := untouched.fields
  refine ⟨⟨⟨_, ?_, extra⟩, _, ?_, by rw [attachment]⟩, ?_, fun encrypts => ?_⟩
  · refine ((fields.mono fun item => PayloadItem.isOwnKind_of_trailing).append_added
      fun item member => ?_).append_added
      fun item member => own item (List.mem_append_left _ member)
    rw [List.mem_singleton.mp member]
    rfl
  · exact (Interspersed.refl _).append_added fun item member =>
      own item (List.mem_append_right _ member)
  · have absent : ∀ items : List PayloadItem, (∀ item ∈ items, item.checksumEntry = none) →
        items.findSome? PayloadItem.checksumEntry = none :=
      fun items => List.findSome?_eq_none_iff.mpr
    have inFields : (fieldsOf args).findSome? PayloadItem.checksumEntry = none := by
      rw [fields.findSome?_eq fun item => PayloadItem.checksumEntry_of_trailing]
      exact absent _ fun item member => untouched.checksums item (List.mem_append_left _ member)
    have inAttachments : args.attachments.findSome? PayloadItem.checksumEntry = none :=
      absent _ fun item member => untouched.checksums item (List.mem_append_right _ member)
    have inKey : [PayloadItem.publicKey args.generated.pub].findSome? PayloadItem.checksumEntry =
      none := rfl
    rw [cryptoChecksum_eq, extra, attachment, ← List.map_append, findSome?_seal_checksumEntry,
      List.findSome?_append, List.findSome?_append, List.findSome?_append, inFields, inKey,
      List.findSome?_append, inAttachments, Option.none_or, Option.none_or, Option.none_or,
      ← List.findSome?_append, added]
  · have inFields : (fieldsOf args).findSome? PayloadItem.publicKeyEntry = none := by
      rw [fields.findSome?_eq fun item => PayloadItem.publicKeyEntry_of_trailing]
      exact List.findSome?_eq_none_iff.mpr (untouched.keys encrypts)
    have sealed : ∀ items : List PayloadItem, ∀ derivation,
        (items.map (sealItem R derivation)).findSome? PayloadItem.publicKeyEntry =
          items.findSome? PayloadItem.publicKeyEntry := fun items derivation => by
      rw [List.findSome?_map]
      congr 1
      funext item
      exact sealItem_publicKeyEntry item
    rw [extra, sealed, List.findSome?_append, List.findSome?_append, inFields, Option.none_or]
    rfl

/-- A call that begins with what is carried carries the items as well. -/
theorem Carries.call {derivation : Option KeyDerivation} {base : Transaction} {result : TxDraft}
    (carries : Carries R derivation extras attachments base) {trailing : List PayloadItem}
    (extra : result.tx.extra = base.extra ++ trailing)
    (own : ∀ item ∈ trailing, item.isTrailing = true)
    (keyless : result.tx.attachment.map PayloadItem.keyless =
      base.attachment.map PayloadItem.keyless) :
    Carries R derivation extras attachments result.tx := by
  have grown : Carries R derivation (extras ++ []) (attachments ++ []) result.tx :=
    carries.grow (by rw [List.map_nil, List.append_nil, extra]) own
      (by rw [List.map_nil, List.append_nil, keyless])
  rwa [List.append_nil, List.append_nil] at grown

/-- What the recipient appends is sealed with the key of the transaction. -/
theorem AppendedBy.carries {recipient : AccountKeys}
    (appended : AppendedBy R.toSending E recipient calls draft final)
    (checksums : ∀ call ∈ calls, ∀ item ∈ call.extra, item.checksumEntry = none)
    {encrypted : KeyDerivation}
    (derived : R.generateKeyDerivation pub recipient.viewSecretKey = some key)
    (carries : Carries R (some key) extras attachments draft.tx)
    (named : Named (encrypted, R.derivationHash key) pub draft.tx) :
    Carries R (some key) (extras ++ calls.flatMap ConstructTx.extra)
        (attachments ++ calls.flatMap ConstructTx.attachments) final.tx ∧
      Named (encrypted, R.derivationHash key) pub final.tx := by
  induction appended generalizing extras attachments with
  | nil =>
    rw [List.flatMap_nil, List.flatMap_nil, List.append_nil, List.append_nil]
    exact ⟨carries, named⟩
  | @call args calls draft next final party separate inputs built later ih =>
    obtain ⟨base, txkey, trailing, began, extra, own, keyless, _⟩ := constructTx_payload built
    obtain ⟨appended, _⟩ := beginTx_append separate inputs began
    simp only [appendTx, party, named.receives derived, Option.bind_eq_bind,
      Option.bind_eq_some_iff, Option.guard_eq_some', Option.pure_def, Option.some.injEq]
      at appended
    obtain ⟨_, _, _, rfl, _, _, rfl⟩ := appended
    dsimp only at extra keyless
    have grown : Carries R (some key) (extras ++ args.extra) (attachments ++ args.attachments)
        next.tx := carries.grow extra own keyless
    have kept : Named (encrypted, R.derivationHash key) pub next.tx := by
      refine named.grow (by rw [extra, List.append_assoc]) (fun item member => ?_) keyless
      rcases List.mem_append.mp member with here | there
      · obtain ⟨plain, inside, rfl⟩ := List.mem_map.mp here
        have same : (sealItem R (some key) plain).checksumEntry = plain.checksumEntry :=
          sealItem_checksumEntry plain
        exact same.trans (checksums args (.head _) plain inside)
      · exact PayloadItem.checksumEntry_of_trailing (own item there)
    have whole := ih (fun call member => checksums call (.tail _ member)) grown kept
    rw [List.append_assoc, List.append_assoc] at whole
    exact whole

/-- Without a checksum entry nobody can append. -/
theorem AppendedBy.eq_of_unnamed {recipient : AccountKeys}
    (appended : AppendedBy R.toSending E recipient calls draft final)
    (unnamed : cryptoChecksum draft.tx = none) : calls = [] ∧ final = draft := by
  cases appended with
  | nil => exact ⟨rfl, rfl⟩
  | @call args calls _ next _ party separate inputs built later =>
    obtain ⟨base, txkey, trailing, began, _⟩ := constructTx_payload built
    obtain ⟨appended, _⟩ := beginTx_append separate inputs began
    simp only [appendTx, getEncryptionKeyDerivation, unnamed, Option.bind_eq_bind,
      Option.bind_none, Option.bind_eq_some_iff, reduceCtorEq, exists_false, and_false]
      at appended

/-- The first call of a run carries its items. With an encrypted item the parties find the key,
without one there is no checksum entry. -/
theorem first_carries {result : TxDraft} {recipient : AccountKeys}
    (untouched : Untouched args calls)
    (fresh : args.separate = false ∨ draft.tx.vin = [])
    (selected : args.cryptDestinationAddr = recipient.accountAddress)
    (built : constructTx R.toSending E args draft = some result) :
    Carries R (R.generateKeyDerivation recipient.accountAddress.viewPublicKey args.generated.sec)
        args.extra args.attachments result.tx ∧
      (∀ key, args.encrypts = true →
        R.generateKeyDerivation recipient.accountAddress.viewPublicKey args.generated.sec =
          some key →
        Named (R.cryptDerivation key args.senderAccountKeys.spendSecretKey, R.derivationHash key)
          args.generated.pub result.tx) ∧
      (args.encrypts = false ∨
        R.generateKeyDerivation recipient.accountAddress.viewPublicKey args.generated.sec = none →
        cryptoChecksum result.tx = none) := by
  obtain ⟨base, txkey, trailing, began, extra, own, keyless, _⟩ := constructTx_payload built
  have begun : base = startTx R.toSending args := by
    unfold beginTx at began
    have new : (args.separate && !draft.tx.vin.isEmpty) = false := by
      rcases fresh with alone | empty
      · rw [alone, Bool.false_and]
      · rw [empty, List.isEmpty_nil, Bool.not_true, Bool.and_false]
    rw [new, if_neg Bool.false_ne_true] at began
    exact (Prod.mk.inj (Option.some.inj began)).1.symm
  obtain ⟨carries, checksum, named⟩ := startTx_carries (R := R) untouched
  rw [← begun, selected] at carries
  rw [← begun, selected] at checksum
  rw [← begun] at named
  refine ⟨carries.call extra own keyless, fun key encrypts derived => ?_, fun plainly => ?_⟩
  · rw [encrypts, if_pos rfl, derived] at checksum
    have there : Named (R.cryptDerivation key args.senderAccountKeys.spendSecretKey,
        R.derivationHash key) args.generated.pub base := ⟨checksum, named encrypts⟩
    refine there.grow extra (fun item member => ?_) (by rw [keyless, List.append_nil])
    exact PayloadItem.checksumEntry_of_trailing (own item member)
  · have nothing : cryptoChecksum base = none := by
      rw [checksum]
      rcases plainly with plainly | plainly
      · rw [plainly, if_neg Bool.false_ne_true]
        rfl
      · rw [plainly, Option.map_none, Option.toList_none, ite_self]
        rfl
    rw [cryptoChecksum_eq, List.findSome?_append, Option.or_eq_none_iff] at nothing ⊢
    refine ⟨?_, ?_⟩
    · rw [extra, List.findSome?_append, nothing.1, Option.none_or]
      exact List.findSome?_eq_none_iff.mpr fun item member =>
        PayloadItem.checksumEntry_of_trailing (own item member)
    · rw [← findSome?_keyless_checksumEntry, keyless, findSome?_keyless_checksumEntry, nothing.2]

theorem keyless_isEncrypted (item : PayloadItem) : item.keyless.isEncrypted = item.isEncrypted := by
  cases item with
  | _ => rfl

theorem keyless_packedAlike (item : PayloadItem) :
    item.keyless.PackedAlike R ↔ item.PackedAlike R := by
  cases item with
  | _ => exact Iff.rfl

/-- Items that are not encrypted are read as they were given exactly when packing does not change
them. -/
theorem Carries.readable_iff {tx : Transaction} {recipient sender : AccountKeys}
    (carries : Carries R (some key) extras attachments tx) (unnamed : cryptoChecksum tx = none)
    (plain : ∀ item ∈ extras ++ attachments, item.isEncrypted = false) :
    ReadableBy R recipient sender tx (extras ++ attachments) ↔
      ∀ item ∈ extras ++ attachments, item.PackedAlike R := by
  constructor
  · intro readable item member
    have still := carries.still_of_readable unnamed readable member
    rw [sealItem_keyless] at still
    rw [← keyless_packedAlike]
    exact (sealItem_eq_iff ((keyless_isEncrypted item).trans (plain item member))).mp still
  · intro packed
    exact carries.readable_unnamed unnamed fun item member =>
      (sealItem_eq_iff (plain item member)).mpr (packed item member)

end Runs

/-! ## Mixtures -/

namespace Mixture

open SharedOffer

/-- The keys of the shared offer; texts are reversed and deflated texts get one more character. -/
def reading : Reading :=
  { sending with
    generateKeyDerivation := fun pub sec =>
      if pub.val * sec.val = 0 then none else some ⟨pub.val * sec.val⟩
    cryptString := fun text _ => String.ofList text.toList.reverse
    cryptAddress := fun address _ => ⟨address.viewPublicKey, address.spendPublicKey⟩
    pack := fun body => String.ofList ('z' :: body.toList)
    unpack := fun body => String.ofList body.toList.tail }

theorem reading_laws : reading.Laws where
  cryptString text key := by
    simp only [reading, String.toList_ofList, List.reverse_reverse, String.ofList_toList]
  cryptAddress address key := rfl
  cryptDerivation derivation key := by
    change (⟨derivation.val ^^^ key.val ^^^ key.val⟩ : KeyDerivation) = derivation
    rw [Nat.xor_assoc, Nat.xor_self, Nat.xor_zero]
  unpack body := by
    simp only [reading, String.toList_ofList, List.tail_cons, String.ofList_toList]
  symmetric {pub sec pubToo secToo} first second := by
    obtain rfl := Option.some.inj first
    obtain rfl := Option.some.inj second
    change (if sec.val * secToo.val = 0 then none else some (⟨sec.val * secToo.val⟩ :
      KeyDerivation)) = if secToo.val * sec.val = 0 then none else some ⟨secToo.val * sec.val⟩
    rw [Nat.mul_comm]
  nonnull {pub sec derivation} derived := by
    simp only [reading] at derived
    split at derived
    · cases derived
    · next present =>
      obtain rfl := Option.some.inj derived
      exact fun null => present (congrArg KeyDerivation.val null)

/-- A deflated body, encrypted or not. -/
def deflated (flags : Nat) : PayloadItem :=
  .txServiceAttachment ⟨"B", "ADD", "offer", [], txServiceAttachmentDeflateBody ||| flags⟩

/-- The seller's call with an attachment and a comment. -/
def mixed : ConstructTx :=
  call 3 2 buyer [.txComment "for sale", deflated txServiceAttachmentEncryptBody, deflated 0] false

/-- The seller's call with nothing to encrypt. -/
def plainly : ConstructTx := call 3 2 buyer [deflated 0] false

/-- The draft a call makes. -/
def drafted (args : ConstructTx) (draft : TxDraft) : TxDraft :=
  (constructTx reading.toSending env args draft).getD default

theorem drafted_eq {args : ConstructTx} {draft : TxDraft}
    (built : (constructTx reading.toSending env args draft).isSome = true) :
    constructTx reading.toSending env args draft = some (drafted args draft) := by
  obtain ⟨result, made⟩ := Option.isSome_iff_exists.mp built
  rw [drafted, made, Option.getD_some]

theorem untouched_call {attachments : List PayloadItem} {calls : List ConstructTx}
    (checksums : ∀ item ∈ attachments, item.checksumEntry = none)
    (laterChecksums : ∀ call ∈ calls, ∀ item ∈ call.extra, item.checksumEntry = none) :
    Untouched (call 3 2 buyer attachments false) calls where
  unlock set := absurd rfl set
  flags _ _ found := by cases found
  expiration set := absurd rfl set
  checksums := checksums
  laterChecksums := laterChecksums
  keys _ _ member := by cases member

end Mixture

open Mixture SharedOffer

end Virie
