import Virie.Offers.Tables
import Virie.PayloadReading

/-! # Keys of offers

An offer is kept with a one-time key of its owner, who signs its updates and its cancellation. The
key is derived when the transaction is constructed, the chain numbers the offers when it adds the
transaction, and the wallet derives the key once more when the owner signs. All of them count all
service attachments of the transaction, so the numbers agree in any mixture of attachments. -/

open Foundation

namespace Virie

/-! ## Signing -/

/-- What is hashed for a signature: the id of an offer and the new details, if there are any. -/
structure OfferSigBlob where
  txId : Hash
  offerIndex : Nat
  of : Option OfferDetails
deriving DecidableEq

def CancelOffer.makeOfferSigBlob (co : CancelOffer) : OfferSigBlob := ⟨co.txId, co.offerIndex, none⟩

def UpdateOffer.makeOfferSigBlob (uo : UpdateOffer) : OfferSigBlob :=
  ⟨uo.txId, uo.offerIndex, some uo.of⟩

/-- The signed hashes are those of the blobs. -/
structure OfferFormats.HashBlobs (F : OfferFormats) (cnFastHash : OfferSigBlob → Hash) : Prop where
  cancel : ∀ co, F.cancelSigHash co = cnFastHash co.makeOfferSigBlob
  update : ∀ uo, F.updateSigHash uo = cnFastHash uo.makeOfferSigBlob

section Signing

variable (S : Sending) (F : OfferFormats)

/-- The cancellation that the wallet puts into a transaction for an offer of an own one. -/
def cancelOfferById (keys : AccountKeys) (relatedTx : Transaction) (txId : Hash) (ofInd : Nat) :
    Option CancelOffer := do
  let co : CancelOffer := { offerIndex := ofInd, txId, sig := nullSig }
  let ephemeral ← S.deriveEphemeralKeyHelper keys relatedTx.getTxPubKeyFromExtra ofInd
  pure { co with sig := S.generateSignature (F.cancelSigHash co) ephemeral.pub ephemeral.sec }

/-- The update that the wallet puts into a transaction for an offer of an own one. -/
def updateOfferById (keys : AccountKeys) (relatedTx : Transaction) (txId : Hash) (ofInd : Nat)
    (od : OfferDetails) : Option UpdateOffer := do
  let uo : UpdateOffer := { offerIndex := ofInd, txId, of := od, sig := nullSig }
  let ephemeral ← S.deriveEphemeralKeyHelper keys relatedTx.getTxPubKeyFromExtra ofInd
  pure { uo with sig := S.generateSignature (F.updateSigHash uo) ephemeral.pub ephemeral.sec }

end Signing

/-- Idealised derivations: the two sides derive the same one, and the one-time keys of different
outputs differ. -/
structure Sending.OneTime (S : Sending) : Prop where
  symmetric : ∀ {pub sec pubToo secToo}, S.Matching pub sec → S.Matching pubToo secToo →
    S.generateKeyDerivation pub secToo = S.generateKeyDerivation pubToo sec
  injective : ∀ {derivation index indexToo pub derived},
    S.derivePublicKey derivation index pub = some derived →
    S.derivePublicKey derivation indexToo pub = some derived → index = indexToo

/-- The key is the one derived with an index for the sender of a transaction. -/
def DerivedAt (S : Sending) (senderAddr : AccountPublicAddress) (oneTimeSecretKey : SecretKey)
    (index : Nat) (key : PublicKey) : Prop :=
  ∃ derivation, derivePublicKeyFromTargetAddress S senderAddr oneTimeSecretKey index =
    some (key, derivation)

/-! ## The constructed transaction -/

def PayloadItem.serviceAttachment : PayloadItem → Option TxServiceAttachment
  | .txServiceAttachment value => some value
  | _ => none

theorem serviceAttachments_eq (tx : Transaction) :
    serviceAttachments tx = tx.attachment.filterMap PayloadItem.serviceAttachment := rfl

section Constructed

variable {S : Sending} {E : Env} {senderAddr : AccountPublicAddress} {oneTimeSecretKey : SecretKey}

theorem deriveOfferKey_derivedAt {attCount : Nat} {tsa derived : TxServiceAttachment}
    (made : deriveOfferKey S senderAddr oneTimeSecretKey attCount tsa = some derived)
    {key : PublicKey} (last : derived.security.getLast? = some key) :
    DerivedAt S senderAddr oneTimeSecretKey attCount key := by
  unfold deriveOfferKey at made
  split at made
  · next none_ =>
    obtain rfl := Option.some.inj made
    rw [none_] at last
    cases last
  · obtain ⟨⟨found, derivation⟩, derives, rfl⟩ := Option.map_eq_some_iff.mp made
    obtain rfl := Option.some.inj last
    exact ⟨derivation, derives⟩
  · cases made

/-- Every service attachment has the key of its place among the service attachments. -/
theorem deriveOfferKeys_derivedAt {attCount : Nat} {items derived : List PayloadItem}
    (keys : deriveOfferKeys S senderAddr oneTimeSecretKey attCount items = some derived)
    {place : Nat} {tsa : TxServiceAttachment}
    (there : (derived.filterMap PayloadItem.serviceAttachment)[place]? = some tsa)
    {key : PublicKey} (last : tsa.security.getLast? = some key) :
    DerivedAt S senderAddr oneTimeSecretKey (attCount + place) key := by
  induction items generalizing attCount derived place with
  | nil =>
    obtain rfl := Option.some.inj keys
    cases there
  | cons item rest ih =>
    cases item with
    | txServiceAttachment offered =>
      simp only [deriveOfferKeys, Option.bind_eq_bind, Option.bind_eq_some_iff, Option.pure_def,
        Option.some.injEq] at keys
      obtain ⟨first, made, others, later, rfl⟩ := keys
      cases place with
      | zero =>
        obtain rfl : first = tsa := Option.some.inj there
        exact deriveOfferKey_derivedAt made last
      | succ place =>
        have further := ih later there
        rwa [Nat.add_assoc, Nat.add_comm 1 place] at further
    | _ =>
      simp only [deriveOfferKeys, Option.bind_eq_bind, Option.bind_eq_some_iff, Option.pure_def,
        Option.some.injEq] at keys
      obtain ⟨others, later, rfl⟩ := keys
      exact ih later there

/-- The attachments of a constructed transaction have the keys of its sender. -/
theorem constructTx_derivedAt {args : ConstructTx} {draft result : TxDraft}
    (built : constructTx S E args draft = some result) {place : Nat} {tsa : TxServiceAttachment}
    (there : (serviceAttachments result.tx)[place]? = some tsa) {key : PublicKey}
    (last : tsa.security.getLast? = some key) :
    DerivedAt S args.senderAccountKeys.accountAddress result.oneTimeSecretKey place key := by
  simp only [constructTx, Option.bind_eq_bind, Option.bind_eq_some_iff,
    Option.guard_eq_some', Option.pure_def, Option.some.injEq] at built
  obtain ⟨_, _, ⟨base, txkey⟩, _, inputs, _, grown, _, _, _, attachment, keys, sigs, _, rfl⟩ :=
    built
  have kept : (attachment.filterMap PayloadItem.serviceAttachment)[place]? = some tsa := by
    cases separate : args.separate with
    | true => simpa only [separate, ↓reduceIte, serviceAttachments_eq] using there
    | false => simpa only [separate, Bool.false_eq_true, ↓reduceIte, serviceAttachments_eq]
        using there
  have derived := deriveOfferKeys_derivedAt keys kept last
  rwa [Nat.zero_add] at derived

/-- A new transaction keeps the secret key that was generated for it. -/
theorem constructTx_generated {args : ConstructTx} {draft result : TxDraft}
    (fresh : args.separate = false ∨ draft.tx.vin = [])
    (built : constructTx S E args draft = some result) :
    beginTx S args draft = some (startTx S args, args.generated) ∧
      result.oneTimeSecretKey = args.generated.sec := by
  have began : beginTx S args draft = some (startTx S args, args.generated) := by
    unfold beginTx
    have new : (args.separate && !draft.tx.vin.isEmpty) = false := by
      rcases fresh with alone | empty
      · rw [alone, Bool.false_and]
      · rw [empty, List.isEmpty_nil, Bool.not_true, Bool.and_false]
    rw [new, if_neg Bool.false_ne_true]
  refine ⟨began, ?_⟩
  simp only [constructTx, Option.bind_eq_bind, Option.bind_eq_some_iff,
    Option.guard_eq_some', Option.pure_def, Option.some.injEq] at built
  obtain ⟨_, _, ⟨base, txkey⟩, started, _, _, _, _, _, _, _, _, _, _, rfl⟩ := built
  rw [began] at started
  exact congrArg Keypair.sec (Prod.mk.inj (Option.some.inj started)).2.symm

end Constructed

/-! ## The transaction key -/

theorem TxExtraHandler.apply_publicKeyEntry {handler next : TxExtraHandler} {item : PayloadItem}
    (applied : handler.apply item = some next) :
    next.wasPubkey = (handler.wasPubkey || item.publicKeyEntry.isSome) ∧
      (handler.wasPubkey = true → item.publicKeyEntry = none) := by
  cases item with
  | publicKey value =>
    obtain ⟨new, set⟩ := Option.ite_none_left_eq_some.mp applied
    obtain rfl := Option.some.inj set
    exact ⟨(Bool.or_true _).symm, fun seen => absurd seen new⟩
  | extraAttachmentInfo value =>
    obtain ⟨_, set⟩ := Option.ite_none_left_eq_some.mp applied
    obtain rfl := Option.some.inj set
    exact ⟨(Bool.or_false _).symm, fun _ => rfl⟩
  | extraAliasEntry value =>
    obtain ⟨_, set⟩ := Option.ite_none_left_eq_some.mp applied
    obtain rfl := Option.some.inj set
    exact ⟨(Bool.or_false _).symm, fun _ => rfl⟩
  | extraUserData value =>
    obtain ⟨_, set⟩ := Option.ite_none_left_eq_some.mp applied
    obtain rfl := Option.some.inj set
    exact ⟨(Bool.or_false _).symm, fun _ => rfl⟩
  | extraPadding value =>
    obtain ⟨_, set⟩ := Option.ite_none_left_eq_some.mp applied
    obtain rfl := Option.some.inj set
    exact ⟨(Bool.or_false _).symm, fun _ => rfl⟩
  | _ =>
    obtain rfl := Option.some.inj applied
    exact ⟨(Bool.or_false _).symm, fun _ => rfl⟩

/-- An accepted extra field names at most one transaction key. -/
theorem TxExtraHandler.single_publicKeyEntry {items : List PayloadItem}
    {handler final : TxExtraHandler} (read : items.foldlM TxExtraHandler.apply handler = some final)
    {key : PublicKey} (named : .publicKey key ∈ items) :
    handler.wasPubkey = false ∧ items.findSome? PayloadItem.publicKeyEntry = some key := by
  induction items generalizing handler with
  | nil => cases named
  | cons item rest ih =>
    rw [List.foldlM_cons, Option.bind_eq_bind, Option.bind_eq_some_iff] at read
    obtain ⟨next, applied, later⟩ := read
    obtain ⟨seen, single⟩ := apply_publicKeyEntry applied
    cases List.mem_cons.mp named with
    | inl here =>
      subst here
      refine ⟨Bool.eq_false_iff.mpr fun before => ?_, rfl⟩
      have absent : some key = none := single before
      cases absent
    | inr there =>
      obtain ⟨unseen, found⟩ := ih later there
      rw [seen, Bool.or_eq_false_iff] at unseen
      have other : item.publicKeyEntry = none :=
        Option.isSome_eq_false_iff.mp unseen.2 |> Option.isNone_iff_eq_none.mp
      rw [List.findSome?_cons, other]
      exact ⟨unseen.1, found⟩

/-- The extra field of a new transaction names the generated key. -/
theorem startTx_named (S : Sending) (args : ConstructTx) :
    .publicKey args.generated.pub ∈ (startTx S args).extra := by
  let R : Reading := { S with unpack := id }
  obtain ⟨toExtra, _, extra, _⟩ := encryptAttachments_payload (R := R)
    { version := currentTransactionVersion, vin := [], vout := []
      extra := fieldsOf args ++ [.publicKey args.generated.pub], signatures := []
      attachment := args.attachments }
    args.senderAccountKeys args.cryptDestinationAddr args.generated
  change .publicKey args.generated.pub ∈ (startTx R.toSending args).extra
  rw [startTx_eq, extra]
  refine List.mem_map.mpr ⟨.publicKey args.generated.pub, ?_, sealItem_own rfl⟩
  exact List.mem_append_left _ (List.mem_append_right _ (List.mem_singleton_self _))

/-- The chain and the wallet read the generated key from an accepted transaction. -/
theorem constructTx_pubKey {S : Sending} {E : Env} {args : ConstructTx} {draft result : TxDraft}
    (fresh : args.separate = false ∨ draft.tx.vin = [])
    (built : constructTx S E args draft = some result)
    (accepted : result.tx.checkTxExtra = true) :
    result.tx.getTxPubKeyFromExtra = args.generated.pub := by
  obtain ⟨base, txkey, trailing, began, extra, _⟩ := constructTx_payload built
  rw [(constructTx_generated fresh built).1] at began
  obtain rfl := (Prod.mk.inj (Option.some.inj began)).1
  have named : .publicKey args.generated.pub ∈ result.tx.extra := by
    rw [extra]
    exact List.mem_append_left _ (startTx_named S args)
  unfold TransactionPrefix.checkTxExtra TransactionPrefix.parseAndValidateTxExtra at accepted
  rw [Option.isSome_map, Option.isSome_iff_exists] at accepted
  obtain ⟨final, read⟩ := accepted
  rw [getTxPubKeyFromExtra_eq, (TxExtraHandler.single_publicKeyEntry read named).2,
    Option.getD_some]

/-! ## The table -/

section Tables

variable {E : Env} {F : OfferFormats} {txHash : Hash} {keyed : Nat → PublicKey → Prop}
  {offers : OffersContainer} {timestamp : Nat}

/-- The offers of a transaction have the keys of their numbers. -/
def KeyedOffers (txHash : Hash) (keyed : Nat → PublicKey → Prop) (offers : OffersContainer) :
    Prop :=
  ∀ id offer, offers.get id = some offer → offer.txHash = txHash →
    keyed offer.indexInTx offer.security

theorem KeyedOffers.set (held : KeyedOffers txHash keyed offers) {id : Hash}
    {offer : OfferDetailsExWithHash}
    (suits : offer.txHash = txHash → keyed offer.indexInTx offer.security) :
    KeyedOffers txHash keyed (offers.set id offer) := by
  intro place found there same
  rw [Container.get_set] at there
  split at there
  · obtain rfl := Option.some.inj there
    exact suits same
  · exact held place found there same

theorem KeyedOffers.put (held : KeyedOffers txHash keyed offers)
    {offer : OfferDetailsExWithHash}
    (suits : offer.txHash = txHash → keyed offer.indexInTx offer.security) :
    KeyedOffers txHash keyed (putOfferToContainer offer offers) := by
  unfold putOfferToContainer
  split
  · exact held
  · exact held.set suits

/-- An instruction adds an offer with the number and the key of its attachment, or none, and it
changes neither of them in the other offers. -/
theorem KeyedOffers.pushed (held : KeyedOffers txHash keyed offers) {entry : ServiceEntry}
    (suits : getTransactionHash E entry.tx.toTransactionPrefix = txHash →
      ∀ key, entry.attachment.security.getLast? = some key → keyed entry.index key)
    {instruction : OffersAttachment} {after : OffersContainer}
    (handled : handlePush E F entry timestamp offers instruction = some after) :
    KeyedOffers txHash keyed after := by
  cases instruction with
  | offerDetails od =>
    simp only [handlePush, Option.bind_eq_bind, Option.bind_eq_some_iff,
      Option.some.injEq] at handled
    obtain ⟨security, last, rfl⟩ := handled
    exact held.put fun same => suits same security last
  | updateOffer uo =>
    simp only [handlePush, Option.bind_eq_bind, Option.bind_eq_some_iff,
      Option.ite_none_right_eq_some, Option.some.injEq] at handled
    obtain ⟨it, found, _, security, last, rfl⟩ := handled
    exact (held.put fun same => suits same security last).set (held _ it found)
  | cancelOffer co =>
    simp only [handlePush, validateCancelOrder, Option.bind_eq_bind,
      Option.bind_eq_some_iff, Option.ite_none_right_eq_some, Option.some.injEq] at handled
    obtain ⟨it, ⟨oit, found, _, rfl⟩, rfl⟩ := handled
    exact held.set (held _ oit found)

theorem KeyedOffers.pushEntries {entries : List ServiceEntry} {service : OffersService}
    (held : KeyedOffers txHash keyed service.offers)
    (suits : ∀ entry ∈ entries, getTransactionHash E entry.tx.toTransactionPrefix = txHash →
      ∀ key, entry.attachment.security.getLast? = some key → keyed entry.index key) :
    KeyedOffers txHash keyed (entries.foldl
      (fun service entry => service.handleEntryPush E F entry timestamp) service).offers := by
  induction entries generalizing service with
  | nil => exact held
  | cons entry rest ih =>
    refine ih ?_ fun other member => suits other (.tail _ member)
    dsimp only
    rw [handleEntryPush_eq]
    cases service.instructionOf F entry.attachment with
    | none => exact held
    | some instruction =>
      change KeyedOffers txHash keyed
        ((handlePush E F entry timestamp service.offers instruction).getD service.offers)
      cases handled : handlePush E F entry timestamp service.offers instruction with
      | none => exact held
      | some after => exact held.pushed (suits entry (.head _)) handled

end Tables

theorem mem_offerEntries {tx : Transaction} {entry : ServiceEntry}
    (member : entry ∈ offerEntries tx) :
    (serviceAttachments tx)[entry.index]? = some entry.attachment ∧ entry.tx = tx := by
  obtain ⟨⟨tsa, index⟩, kept, rfl⟩ := List.mem_map.mp member
  exact ⟨List.mem_zipIdx_iff_getElem?.mp (List.mem_filter.mp kept).1, rfl⟩

/-! ## Owners -/

section Owners

variable {S : Sending} {E : Env} {F : OfferFormats} {cnFastHash : OfferSigBlob → Hash}
  {args : ConstructTx} {draft result : TxDraft}

/-- The owner of a transaction is asked to sign for one of its offers: the signatures pass as long
as the offer is not stopped. -/
def SignedFor (S : Sending) (E : Env) (F : OfferFormats) (keys : AccountKeys) (tx : Transaction)
    (offer : OfferDetailsExWithHash) : Prop :=
  ∀ txId od, ∃ co uo, cancelOfferById S F keys tx txId offer.indexInTx = some co ∧
    updateOfferById S F keys tx txId offer.indexInTx od = some uo ∧
    validateModifyOrderSignature E offer (F.cancelSigHash co) co.sig = !offer.stopped ∧
    validateModifyOrderSignature E offer (F.updateSigHash uo) uo.sig = !offer.stopped

/-- The signatures for a number pass for no message with another offer. -/
def RefusedFor (S : Sending) (E : Env) (F : OfferFormats) (keys : AccountKeys) (tx : Transaction)
    (ofInd : Nat) (other : OfferDetailsExWithHash) : Prop :=
  ∀ txId sigHash,
    (∀ co, cancelOfferById S F keys tx txId ofInd = some co →
      validateModifyOrderSignature E other sigHash co.sig = false) ∧
    ∀ od uo, updateOfferById S F keys tx txId ofInd od = some uo →
      validateModifyOrderSignature E other sigHash uo.sig = false

/-- The one-time keys of the wallet for a derived key. -/
theorem DerivedAt.ephemeral (ideal : S.Ideal E) (oneTime : S.OneTime) {keys : AccountKeys}
    (own : keys.Own S.toSigning)
    (viewKeys : S.Matching keys.accountAddress.viewPublicKey keys.viewSecretKey)
    {txkey : Keypair} (matching : S.Matching txkey.pub txkey.sec) {index : Nat} {key : PublicKey}
    (derived : DerivedAt S keys.accountAddress txkey.sec index key) :
    ∃ pair, S.deriveEphemeralKeyHelper keys txkey.pub index = some pair ∧ pair.pub = key ∧
      S.Matching pair.pub pair.sec := by
  obtain ⟨derivation, derives⟩ := derived
  simp only [derivePublicKeyFromTargetAddress, Option.bind_eq_bind, Option.bind_eq_some_iff,
    Option.pure_def, Option.some.injEq, Prod.mk.injEq] at derives
  obtain ⟨received, generated, pub, made, rfl, rfl⟩ := derives
  rw [oneTime.symmetric viewKeys matching] at generated
  refine ⟨⟨pub, S.deriveSecretKey received index keys.spendSecretKey⟩, ?_, rfl,
    ideal.derives own generated index made⟩
  simp only [Signing.deriveEphemeralKeyHelper, generated, made, Option.bind_eq_bind,
    Option.bind_some, Option.pure_def]

/-- Different numbers have different keys. -/
theorem DerivedAt.index_unique (oneTime : S.OneTime) {addr : AccountPublicAddress}
    {sec : SecretKey} {index indexToo : Nat} {key : PublicKey}
    (derived : DerivedAt S addr sec index key) (derivedToo : DerivedAt S addr sec indexToo key) :
    index = indexToo := by
  obtain ⟨derivation, derives⟩ := derived
  obtain ⟨derivationToo, derivesToo⟩ := derivedToo
  simp only [derivePublicKeyFromTargetAddress, Option.bind_eq_bind, Option.bind_eq_some_iff,
    Option.pure_def, Option.some.injEq, Prod.mk.injEq] at derives derivesToo
  obtain ⟨_, generated, _, made, rfl, rfl⟩ := derives
  obtain ⟨_, again, _, madeToo, rfl, rfl⟩ := derivesToo
  obtain rfl := Option.some.inj (generated.symm.trans again)
  exact oneTime.injective made madeToo

/-- The key of an offer is the one the wallet signs with for the number of the offer. -/
theorem DerivedAt.signed (ideal : S.Ideal E) (oneTime : S.OneTime)
    (hashes : F.HashBlobs cnFastHash) {keys : AccountKeys} (own : keys.Own S.toSigning)
    (viewKeys : S.Matching keys.accountAddress.viewPublicKey keys.viewSecretKey)
    {txkey : Keypair} (matching : S.Matching txkey.pub txkey.sec) {tx : Transaction}
    (named : tx.getTxPubKeyFromExtra = txkey.pub) {offer : OfferDetailsExWithHash}
    (derived : DerivedAt S keys.accountAddress txkey.sec offer.indexInTx offer.security) :
    SignedFor S E F keys tx offer := by
  intro txId od
  obtain ⟨pair, made, key, pairs⟩ := derived.ephemeral ideal oneTime own viewKeys matching
  have passes : ∀ message, E.checkSignature message offer.security
      (S.generateSignature message pair.pub pair.sec) = true :=
    fun message => (ideal.verifies pairs message message offer.security).mpr ⟨rfl, key.symm⟩
  refine ⟨⟨txId, offer.indexInTx, S.generateSignature
      (F.cancelSigHash ⟨txId, offer.indexInTx, nullSig⟩) pair.pub pair.sec⟩,
    ⟨txId, offer.indexInTx, S.generateSignature
      (F.updateSigHash ⟨txId, offer.indexInTx, nullSig, od⟩) pair.pub pair.sec, od⟩, ?_, ?_, ?_, ?_⟩
  · simp only [cancelOfferById, named, made, Option.bind_eq_bind, Option.bind_some]
    rfl
  · simp only [updateOfferById, named, made, Option.bind_eq_bind, Option.bind_some]
    rfl
  · have same : F.cancelSigHash ⟨txId, offer.indexInTx, S.generateSignature
        (F.cancelSigHash ⟨txId, offer.indexInTx, nullSig⟩) pair.pub pair.sec⟩ =
        F.cancelSigHash ⟨txId, offer.indexInTx, nullSig⟩ := by
      rw [hashes.cancel, hashes.cancel]
      rfl
    rw [validateModifyOrderSignature, same, passes, Bool.and_true]
  · have same : F.updateSigHash ⟨txId, offer.indexInTx, S.generateSignature
        (F.updateSigHash ⟨txId, offer.indexInTx, nullSig, od⟩) pair.pub pair.sec, od⟩ =
        F.updateSigHash ⟨txId, offer.indexInTx, nullSig, od⟩ := by
      rw [hashes.update, hashes.update]
      rfl
    rw [validateModifyOrderSignature, same, passes, Bool.and_true]

/-- The signatures for one number are refused where the key has another number. -/
theorem DerivedAt.refused (ideal : S.Ideal E) (oneTime : S.OneTime) {keys : AccountKeys}
    (own : keys.Own S.toSigning)
    (viewKeys : S.Matching keys.accountAddress.viewPublicKey keys.viewSecretKey)
    {txkey : Keypair} (matching : S.Matching txkey.pub txkey.sec) {tx : Transaction}
    (named : tx.getTxPubKeyFromExtra = txkey.pub) {index : Nat} {key : PublicKey}
    (derived : DerivedAt S keys.accountAddress txkey.sec index key)
    {other : OfferDetailsExWithHash}
    (derivedToo : DerivedAt S keys.accountAddress txkey.sec other.indexInTx other.security)
    (apart : other.indexInTx ≠ index) : RefusedFor S E F keys tx index other := by
  intro txId sigHash
  obtain ⟨pair, made, rfl, pairs⟩ := derived.ephemeral ideal oneTime own viewKeys matching
  have fails : ∀ message, E.checkSignature sigHash other.security
      (S.generateSignature message pair.pub pair.sec) = false := fun message => by
    rw [Bool.eq_false_iff]
    intro passes
    have same := ((ideal.verifies pairs message sigHash other.security).mp passes).2
    rw [same] at derivedToo
    exact apart (derivedToo.index_unique oneTime derived)
  refine ⟨fun co cancelled => ?_, fun od uo updated => ?_⟩
  · simp only [cancelOfferById, named, made, Option.bind_eq_bind, Option.bind_some,
      Option.pure_def, Option.some.injEq] at cancelled
    rw [← cancelled, validateModifyOrderSignature, fails, Bool.and_false]
  · simp only [updateOfferById, named, made, Option.bind_eq_bind, Option.bind_some,
      Option.pure_def, Option.some.injEq] at updated
    rw [← updated, validateModifyOrderSignature, fails, Bool.and_false]

end Owners

/-! ## Two offers among other attachments -/

namespace MixedOffers

/-- The signature of a message for a key, which is its own secret. -/
def sign (message : Hash) (key : PublicKey) : Signature := ⟨Nat.pair message.val key.val + 1⟩

def env : Env := { Env.plain with checkSignature := fun hash key sig => sig == sign hash key }

/-- A derivation is the product of the keys, and one-time keys are sums. -/
def sending : Sending :=
  { SharedOffer.sending with generateSignature := fun message pub _ => sign message pub }

theorem ideal : sending.Ideal env where
  verifies {pub sec} _ message hash key := by
    change (sign message pub == sign hash key) = true ↔ _
    obtain ⟨message⟩ := message
    obtain ⟨hash⟩ := hash
    obtain ⟨pub⟩ := pub
    obtain ⟨key⟩ := key
    simp only [sign, beq_iff_eq, Signature.mk.injEq, Nat.add_right_cancel_iff, Nat.pair_eq_pair,
      Hash.mk.injEq, PublicKey.mk.injEq]
    exact and_congr eq_comm eq_comm
  nonnull {pub sec} _ message := by
    change sign message pub ≠ nullSig
    simp [sign, nullSig]
  derives := by
    intro txPublicKey view derivation pub sec derived own _ index made
    obtain rfl := Option.some.inj own
    obtain rfl := Option.some.inj made
    rfl

theorem oneTime : sending.OneTime where
  symmetric {pub sec pubToo secToo} first second := by
    obtain rfl := Option.some.inj first
    obtain rfl := Option.some.inj second
    exact congrArg (fun product => some (KeyDerivation.mk product)) (Nat.mul_comm _ _)
  injective {derivation index indexToo pub derived} first second := by
    have same := congrArg PublicKey.val (Option.some.inj (first.trans second.symm))
    change derivation.val + index + pub.val = derivation.val + indexToo + pub.val at same
    omega

/-- Every body is an offer, and a hash adds the numbers of an id. -/
def formats : OfferFormats where
  unpack := some
  loadOfferDetails _ := some default
  loadUpdateOffer _ := none
  loadCancelOffer _ := none
  updateSigHash uo := ⟨uo.txId.val + uo.offerIndex⟩
  cancelSigHash co := ⟨co.txId.val + co.offerIndex⟩
  podToHex _ := ""
  parseTpodFromHexString _ := none

theorem hashes : formats.HashBlobs fun blob => ⟨blob.txId.val + blob.offerIndex⟩ where
  cancel _ := rfl
  update _ := rfl

def offer : PayloadItem :=
  .txServiceAttachment ⟨bcOffersServiceId, bcOffersServiceInstructionAdd, "", [nullPkey], 0⟩

/-- Two offers behind a payment id and with another service and a comment between them. -/
def attachments : List PayloadItem :=
  [.txServiceAttachment ⟨"P", "", "payment", [], 0⟩, offer, .txComment "for sale",
    .txServiceAttachment ⟨"C", "", "contract", [nullPkey], 0⟩, offer]

def args : ConstructTx :=
  { SharedOffer.call 3 2 SharedOffer.buyer attachments false with flags := 0 }

def offered : TxDraft := (constructTx sending env args default).getD default

theorem offered_built : constructTx sending env args default = some offered := by
  have made : (constructTx sending env args default).isSome = true := by decide
  obtain ⟨result, built⟩ := Option.isSome_iff_exists.mp made
  rw [offered, built, Option.getD_some]

def service : OffersService := ⟨∅, 0, false⟩

end MixedOffers

end Virie
