import Virie.Attachments
import Virie.PreparedRings
import Virie.RingSignatures
import Virie.FoundPayments

/-! # Accepted transfers

A wallet prepares rings of what a node offers, constructs a transaction and signs it with the
operations on the curve. The node reads the rings back, finds the one-time keys, and accepts the
signatures and the attachments, if nothing is signed separately and no key image is spent. -/

open Foundation

namespace Virie

/-! ## Entries of the extra field -/

/-- An entry that neither asks for separate signatures nor announces attachments. -/
def PayloadItem.Plain : PayloadItem → Prop
  | .etcTxDetailsFlags v => v &&& txFlagSignatureModeSeparate = 0
  | .extraAttachmentInfo _ => False
  | _ => True

section Entries

variable {S : Sending}

theorem encryptAttach_plain (key : KeyDerivation) {item : PayloadItem} (plain : item.Plain) :
    (encryptAttach S key item).1.Plain := by
  cases item with
  | txServiceAttachment sa =>
    simp only [encryptAttach]
    split <;> trivial
  | _ => exact plain

theorem encryptAttachments_plain {tx : Transaction} (senderKeys : AccountKeys)
    (destinationAddr : AccountPublicAddress) (txRandomKey : Keypair)
    (plain : ∀ item ∈ tx.extra, item.Plain) :
    ∀ item ∈ (encryptAttachments S tx senderKeys destinationAddr txRandomKey).extra,
      item.Plain := by
  unfold encryptAttachments
  split
  · exact plain
  · next derivation _ =>
    have encrypted : ∀ item ∈ (encryptAll S derivation tx.extra).1, item.Plain := by
      intro item member
      obtain ⟨entry, isEntry, rfl⟩ := List.mem_map.mp member
      exact encryptAttach_plain derivation (plain entry isEntry)
    dsimp only
    split
    · intro item member
      rcases List.mem_append.mp member with before | last
      · exact encrypted item before
      · rw [List.mem_singleton.mp last]
        trivial
    · split
      · exact encrypted
      · exact encrypted

theorem updateOrAddField_plain {sameType : PayloadItem → Bool} {entry : PayloadItem}
    {extra : List PayloadItem} (own : entry.Plain) (plain : ∀ item ∈ extra, item.Plain) :
    ∀ item ∈ updateOrAddField sameType entry extra, item.Plain := by
  induction extra with
  | nil =>
    intro item member
    rw [List.mem_singleton.mp member]
    exact own
  | cons ev rest ih =>
    have plainRest := ih fun item member => plain item (.tail _ member)
    unfold updateOrAddField
    intro item member
    split at member
    · rcases List.mem_cons.mp member with rfl | later
      · exact own
      · exact plain item (.tail _ later)
    · rcases List.mem_cons.mp member with rfl | later
      · exact plain item (.head _)
      · exact plainRest item later

theorem setField_plain {value : Nat} {sameType : PayloadItem → Bool} {entry : PayloadItem}
    {extra : List PayloadItem} (own : entry.Plain) (plain : ∀ item ∈ extra, item.Plain) :
    ∀ item ∈ setField value sameType entry extra, item.Plain := by
  unfold setField
  split
  · exact updateOrAddField_plain own plain
  · exact plain

theorem startTx_plain {args : ConstructTx} (plainly : args.separate = false)
    (plain : ∀ item ∈ args.extra, item.Plain) : ∀ item ∈ (startTx S args).extra, item.Plain := by
  have flags : (PayloadItem.etcTxDetailsFlags args.flags).Plain := by
    rw [ConstructTx.separate, bne_eq_false_iff_eq] at plainly
    exact plainly
  have fields : ∀ item ∈ fieldsOf args, item.Plain :=
    setField_plain trivial (setField_plain flags (setField_plain trivial plain))
  refine encryptAttachments_plain _ _ _ fun item member => ?_
  rcases List.mem_append.mp member with field | last
  · exact fields item field
  · rw [List.mem_singleton.mp last]
    trivial

theorem constructTargetKey_plain {txSecKey : SecretKey} {outputIndex : Nat}
    {state next : List PublicKey × List PayloadItem × List Nat} {apa : AccountPublicAddress}
    (constructed : constructTargetKey S txSecKey outputIndex state apa = some next)
    (plain : ∀ item ∈ state.2.1, item.Plain) : ∀ item ∈ next.2.1, item.Plain := by
  obtain ⟨targetKeys, extra, derivCache⟩ := state
  simp only [constructTargetKey] at constructed
  split at constructed
  · cases constructed
    exact plain
  · simp only [Option.bind_eq_bind, Option.bind_eq_some_iff] at constructed
    obtain ⟨⟨key, derivation⟩, _, constructed⟩ := constructed
    split at constructed
    · cases constructed
      exact plain
    · cases constructed
      intro item member
      rcases List.mem_append.mp member with before | last
      · exact plain item before
      · rw [List.mem_singleton.mp last]
        trivial

theorem constructTargetKeys_plain {txSecKey : SecretKey} {outputIndex : Nat}
    {addr : List AccountPublicAddress} {state final : List PublicKey × List PayloadItem × List Nat}
    (constructed : addr.foldlM (constructTargetKey S txSecKey outputIndex) state = some final)
    (plain : ∀ item ∈ state.2.1, item.Plain) : ∀ item ∈ final.2.1, item.Plain := by
  induction addr generalizing state with
  | nil =>
    cases constructed
    exact plain
  | cons apa rest ih =>
    rw [List.foldlM_cons, Option.bind_eq_bind, Option.bind_eq_some_iff] at constructed
    obtain ⟨next, first, later⟩ := constructed
    exact ih later (constructTargetKey_plain first plain)

theorem constructTxOuts_plain {txSecKey : SecretKey} {txOutsAttr : Nat}
    {dsts : List TxDestinationEntry} {tx after : Transaction} {derivCache : List Nat}
    (constructed : constructTxOuts S txSecKey txOutsAttr dsts tx derivCache = some after)
    (plain : ∀ item ∈ tx.extra, item.Plain) : ∀ item ∈ after.extra, item.Plain := by
  induction dsts generalizing tx derivCache with
  | nil =>
    cases constructed
    exact plain
  | cons de rest ih =>
    simp only [constructTxOuts, constructTxOut, Option.bind_eq_bind, Option.bind_eq_some_iff,
      Option.pure_def, Option.some.injEq, Prod.exists, Prod.mk.injEq] at constructed
    obtain ⟨_, _, next, cache, ⟨_, _, keys, extra, left, isKeys, rfl, rfl⟩, later⟩ := constructed
    exact ih later (constructTargetKeys_plain isKeys plain)

/-- Without plain flags nothing is signed separately. -/
theorem separatelySigned_plain {tx : TransactionPrefix} {extra : List PayloadItem}
    {info : Option ExtraAttachmentInfo} (plain : ∀ item ∈ extra, item.Plain)
    (isExtra : tx.extra = extra ++ (info.map PayloadItem.extraAttachmentInfo).toList) :
    tx.separatelySigned = false := by
  unfold TransactionPrefix.separatelySigned
  rw [getTxFlags_eq, bne_eq_false_iff_eq, isExtra]
  cases found : (extra ++ (info.map PayloadItem.extraAttachmentInfo).toList).findSome?
      flagsEntry with
  | none => rfl
  | some flags =>
    obtain ⟨item, member, isFlags⟩ := List.exists_of_findSome?_eq_some found
    rcases List.mem_append.mp member with before | last
    · have own := plain item before
      cases item <;> cases isFlags
      exact own
    · obtain ⟨eai, _, rfl⟩ := Option.map_eq_some_iff.mp (Option.mem_toList.mp last)
      cases isFlags

theorem extraAttachmentInfo_plain {extra trailing : List PayloadItem}
    (plain : ∀ item ∈ extra, item.Plain) :
    extraAttachmentInfo (extra ++ trailing) = extraAttachmentInfo trailing := by
  have none : extraAttachmentInfo extra = none := by
    refine List.findSome?_eq_none_iff.mpr fun item member => ?_
    have own := plain item member
    cases item <;> first | rfl | exact own.elim
  rw [extraAttachmentInfo, List.findSome?_append]
  change (extraAttachmentInfo extra).or (extraAttachmentInfo trailing) = _
  rw [none, Option.none_or]

/-- What a call announces of its attachments is what a node looks for. -/
theorem validateAttachmentInfo_announced {E : Env} {extra attachment : List PayloadItem}
    (plain : ∀ item ∈ extra, item.Plain) :
    validateAttachmentInfo E (extraAttachmentInfo (extra ++
      ((attachmentInfoOf E attachment).map PayloadItem.extraAttachmentInfo).toList)) attachment
        false = true := by
  rw [extraAttachmentInfo_plain plain]
  cases found : attachmentInfoOf E attachment with
  | none =>
    have empty : attachment = [] := by
      unfold attachmentInfoOf at found
      split at found
      · next empty => exact List.isEmpty_iff.mp empty
      · cases found
    rw [empty]
    rfl
  | some eai =>
    have filled : attachment.isEmpty = false := by
      unfold attachmentInfoOf at found
      split at found
      · cases found
      · next filled => exact Bool.not_eq_true _ ▸ filled
    obtain ⟨few, same⟩ := attachmentInfoOf_describes found
    change validateAttachmentInfo E (some eai) attachment false = true
    change (true == !attachment.isEmpty && decide (eai.cnt ≤ attachment.length) &&
      decide (eai = getAttachmentExtraInfoDetails E (attachment.take eai.cnt))) = true
    rw [filled, decide_eq_true few, decide_eq_true same]
    rfl

end Entries

/-! ## Plain calls -/

section Call

variable {S : Sending} {E : Env} {args : ConstructTx} {draft result : TxDraft}

/-- The signatures of new inputs, where nothing is signed separately. -/
theorem signTxIns_plainly {txkey : Keypair} {tx : Transaction} {txPrefixHash : Hash}
    (plainly : args.separate = false) (unsigned : tx.separatelySigned = false) {inputIndex : Nat}
    {items : List (TxSourceEntry × Txin × Keypair)} {sigs : List (List Signature)}
    (signed : signTxIns S E args txkey tx txPrefixHash inputIndex items = some sigs) :
    (items ≠ [] → txPrefixHash ≠ nullHash) ∧
      List.Forall₂ (fun item sig => signTxIn S item.1 item.2.1 item.2.2 txPrefixHash = sig)
        items sigs := by
  induction items generalizing inputIndex sigs with
  | nil =>
    cases signed
    exact ⟨fun any => absurd rfl any, .nil⟩
  | cons item rest ih =>
    obtain ⟨source, input, inEphemeral⟩ := item
    simp only [signTxIns, Option.bind_eq_bind, Option.bind_eq_some_iff, Option.guard_eq_some',
      Option.pure_def, Option.some.injEq] at signed
    obtain ⟨_, signable, _, complete, others, later, rfl⟩ := signed
    have whole : preparePrefixHashForSign E tx inputIndex txPrefixHash = txPrefixHash := by
      unfold preparePrefixHashForSign at signable ⊢
      split at signable
      · exact absurd rfl signable
      · next inside =>
        rw [if_neg inside, unsigned]
        rfl
    have open_ : source.separatelySignedTxComplete = false := by
      cases isComplete : source.separatelySignedTxComplete with
      | false => rfl
      | true =>
        obtain ⟨_, separate, _⟩ := complete isComplete
        rw [plainly] at separate
        cases separate
    refine ⟨fun _ => whole ▸ signable, .cons ?_ (ih later).2⟩
    rw [open_, whole]
    rfl

/-- What a call that signs nothing separately builds: its inputs and their signatures, and entries
that are plain up to the info on the attachments. -/
structure PlainCall (S : Sending) (E : Env) (args : ConstructTx) (inputs : List (Txin × Keypair))
    (tx : Transaction) : Prop where
  made : List.Forall₂ (fun source input => constructTxIn S args.senderAccountKeys source =
    some input) args.sources inputs
  vin : tx.vin = inputs.map Prod.fst
  signed : List.Forall₂ (fun item sig => signTxIn S item.1 item.2.1 item.2.2
    (getTransactionHash E tx.toTransactionPrefix) = sig) (args.sources.zip inputs) tx.signatures
  signable : args.sources ≠ [] → getTransactionHash E tx.toTransactionPrefix ≠ nullHash
  unsigned : tx.separatelySigned = false
  announced : validateAttachmentInfo E (extraAttachmentInfo tx.extra) tx.attachment false = true

theorem encryptAttachments_signatures (tx : Transaction) (senderKeys : AccountKeys)
    (destinationAddr : AccountPublicAddress) (txRandomKey : Keypair) :
    (encryptAttachments S tx senderKeys destinationAddr txRandomKey).signatures =
      tx.signatures := by
  unfold encryptAttachments
  split
  · rfl
  · dsimp only
    split
    · rfl
    · split <;> rfl

theorem constructTx_plainly (plainly : args.separate = false)
    (plain : ∀ item ∈ args.extra, item.Plain)
    (built : constructTx S E args draft = some result) :
    ∃ inputs, PlainCall S E args inputs result.tx := by
  simp only [constructTx, beginTx, plainly, Option.bind_eq_bind, Option.bind_eq_some_iff,
    Option.guard_eq_some', Option.pure_def, Option.some.injEq, Bool.false_and, Bool.false_eq_true,
    ↓reduceIte, false_or] at built
  obtain ⟨_, _, _, rfl, inputs, made, grown, outs, _, _, attachment, _, sigs, signed, rfl⟩ := built
  have grows := constructTxOuts_grows outs
  have plainGrown := constructTxOuts_plain outs (startTx_plain plainly plain)
  have noInputs : (startTx S args).vin = [] := startTx_vin args
  have noSigs : grown.signatures = [] :=
    grows.signatures.trans (encryptAttachments_signatures _ _ _ _)
  have unsigned : TransactionPrefix.separatelySigned ⟨grown.version,
      (startTx S args).vin ++ inputs.map Prod.fst, grown.vout, grown.extra ++
        ((attachmentInfoOf E attachment).map PayloadItem.extraAttachmentInfo).toList⟩ = false :=
    separatelySigned_plain plainGrown rfl
  refine ⟨inputs, ?_, ?_, ?_, ?_, unsigned, validateAttachmentInfo_announced plainGrown⟩
  · exact forall₂_of_mapM made
  · dsimp only
    rw [noInputs, List.nil_append]
  · have each := (signTxIns_plainly plainly unsigned signed).2
    dsimp only
    rw [noSigs, List.nil_append]
    exact each
  · intro any
    refine (signTxIns_plainly plainly unsigned signed).1 fun none => ?_
    rcases List.zip_eq_nil_iff.mp none with noSources | noInputs
    · exact any noSources
    · have length := (forall₂_of_mapM made).length_eq
      rw [noInputs, List.length_nil] at length
      exact any (List.eq_nil_of_length_eq_zero length)

end Call

/-! ## Keys on the curve -/

section Curve

variable {Point : Type} [AddCommGroup Point] {C : Curve Point} {S : Sending} {E : Env}

namespace Curve

theorem length_generateLoop {image : Point} {k secIndex i sum : Nat} {random : Nat → Nat × Nat}
    {pubs : List PublicKey} {result : RsComm × List Signature × Nat}
    (generated : C.generateLoop image k random secIndex i pubs sum = some result) :
    result.2.1.length = pubs.length := by
  induction pubs generalizing i sum result with
  | nil =>
    cases generated
    rfl
  | cons pub pubs ih =>
    unfold generateLoop at generated
    split at generated
    · obtain ⟨rest, isRest, generated⟩ := Option.bind_eq_some_iff.mp generated
      cases generated
      exact congrArg (· + 1) (ih isRest)
    · obtain ⟨point, _, generated⟩ := Option.bind_eq_some_iff.mp generated
      obtain ⟨rest, isRest, generated⟩ := Option.bind_eq_some_iff.mp generated
      cases generated
      exact congrArg (· + 1) (ih isRest)

theorem length_generateRingSignature {k secIndex : Nat} {random : Nat → Nat × Nat}
    {prefixHash : Hash} {image : KeyImage} {pubs : List PublicKey} {sec : SecretKey}
    {sig : List Signature}
    (generated : C.generateRingSignature k random prefixHash image pubs sec secIndex = some sig) :
    sig.length = pubs.length := by
  obtain ⟨imageUnp, _, generated⟩ := Option.bind_eq_some_iff.mp generated
  obtain ⟨rest, isRest, generated⟩ := Option.bind_eq_some_iff.mp generated
  cases generated
  exact List.length_set.trans (length_generateLoop isRest)

/-- A wallet signs and a node checks with the operations on the curve, whatever the random scalars
are. -/
structure Signs (C : Curve Point) (S : Sending) (E : Env) : Prop where
  keys : ∃ nonce, S.toSigning = C.signing nonce
  image : S.generateKeyImage = C.generateKeyImage
  ring : ∀ prefixHash image pubs sec secIndex, ∃ k random, C.Canonical random ∧
    ∀ sig, C.generateRingSignature k random prefixHash image pubs sec secIndex = some sig →
      S.generateRingSignature prefixHash image pubs sec secIndex = sig
  validates : E.validateKeyImage = C.validateKeyImage
  checks : E.checkRingSignature = C.checkRingSignature

theorem Signs.accepted (signs : C.Signs S E) (laws : C.Laws) {pubs : List PublicKey}
    (points : ∀ pub ∈ pubs, C.checkKey pub = true) {secIndex : Nat} {pair : Keypair}
    (real : pubs[secIndex]? = some pair.pub) (matching : S.Matching pair.pub pair.sec)
    (prefixHash : Hash) :
    let image := S.generateKeyImage pair.pub pair.sec
    let sig := S.generateRingSignature prefixHash image pubs pair.sec secIndex
    E.validateKeyImage image = true ∧ sig.length = pubs.length ∧
      E.checkRingSignature prefixHash image pubs sig = true := by
  intro image sig
  have matchingToo : C.Matching pair.pub pair.sec := by
    obtain ⟨nonce, keys⟩ := signs.keys
    rw [keys] at matching
    exact matching
  obtain ⟨k, random, canonical, made⟩ := signs.ring prefixHash image pubs pair.sec secIndex
  have same : image = C.generateKeyImage pair.pub pair.sec := by
    rw [← signs.image]
  obtain ⟨generated, isGenerated, checked⟩ :=
    generateRingSignature_accepted laws canonical points real matchingToo k prefixHash
  rw [← same] at isGenerated
  have isSig : sig = generated := made generated isGenerated
  rw [isSig, signs.validates, signs.checks, same]
  exact ⟨generateKeyImage_valid laws _ _, length_generateRingSignature isGenerated, checked⟩

end Curve

end Curve

/-! ## Checking the inputs -/

section Node

variable {Point : Type} [AddCommGroup Point] {C : Curve Point} {S : Sending} {E : Env}
  {chain : Chain}

theorem checkTxInputsFrom_each {tx : Transaction} {txId : Hash} {i : Nat} {rest : List Txin}
    (each : ∀ j txin, rest[j]? = some txin → ∀ height, ∃ after,
      checkTxInput E chain tx txId (i + j) txin height = .ok () after) (height : Nat) :
    ∃ after, checkTxInputsFrom E chain tx txId i rest height = .ok () after := by
  induction rest generalizing i height with
  | nil => exact ⟨height, rfl⟩
  | cons txin rest ih =>
    obtain ⟨middle, first⟩ := each 0 txin rfl height
    obtain ⟨after, later⟩ := @ih (i + 1) (fun j other isOther => by
      rw [Nat.add_right_comm, Nat.add_assoc]
      exact each (j + 1) other isOther) middle
    exact ⟨after, Procedure.bind_ok.mpr ⟨(), middle, first, later⟩⟩

/-- The node takes the input that is made of a spendable source, with the signature that is made for
it. -/
theorem checkTxInput_spendable (laws : C.Laws) (signs : C.Signs S E)
    (points : ∀ key, OnChain chain key → C.checkKey key = true) {keys : AccountKeys}
    (own : keys.Own S.toSigning) {source : TxSourceEntry} (spendable : Spendable chain source)
    {input : Txin × Keypair} (made : constructTxIn S keys source = some input) {tx : Transaction}
    (unsigned : tx.separatelySigned = false) {i : Nat} (inside : i < tx.vin.length) {txId : Hash}
    (signable : txId ≠ nullHash)
    (unspent : ∀ toKey, input.1 = .toKey toKey → chain.db.haveTxKeyimgAsSpent toKey.kImage = false)
    (signed : tx.signatures[i]? = some (signTxIn S source input.1 input.2 txId)) (height : Nat) :
    ∃ after, checkTxInput E chain tx txId i input.1 height = .ok () after := by
  unfold constructTxIn at made
  have single : source.isMultisig = false := by
    rw [TxSourceEntry.isMultisig, spendable.single]
    rfl
  rw [single, Bool.not_false, if_pos rfl] at made
  obtain ⟨⟨realRef, realKey⟩, isReal, made⟩ := Option.bind_eq_some_iff.mp made
  obtain ⟨pair, derives, made⟩ := Option.bind_eq_some_iff.mp made
  split at made
  · cases made
  next isKey =>
  cases made
  have matching : S.Matching pair.pub pair.sec := by
    obtain ⟨nonce, same⟩ := signs.keys
    rw [same] at own derives ⊢
    exact Curve.signing_derives laws nonce own derives
  have real : (source.outputs.map Prod.snd)[source.realOutput]? = some pair.pub := by
    rw [List.getElem?_map, isReal]
    exact congrArg some (not_not.mp isKey).symm
  obtain ⟨valid, length, checked⟩ := signs.accepted laws
    (fun key member => points key (spendable.onChain key member)) real matching txId
  let toKey : TxinToKey :=
    { amount := source.amount
      keyOffsets := absoluteOutputOffsetsToRelative (source.outputs.map Prod.fst)
      kImage := S.generateKeyImage pair.pub pair.sec
      etcDetails := [] }
  let sig := S.generateRingSignature txId toKey.kImage (source.outputs.map Prod.snd) pair.sec
    source.realOutput
  obtain ⟨after, read⟩ := spendable.accepted toKey rfl rfl height
  have offsets : toKey.keyOffsets.length = (source.outputs.map Prod.snd).length := by
    rw [length_absoluteOutputOffsetsToRelative, List.length_map, List.length_map]
  have some : toKey.keyOffsets.isEmpty = false := by
    rw [← Bool.not_eq_true, List.isEmpty_iff]
    intro none
    rw [none, List.length_map] at offsets
    exact spendable.nonempty (List.eq_nil_of_length_eq_zero offsets.symm)
  let given := if chain.isInCheckpointZone then [] else sig
  have token : checkTokeyInput E chain tx i toKey txId given (source.outputs.map Prod.snd) =
      true := by
    have extra : needToCheckExtraSign tx i = false := by
      rw [needToCheckExtraSign, unsigned, Bool.false_and]
    have whole : preparePrefixHashForSign E tx i txId = txId := by
      unfold preparePrefixHashForSign
      rw [if_neg (Nat.not_le.mpr inside), unsigned]
      rfl
    have attachments : checkInputAttachments E tx i toKey.etcDetails = true := by
      unfold checkInputAttachments
      rw [unsigned]
      rfl
    have counted : ((source.outputs.map Prod.snd).length + 0 == sig.length) = true :=
      beq_iff_eq.mpr length.symm
    have taken : sig.take (source.outputs.map Prod.snd).length = sig :=
      List.take_of_length_le length.le
    unfold checkTokeyInput
    rw [if_neg (not_not.mpr offsets)]
    split
    · rfl
    · next outside =>
      have isGiven : given = sig := if_neg outside
      simp only [isGiven, extra, whole, attachments, taken, Bool.false_eq_true, ↓reduceIte,
        counted, bne_iff_ne.mpr signable, Bool.not_false, Bool.true_or, Bool.and_true,
        Bool.true_and]
      exact (Bool.and_eq_true _ _).mpr ⟨valid, checked⟩
  refine ⟨after, Procedure.bind_ok.mpr ⟨given, height, ?_, ?_⟩⟩
  · unfold signaturesOfInput
    split
    · next zone =>
      have isGiven : given = [] := if_pos zone
      exact Procedure.pure_ok.mpr ⟨isGiven.symm, rfl⟩
    · next outside =>
      have isGiven : given = sig := if_neg outside
      rw [isGiven]
      exact Procedure.demand_ok.mpr ⟨signed, rfl⟩
  · have isUnspent := unspent toKey rfl
    have first : (!toKey.keyOffsets.isEmpty) = true := by rw [some, Bool.not_false]
    have second : (!chain.db.haveTxKeyimgAsSpent toKey.kImage) = true := by
      rw [isUnspent, Bool.not_false]
    refine Procedure.bind_ok.mpr ⟨(), height, Procedure.require_ok.mpr ⟨first, rfl⟩, ?_⟩
    refine Procedure.bind_ok.mpr ⟨(), height, Procedure.require_ok.mpr ⟨second, rfl⟩, ?_⟩
    refine Procedure.bind_ok.mpr ⟨_, after, read, ?_⟩
    exact Procedure.require_ok.mpr ⟨token, rfl⟩

/-- A transaction is accepted whose inputs are made of spendable sources and are signed. -/
theorem PlainCall.accepted (laws : C.Laws) (signs : C.Signs S E)
    (points : ∀ key, OnChain chain key → C.checkKey key = true) {args : ConstructTx}
    (own : args.senderAccountKeys.Own S.toSigning)
    (spendable : ∀ source ∈ args.sources, Spendable chain source)
    {inputs : List (Txin × Keypair)} {tx : Transaction} (call : PlainCall S E args inputs tx)
    (unspent : haveTxKeyimgesAsSpent chain tx.toTransactionPrefix = false) :
    InputsAccepted E chain tx := by
  have same : args.sources.length = inputs.length := call.made.length_eq
  have each : ∀ j txin, tx.vin[j]? = some txin → ∀ height, ∃ after,
      checkTxInput E chain tx (getTransactionHash E tx.toTransactionPrefix) (0 + j) txin height =
        .ok () after := by
    intro j txin isInput height
    rw [Nat.zero_add]
    have inside : j < tx.vin.length := (List.getElem?_eq_some_iff.mp isInput).1
    rw [call.vin, List.getElem?_map] at isInput
    obtain ⟨input, isMade, rfl⟩ := Option.map_eq_some_iff.mp isInput
    have inSources : j < args.sources.length := by
      rw [same]
      exact (List.getElem?_eq_some_iff.mp isMade).1
    have isSource := List.getElem?_eq_getElem inSources
    have made := forall₂_getElem? call.made isSource isMade
    have paired : (args.sources.zip inputs)[j]? = some (args.sources[j], input) :=
      List.getElem?_zip_eq_some.mpr ⟨isSource, isMade⟩
    have signed : tx.signatures[j]? = some (signTxIn S args.sources[j] input.1 input.2
        (getTransactionHash E tx.toTransactionPrefix)) := by
      have inSigned : j < tx.signatures.length := by
        rw [← call.signed.length_eq]
        exact (List.getElem?_eq_some_iff.mp paired).1
      rw [List.getElem?_eq_getElem inSigned]
      exact congrArg some
        (forall₂_getElem? call.signed paired (List.getElem?_eq_getElem inSigned)).symm
    refine checkTxInput_spendable laws signs points own
      (spendable _ (List.getElem_mem inSources)) made call.unsigned inside
      (call.signable (List.ne_nil_of_length_pos (Nat.zero_lt_of_lt inSources))) ?_ signed height
    intro toKey isToKey
    have free := List.any_eq_false.mp unspent input.1 (by
      rw [call.vin]
      exact List.mem_map.mpr ⟨input, List.mem_of_getElem? isMade, rfl⟩)
    rw [isToKey] at free
    exact Bool.not_eq_true _ ▸ free
  obtain ⟨height, checked⟩ := checkTxInputsFrom_each each 0
  have counted : tx.signatures.length = tx.vin.length := by
    rw [← call.signed.length_eq, call.vin, List.length_zip, List.length_map, same, Nat.min_self]
  cases zone : chain.isInCheckpointZone with
  | false =>
    refine (inputsAccepted_outside zone tx).mpr ⟨⟨height, checked⟩, counted, ?_⟩
    rw [call.announced, Bool.or_true]
  | true =>
    refine (inputsAccepted_iff tx).mpr ⟨height, ?_⟩
    refine Procedure.bind_ok.mpr ⟨(), 0, Procedure.set_ok.mpr rfl, ?_⟩
    refine Procedure.bind_ok.mpr ⟨(), height, checked, ?_⟩
    rw [zone]
    rfl

end Node

namespace OneOutput

/-- The account with the keys 4 and 3 of the small curve. -/
def account : AccountKeys := ⟨⟨⟨33⟩, ⟨25⟩⟩, ⟨4⟩, ⟨3⟩⟩

/-- A payment to the account. -/
def payment : Transaction :=
  { (default : Transaction) with
    vout := [⟨5, .toKey ⟨⟨49⟩, 0⟩⟩]
    extra := [.publicKey ⟨41⟩] }

def chain : Chain :=
  { db :=
    { blocks := List.replicate 10 default
      transactions := (∅ : Container Hash TransactionChainEntry).set ⟨7⟩ ⟨payment, 0, [0], [false]⟩
      outputs := (∅ : ArrayContainer Nat GlobalOutputEntry).pushBackItem 5 ⟨⟨7⟩, 0⟩ } }

def transfer : Wallet.TransferDetails :=
  { (default : Wallet.TransferDetails) with ptxWalletInfo := ⟨0, 0, payment⟩ }

/-- The key functions on the small curve. -/
def sending : Sending :=
  { plainSending with
    toSigning := Curve.smallCurve.signing fun _ _ _ => 7
    generateKeyImage := Curve.smallCurve.generateKeyImage
    generateRingSignature := fun prefixHash image pubs sec secIndex =>
      (Curve.smallCurve.generateRingSignature 7 (fun _ => (1, 2)) prefixHash image pubs sec
        secIndex).getD [] }

def env : Env :=
  { Env.plain with
    validateKeyImage := Curve.smallCurve.validateKeyImage
    checkRingSignature := Curve.smallCurve.checkRingSignature }

def source : TxSourceEntry :=
  { outputs := [(.index 0, ⟨49⟩)]
    realOutput := 0
    realOutTxKey := ⟨41⟩
    realOutputInTxIndex := 0
    amount := 5
    multisigId := nullHash
    msSigsCount := 0
    msKeysCount := 0
    separatelySignedTxComplete := false }

def args : ConstructTx :=
  { senderAccountKeys := account
    sources := [source]
    destinations := [⟨5, [⟨⟨25⟩, ⟨33⟩⟩], 0⟩]
    extra := []
    attachments := []
    unlockTime := 0
    cryptDestinationAddr := ⟨⟨25⟩, ⟨33⟩⟩
    expirationTime := 0
    txOutsAttr := 0
    shuffle := false
    flags := 0
    generated := ⟨⟨41⟩, ⟨5⟩⟩ }

theorem signs : Curve.smallCurve.Signs sending env where
  keys := ⟨_, rfl⟩
  image := rfl
  ring prefixHash image pubs sec secIndex := by
    refine ⟨7, fun _ => (1, 2), fun _ => ⟨?_, ?_⟩, fun sig generated => ?_⟩
    · exact (by decide : 1 < 13)
    · exact (by decide : 2 < 13)
    · exact congrArg (Option.getD · []) generated
  validates := rfl
  checks := rfl

theorem chain_points (key : PublicKey) (onChain : OnChain chain key) :
    Curve.smallCurve.checkKey key = true := by
  obtain ⟨id, entry, out, outtk, isEntry, member, isKey, rfl⟩ := onChain
  change ((∅ : Container Hash TransactionChainEntry).set ⟨7⟩ _).get id = _ at isEntry
  rw [Container.get_set] at isEntry
  split at isEntry
  · cases isEntry
    rw [List.mem_singleton.mp member] at isKey
    cases isKey
    decide
  · rw [Container.get_empty] at isEntry
    cases isEntry

theorem chain_bounded (amount : Nat) : chain.db.outputs.getItemSize amount ≤ 2 ^ 64 := by
  unfold ArrayContainer.getItemSize
  change (ArrayContainer.items (ArrayContainer.pushBackItem _ _ _) amount).length ≤ _
  simp only [ArrayContainer.items_pushBackItem]
  split <;> simp

theorem transfer_owned : Owned chain 0 transfer := by
  intro out outtk isOut isKey
  cases isOut
  cases isKey
  exact ⟨⟨⟨7⟩, 0⟩, ⟨payment, 0, [0], [false]⟩, ⟨5, .toKey ⟨⟨49⟩, 0⟩⟩, ⟨⟨49⟩, 0⟩,
    by decide +kernel, by decide +kernel, rfl, rfl, rfl, by decide +kernel, by decide +kernel⟩

theorem source_prepared : prepareTxSources 0 [transfer] (fun amounts count =>
    chain.getRandomOutsForAmounts count false [] amounts) = some args.sources := by
  simp only [prepareTxSources, prepareTxSource, List.mergeSort_nil, pasteMixins]
  rfl

theorem chain_unspent (tx : TransactionPrefix) : haveTxKeyimgesAsSpent chain tx = false := by
  refine List.any_eq_false.mpr fun txin _ => ?_
  cases txin with
  | gen _ => exact Bool.false_ne_true
  | toKey input =>
    change ¬ Container.has (∅ : Container KeyImage Nat) _ = true
    simp [Container.has]
  | multisig input =>
    have none : chain.db.multisigOuts.get input.multisigOutId = none := Container.get_empty _
    change ¬ isMultisigOutputSpent chain _ = true
    rw [isMultisigOutputSpent, none]
    exact Bool.false_ne_true

end OneOutput
end Virie
