import Virie.Chainstate.Resolution

/-! # Which attachments an id commits to

Attachments lie outside the hashed prefix and are committed to by a size, a hash and
a count. The count alone decides how many attachments are covered: the last input of
a separately signed transaction must cover all of them, the extra field of any other
transaction may cover a few. -/

open Foundation

namespace Virie

section Attachments

variable {E : Env} {chain : Chain}

/-- The inputs of a transaction pass their checks under its id. -/
def InputsAccepted (E : Env) (chain : Chain) (tx : Transaction) : Prop :=
  (txInputsValid E chain tx (getTransactionHash E tx.toTransactionPrefix)).succeeds = true

/-- The prefix leaves no freedom in the attachments: a separately signed transaction ends with
a checked input, any other one announces no attachments. -/
def attachmentsPinned (tx : TransactionPrefix) : Bool :=
  if tx.separatelySigned then (tx.vin.getLast?.map fun input => !input.isGen).getD false
  else (extraAttachmentInfo tx.extra).isNone

theorem inputsAccepted_iff (tx : Transaction) :
    InputsAccepted E chain tx ↔
      ∃ height, checkTxInputs E chain tx (getTransactionHash E tx.toTransactionPrefix) 0 =
        .ok () height := by
  unfold InputsAccepted txInputsValid
  cases checkTxInputs E chain tx (getTransactionHash E tx.toTransactionPrefix) 0 with
  | ok value height => simp [Outcome.succeeds, pure, Except.pure]
  | error reason height => simp [Outcome.succeeds, throw, throwThe, MonadExceptOf.throw]

/-! ## What an accepted input commits to -/

/-- Outside the checkpoint zone every checked input obeys the attachment rule and has a hash to
sign. -/
theorem checkTxInput_commits (outside : chain.isInCheckpointZone = false) {tx : Transaction}
    {txId : Hash} {index : Nat} {input : Txin} {before after : Nat} (checked : !input.isGen)
    (accepted : checkTxInput E chain tx txId index input before = .ok () after) :
    checkInputAttachments E tx index input.etcOptions = true ∧
      preparePrefixHashForSign E tx index txId ≠ nullHash := by
  simp only [checkTxInput, Procedure.bind_ok] at accepted
  obtain ⟨sig, _, _, accepted⟩ := accepted
  cases input with
  | gen height => exact absurd checked (by simp [Txin.isGen])
  | toKey input =>
    simp only [Procedure.bind_ok, Procedure.require_ok, checkTxInputToKey] at accepted
    obtain ⟨_, _, _, _, _, _, keys, _, _, verified, _⟩ := accepted
    unfold checkTokeyInput at verified
    split at verified
    · exact absurd verified (by simp)
    · simp only [outside, Bool.false_eq_true, ↓reduceIte, Bool.and_eq_true, bne_iff_ne] at verified
      exact ⟨verified.1.1.1.1.1, verified.1.1.1.2⟩
  | multisig input =>
    simp only [Procedure.bind_ok, Procedure.require_ok, checkTxInputMultisig] at accepted
    obtain ⟨ms, _, _, _, _, _, source, _, _, _, _, _, _, _, ⟨verified, _⟩, _⟩ := accepted
    unfold checkMsInput at verified
    rw [Bool.and_eq_true] at verified
    replace verified := verified.2
    split at verified
    · simp only [outside, Bool.false_or, Bool.and_eq_true] at verified
      obtain ⟨_, attached, verified⟩ := verified
      split at verified
      · exact absurd verified (by simp)
      · simp only [Bool.and_eq_true, bne_iff_ne] at verified
        exact ⟨attached, verified.1.1.1.2⟩
    · exact absurd verified (by simp)

/-- What the checks outside the checkpoint zone amount to. -/
theorem inputsAccepted_outside (outside : chain.isInCheckpointZone = false) (tx : Transaction) :
    InputsAccepted E chain tx ↔
      (∃ height, checkTxInputsFrom E chain tx (getTransactionHash E tx.toTransactionPrefix) 0 tx.vin
        0 = .ok () height) ∧
      tx.signatures.length = tx.vin.length ∧
      (tx.separatelySigned ||
        validateAttachmentInfo E (extraAttachmentInfo tx.extra) tx.attachment false) = true := by
  rw [inputsAccepted_iff]
  simp only [checkTxInputs, outside, Bool.false_eq_true, ↓reduceIte, Procedure.bind_ok,
    Procedure.set_ok, Procedure.require_ok, beq_iff_eq]
  constructor
  · rintro ⟨height, _, _, rfl, _, middle, checked, _, _, ⟨signed, rfl⟩, attached, rfl⟩
    exact ⟨⟨_, checked⟩, signed, attached⟩
  · rintro ⟨⟨height, checked⟩, signed, attached⟩
    exact ⟨height, ⟨⟩, 0, rfl, (), height, checked, (), height, ⟨signed, rfl⟩, attached, rfl⟩

/-- A valid info that covers a whole attachment list fixes its hash. -/
theorem validateAttachmentInfo_covers {info : ExtraAttachmentInfo} {attachments : List PayloadItem}
    {lenient : Bool} (valid : validateAttachmentInfo E (some info) attachments lenient = true)
    (whole : info.cnt = attachments.length) : E.attachmentHash attachments = info.hsh := by
  simp only [validateAttachmentInfo, Option.isNone_some, Bool.false_and, Bool.false_eq_true,
    ↓reduceIte, Option.isSome_some, Option.getD_some, whole, List.take_length, Bool.and_eq_true,
    decide_eq_true_eq, beq_iff_eq] at valid
  obtain ⟨⟨nonempty, _⟩, same⟩ := valid
  have filled : attachments.isEmpty = false := by simpa using nonempty.symm
  rw [same, getAttachmentExtraInfoDetails, filled]
  rfl

/-- Where an info is required, its absence means that there are no attachments. -/
theorem attachments_empty_of_no_info {attachments : List PayloadItem}
    (valid : validateAttachmentInfo E none attachments false = true) : attachments = [] := by
  simp only [validateAttachmentInfo, Option.isNone_none, Bool.and_false, Bool.false_eq_true,
    ↓reduceIte, Option.isSome_none, Bool.and_eq_true, beq_iff_eq] at valid
  simpa using valid.1.1.symm

/-! ## Pinned attachments -/

/-- The inputs of a separately signed transaction sign all attachments when the last one has a
hash to sign. -/
theorem signedCounts_of_signable {tx : Transaction} {txId : Hash}
    (separate : tx.separatelySigned = true) (nonempty : tx.vin ≠ [])
    (signable : preparePrefixHashForSign E tx (tx.vin.length - 1) txId ≠ nullHash) :
    ∃ counts, signedCounts tx (tx.vin.length - 1) = some counts ∧
      counts.attachments = tx.attachment.length := by
  have positive : 0 < tx.vin.length := List.length_pos_iff.mpr nonempty
  have inRange : ¬ tx.vin.length - 1 ≥ tx.vin.length := by omega
  unfold preparePrefixHashForSign at signable
  simp only [if_neg inRange, separate, Bool.not_true, Bool.false_eq_true, ↓reduceIte] at signable
  split at signable
  · exact absurd rfl signable
  · next counts summed =>
    refine ⟨counts, summed, ?_⟩
    by_contra missing
    exact signable (if_neg fun all => missing all.2.2)

/-- The last checked input of a separately signed transaction covers all attachments. -/
theorem last_input_covers {tx : Transaction} {txId : Hash} {input : Txin}
    (separate : tx.separatelySigned = true) (last : tx.vin.getLast? = some input)
    (signable : preparePrefixHashForSign E tx (tx.vin.length - 1) txId ≠ nullHash)
    {info : ExtraAttachmentInfo} (found : etcAttachmentInfo input.etcOptions = some info) :
    info.cnt = tx.attachment.length := by
  have nonempty : tx.vin ≠ [] := by
    intro empty
    simp [empty] at last
  have split : tx.vin = tx.vin.dropLast ++ [input] := by
    rw [List.getLast?_eq_some_getLast nonempty, Option.some.injEq] at last
    rw [← last, List.dropLast_append_getLast nonempty]
  have whole : tx.vin.take (tx.vin.length - 1 + 1) = tx.vin := by
    rw [Nat.sub_add_cancel (List.length_pos_iff.mpr nonempty), List.take_length]
  obtain ⟨counts, summed, complete⟩ := signedCounts_of_signable separate nonempty signable
  rw [signedCounts, whole, split, List.foldlM_append] at summed
  obtain ⟨previous, _, final⟩ := Option.bind_eq_some_iff.mp summed
  simp only [List.foldlM_cons, List.foldlM_nil, bind_pure] at final
  simp only [SignedCounts.addInput, found, Option.bind_eq_bind, Option.bind_eq_some_iff] at final
  obtain ⟨_, _, _, _, _, _, _, _, final⟩ := final
  cases final
  exact complete

/-- The info that announces the attachments of a transaction: the last input's or the extra
field's. -/
def announcedInfo (tx : TransactionPrefix) : Option ExtraAttachmentInfo :=
  if tx.separatelySigned then tx.vin.getLast?.bind fun input => etcAttachmentInfo input.etcOptions
  else extraAttachmentInfo tx.extra

/-- The attachments of a pinned transaction are none, or all covered by the announced info. -/
theorem attachments_of_pinned (outside : chain.isInCheckpointZone = false) {tx : Transaction}
    (pinned : attachmentsPinned tx.toTransactionPrefix = true)
    (accepted : InputsAccepted E chain tx) :
    (announcedInfo tx.toTransactionPrefix = none ∧ tx.attachment = []) ∨
      ∃ info, announcedInfo tx.toTransactionPrefix = some info ∧
        E.attachmentHash tx.attachment = info.hsh := by
  obtain ⟨⟨height, checked⟩, _, attached⟩ := (inputsAccepted_outside outside tx).mp accepted
  unfold attachmentsPinned at pinned
  unfold announcedInfo
  cases separate : tx.separatelySigned with
  | false =>
    simp only [separate, Bool.false_eq_true, ↓reduceIte, Option.isNone_iff_eq_none] at pinned
    simp only [separate, pinned, Bool.false_or] at attached
    exact .inl ⟨by simpa using pinned, attachments_empty_of_no_info attached⟩
  | true =>
    simp only [separate, ↓reduceIte, Option.map_eq_some_iff, Option.getD_eq_iff, Bool.false_eq_true,
      and_false, or_false] at pinned
    obtain ⟨input, last, notGen⟩ := pinned
    have present : tx.vin[tx.vin.length - 1]? = some input := by
      rw [← List.getLast?_eq_getElem?, last]
    obtain ⟨_, _, final⟩ := checkTxInputsFrom_get checked present
    rw [Nat.zero_add] at final
    obtain ⟨allowed, signable⟩ := checkTxInput_commits outside notGen final
    simp only [checkInputAttachments, separate, ↓reduceIte, bne_self_eq_false] at allowed
    simp only [↓reduceIte, last, Option.bind_some]
    cases found : etcAttachmentInfo input.etcOptions with
    | none => exact .inl ⟨rfl, attachments_empty_of_no_info (found ▸ allowed)⟩
    | some info =>
      have whole := last_input_covers separate last signable found
      exact .inr ⟨info, rfl, validateAttachmentInfo_covers (found ▸ allowed) whole⟩

/-! ## Appending attachments -/

/-- The transaction with further attachments. -/
abbrev Transaction.appendAttachments (tx : Transaction) (more : List PayloadItem) : Transaction :=
  { tx with attachment := tx.attachment ++ more }

@[simp] theorem appendAttachments_tx (tx : Transaction) (more : List PayloadItem) :
    (tx.appendAttachments more).toTransactionPrefix = tx.toTransactionPrefix := rfl

@[simp] theorem appendAttachments_attachment (tx : Transaction) (more : List PayloadItem) :
    (tx.appendAttachments more).attachment = tx.attachment ++ more := rfl

@[simp] theorem appendAttachments_signatures (tx : Transaction) (more : List PayloadItem) :
    (tx.appendAttachments more).signatures = tx.signatures := rfl

/-- An info that is valid for some attachments is valid for a longer list. -/
theorem validateAttachmentInfo_append {info : ExtraAttachmentInfo} {attachments : List PayloadItem}
    {lenient : Bool} (more : List PayloadItem)
    (valid : validateAttachmentInfo E (some info) attachments lenient = true) :
    validateAttachmentInfo E (some info) (attachments ++ more) lenient = true := by
  simp only [validateAttachmentInfo, Option.isNone_some, Bool.false_and, Bool.false_eq_true,
    ↓reduceIte, Option.isSome_some, Option.getD_some, Bool.and_eq_true, decide_eq_true_eq,
    beq_iff_eq] at valid ⊢
  obtain ⟨⟨nonempty, bounded⟩, same⟩ := valid
  refine ⟨⟨?_, ?_⟩, ?_⟩
  · cases attachments with
    | nil => simp at nonempty
    | cons head tail => rfl
  · exact bounded.trans (by simp)
  · rw [List.take_append_of_le_length bounded]
    exact same

/-- Only the last input of a separately signed transaction notices further attachments. -/
theorem checkInputAttachments_append {tx : Transaction} {index : Nat}
    {details : List TxinEtcDetails} (more : List PayloadItem)
    (free : tx.separatelySigned = true → index ≠ tx.vin.length - 1)
    (allowed : checkInputAttachments E tx index details = true) :
    checkInputAttachments E (tx.appendAttachments more) index details = true := by
  unfold checkInputAttachments at allowed ⊢
  rw [appendAttachments_tx, appendAttachments_attachment]
  cases separate : tx.separatelySigned with
  | false => simpa [separate] using allowed
  | true =>
    simp only [separate, ↓reduceIte] at allowed ⊢
    cases found : etcAttachmentInfo details with
    | none => simp [validateAttachmentInfo, free separate]
    | some info => exact validateAttachmentInfo_append more (found ▸ allowed)

/-- The hash to sign stays the same under further attachments. -/
theorem preparePrefixHashForSign_append {tx : Transaction} {index : Nat} {txId : Hash}
    (more : List PayloadItem) (free : tx.separatelySigned = true → index ≠ tx.vin.length - 1)
    (signable : preparePrefixHashForSign E tx index txId ≠ nullHash) :
    preparePrefixHashForSign E (tx.appendAttachments more) index txId =
      preparePrefixHashForSign E tx index txId := by
  unfold preparePrefixHashForSign at signable ⊢
  simp only [signedCounts] at signable ⊢
  by_cases inRange : index ≥ tx.vin.length
  · simp only [inRange, ↓reduceIte]
  by_cases separate : tx.separatelySigned = true
  · simp only [inRange, separate, Bool.not_true, Bool.false_eq_true, ↓reduceIte,
      free separate] at signable ⊢
    split
    · rfl
    · next counts summed =>
      simp only [summed] at signable
      split at signable
      · next fits =>
        have longer : counts.attachments ≤ (tx.attachment ++ more).length := by
          rw [List.length_append]
          omega
        rw [if_pos fits, if_pos ⟨fits.1, fits.2.1, longer⟩]
      · exact absurd rfl signable
  · simp only [separate, Bool.not_false, ↓reduceIte]

/-- An accepted input that does not fix the attachments stays accepted under further ones. -/
theorem checkTxInput_append {tx : Transaction} {txId : Hash} {index : Nat} {input : Txin}
    {before after : Nat} (outside : chain.isInCheckpointZone = false) (more : List PayloadItem)
    (free : tx.separatelySigned = true → index ≠ tx.vin.length - 1 ∨ input.isGen = true)
    (accepted : checkTxInput E chain tx txId index input before = .ok () after) :
    checkTxInput E chain (tx.appendAttachments more) txId index input before = .ok () after := by
  cases input with
  | gen height => exact accepted
  | toKey input =>
    have unlast : tx.separatelySigned = true → index ≠ tx.vin.length - 1 :=
      fun separate => (free separate).resolve_right (by simp [Txin.isGen])
    obtain ⟨allowed, signable⟩ := checkTxInput_commits outside (by rfl) accepted
    have allowedToo := checkInputAttachments_append more unlast allowed
    have sameHash := preparePrefixHashForSign_append more unlast signable
    have verdict : ∀ sig keys, checkTokeyInput E chain (tx.appendAttachments more) index input txId
        sig keys = checkTokeyInput E chain tx index input txId sig keys := by
      intro sig keys
      simp only [checkTokeyInput, needToCheckExtraSign, sameHash]
      rw [show checkInputAttachments E tx index input.etcDetails = true from allowed,
        show checkInputAttachments E (tx.appendAttachments more) index input.etcDetails = true
          from allowedToo]
      rfl
    simpa only [checkTxInput, signaturesOfInput, checkTxInputToKey, verdict,
      appendAttachments_signatures] using accepted
  | multisig input =>
    have unlast : tx.separatelySigned = true → index ≠ tx.vin.length - 1 :=
      fun separate => (free separate).resolve_right (by simp [Txin.isGen])
    obtain ⟨allowed, signable⟩ := checkTxInput_commits outside (by rfl) accepted
    have allowedToo := checkInputAttachments_append more unlast allowed
    have sameHash := preparePrefixHashForSign_append more unlast signable
    have verdict : ∀ source outN, checkMsInput E chain (tx.appendAttachments more) index input txId
        source outN = checkMsInput E chain tx index input txId source outN := by
      intro source outN
      simp only [checkMsInput, needToCheckExtraSign, sameHash]
      rw [show checkInputAttachments E tx index input.etcDetails = true from allowed,
        show checkInputAttachments E (tx.appendAttachments more) index input.etcDetails = true
          from allowedToo]
      rfl
    simpa only [checkTxInput, signaturesOfInput, checkTxInputMultisig, verdict,
      appendAttachments_signatures] using accepted

theorem checkTxInputsFrom_append {tx : Transaction} {txId : Hash}
    (outside : chain.isInCheckpointZone = false) (more : List PayloadItem) {inputs : List Txin}
    {start before after : Nat}
    (free : ∀ index input, inputs[index]? = some input → tx.separatelySigned = true →
      start + index ≠ tx.vin.length - 1 ∨ input.isGen = true)
    (accepted : checkTxInputsFrom E chain tx txId start inputs before = .ok () after) :
    checkTxInputsFrom E chain (tx.appendAttachments more) txId start inputs before =
      .ok () after := by
  induction inputs generalizing start before with
  | nil => exact accepted
  | cons head tail ih =>
    simp only [checkTxInputsFrom, Procedure.bind_ok] at accepted ⊢
    obtain ⟨_, middle, first, rest⟩ := accepted
    refine ⟨(), middle, checkTxInput_append outside more (free 0 head rfl) first, ?_⟩
    apply ih _ rest
    intro index input present
    rw [Nat.add_assoc, Nat.add_comm 1]
    exact free (index + 1) input (by simpa using present)

/-- A transaction whose prefix leaves the attachments open is accepted with any further ones. -/
theorem inputsAccepted_append (outside : chain.isInCheckpointZone = false) {tx : Transaction}
    (more : List PayloadItem) (isOpen : attachmentsPinned tx.toTransactionPrefix = false)
    (accepted : InputsAccepted E chain tx) :
    InputsAccepted E chain (tx.appendAttachments more) := by
  rw [inputsAccepted_outside outside] at accepted ⊢
  obtain ⟨⟨height, checked⟩, signed, attached⟩ := accepted
  unfold attachmentsPinned at isOpen
  refine ⟨⟨height, checkTxInputsFrom_append outside more ?_ checked⟩, signed, ?_⟩
  · intro index input present separate
    rw [if_pos separate] at isOpen
    by_cases last : 0 + index = tx.vin.length - 1
    · have final : tx.vin.getLast? = some input := by
        rw [List.getLast?_eq_getElem?, ← last, Nat.zero_add, present]
      exact .inr (by simpa [final] using isOpen)
    · exact .inl last
  · by_cases separate : tx.separatelySigned = true
    · simp [separate]
    · simp only [Bool.not_eq_true] at separate
      simp only [separate, Bool.false_eq_true, ↓reduceIte, Bool.false_or] at isOpen attached ⊢
      cases found : extraAttachmentInfo tx.extra with
      | none => simp [found] at isOpen
      | some info => exact validateAttachmentInfo_append more (found ▸ attached)

/-! ## When the attachments cannot be altered -/

/-- No accepted transaction with the same prefix has other attachments exactly when the prefix
pins them. The hash of the attachments is assumed to have no other preimage. -/
theorem attachments_unalterable_iff (E : Env) (chain : Chain)
    (outside : chain.isInCheckpointZone = false) (tx : Transaction)
    (preimage : ∀ other, E.attachmentHash other = E.attachmentHash tx.attachment →
      other = tx.attachment)
    (accepted : InputsAccepted E chain tx) :
    (∀ other : Transaction, other.toTransactionPrefix = tx.toTransactionPrefix →
      InputsAccepted E chain other → other.attachment = tx.attachment) ↔
    attachmentsPinned tx.toTransactionPrefix = true := by
  constructor
  · intro unalterable
    by_contra notPinned
    rw [Bool.not_eq_true] at notPinned
    have same := unalterable (tx.appendAttachments [default]) rfl
      (inputsAccepted_append outside [default] notPinned accepted)
    simp at same
  · intro pinned other same otherAccepted
    have otherPinned : attachmentsPinned other.toTransactionPrefix = true := same ▸ pinned
    have announced : announcedInfo other.toTransactionPrefix =
        announcedInfo tx.toTransactionPrefix := by rw [same]
    rcases attachments_of_pinned outside pinned accepted with ⟨none, empty⟩ | ⟨info, some, covered⟩
    · rcases attachments_of_pinned outside otherPinned otherAccepted with
        ⟨_, otherEmpty⟩ | ⟨info, otherSome, _⟩
      · rw [empty, otherEmpty]
      · simp [announced, none] at otherSome
    · rcases attachments_of_pinned outside otherPinned otherAccepted with
        ⟨otherNone, _⟩ | ⟨otherInfo, otherSome, otherCovered⟩
      · simp [announced, some] at otherNone
      · have sameInfo : otherInfo = info := by simpa [announced, some] using otherSome.symm
        exact preimage _ (by rw [otherCovered, covered, sameInfo])

end Attachments

/-! ## A transaction with open attachments -/

namespace OpenAttachments

/-- A spend of the only indexed output whose extra field announces attachments and commits to
none of them. -/
def spend (attachment : List PayloadItem) : Transaction where
  version := 2
  vin := [.toKey ⟨10, [.index 0], ⟨5⟩, []⟩]
  vout := [⟨9, .toKey ⟨⟨7⟩, 0⟩⟩]
  extra := [.extraAttachmentInfo ⟨0, nullHash, 0⟩]
  signatures := [[⟨0⟩]]
  attachment

/-- The transaction whose output is spent. -/
def source : Transaction where
  version := 1
  vin := [.gen 0]
  vout := [⟨10, .toKey ⟨⟨6⟩, 0⟩⟩]
  extra := []
  signatures := []
  attachment := []

/-- A chain that has connected the source. -/
def chain : Chain where
  db :=
    { transactions := (∅ : Container Hash TransactionChainEntry).set ⟨1⟩ ⟨source, 0, [0], [false]⟩
      outputs := (∅ : ArrayContainer Nat GlobalOutputEntry).pushBackItem 10 ⟨⟨1⟩, 0⟩ }

/-- The small environment with another attachment hash. -/
def env (attachmentHash : List PayloadItem → Hash) : Env := { Env.plain with attachmentHash }

theorem spend_accepted (attachmentHash : List PayloadItem → Hash) (comment : String) :
    InputsAccepted (env attachmentHash) chain (spend [.txComment comment]) := by
  with_unfolding_all rfl

instance countableChar : Countable Char :=
  Function.Injective.countable (f := Char.toNat) fun _ _ same => Char.toNat_inj.mp same

instance countableString : Countable String :=
  Function.Injective.countable (f := String.toList) fun _ _ same => String.toList_inj.mp same

deriving instance Countable for Hash, PublicKey, SecretKey, KeyDerivation, Signature,
  AccountPublicAddress, ExtraAttachmentInfo, TxServiceAttachment, ExtraAliasEntryBase,
  ExtraAliasEntry, PayloadItem

/-- Two comments go with one accepted prefix, whatever the attachment hash is. -/
theorem attachments_alterable :
    ¬ ∀ (E : Env) (chain : Chain) (first second : Transaction),
      Function.Injective E.attachmentHash → chain.isInCheckpointZone = false →
      first.isCoinbase = false → second.isCoinbase = false →
      first.toTransactionPrefix = second.toTransactionPrefix →
      InputsAccepted E chain first → InputsAccepted E chain second →
      first.attachment = second.attachment := by
  intro claim
  obtain ⟨code, injective⟩ := exists_injective_nat (List PayloadItem)
  have same := claim (env fun attachments => ⟨code attachments⟩) chain (spend [.txComment "a"])
    (spend [.txComment "b"])
    (fun _ _ equal => injective (congrArg Hash.val equal)) rfl rfl rfl rfl
    (spend_accepted _ "a") (spend_accepted _ "b")
  simp [spend] at same

/-- A transaction that announces no attachments. -/
def bareSpend : Transaction := { spend [] with extra := [] }

theorem bareSpend_unalterable :
    (∀ other : Transaction, other.toTransactionPrefix = bareSpend.toTransactionPrefix →
      InputsAccepted Env.plain chain other → other.attachment = bareSpend.attachment) ↔
    attachmentsPinned bareSpend.toTransactionPrefix = true :=
  attachments_unalterable_iff Env.plain chain rfl bareSpend
    (fun other same => List.eq_nil_of_length_eq_zero (congrArg Hash.val same))
    (by with_unfolding_all rfl)

end OpenAttachments

end Virie
