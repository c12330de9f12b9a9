import Virie.Construction
import Virie.MultisigSigning

/-! # Separate signatures survive extension

An input of a separately signed transaction signs the inputs up to itself and the outputs and
extra entries that were there when it was added. Later calls only append, and the count of what an
input signs is recorded in it, so the crop of the extended transaction is the transaction that was
signed. The attachments an input commits to are not only appended to: each call derives the keys of
all service attachments anew, from the address of its own sender. -/

open Foundation

namespace Virie

section Counts

variable {E : Env}

/-! ## What an input signs -/

theorem addInput_some {counts next : SignedCounts} {input : Txin}
    (added : counts.addInput input = some next) :
    etcSignedParts input.etcOptions = some (next.outputs, next.extras) ∧
      counts.outputs ≤ next.outputs ∧ counts.extras ≤ next.extras ∧
      counts.attachments ≤ next.attachments := by
  simp only [SignedCounts.addInput, Option.bind_eq_bind, Option.bind_eq_some_iff,
    Option.guard_eq_some'] at added
  obtain ⟨⟨nOuts, nExtras⟩, parts, _, outputs, _, extras, rest⟩ := added
  cases info : etcAttachmentInfo input.etcOptions with
  | none =>
    rw [info] at rest
    obtain rfl := Option.some.inj rest
    exact ⟨parts, outputs, extras, Nat.le_refl _⟩
  | some eai =>
    rw [info] at rest
    simp only [Option.bind_eq_some_iff, Option.guard_eq_some'] at rest
    obtain ⟨_, attachments, same⟩ := rest
    obtain rfl := Option.some.inj same
    exact ⟨parts, outputs, extras, attachments⟩

/-- The counts do not decrease along the inputs. -/
theorem foldlM_addInput_le {inputs : List Txin} {counts final : SignedCounts}
    (counted : inputs.foldlM SignedCounts.addInput counts = some final) :
    counts.outputs ≤ final.outputs ∧ counts.extras ≤ final.extras ∧
      counts.attachments ≤ final.attachments := by
  induction inputs generalizing counts with
  | nil =>
    obtain rfl := Option.some.inj counted
    exact ⟨Nat.le_refl _, Nat.le_refl _, Nat.le_refl _⟩
  | cons input rest ih =>
    rw [List.foldlM_cons, Option.bind_eq_bind, Option.bind_eq_some_iff] at counted
    obtain ⟨next, added, later⟩ := counted
    obtain ⟨_, outputs, extras, attachments⟩ := addInput_some added
    obtain ⟨outputs', extras', attachments'⟩ := ih later
    exact ⟨Nat.le_trans outputs outputs', Nat.le_trans extras extras',
      Nat.le_trans attachments attachments'⟩

/-- The counts of outputs and extra entries come from the inputs alone. -/
theorem foldlM_addInput_unique {inputs : List Txin} {counts other final finalToo : SignedCounts}
    (counted : inputs.foldlM SignedCounts.addInput counts = some final)
    (countedToo : inputs.foldlM SignedCounts.addInput other = some finalToo)
    (same : counts.outputs = other.outputs ∧ counts.extras = other.extras) :
    final.outputs = finalToo.outputs ∧ final.extras = finalToo.extras := by
  induction inputs generalizing counts other with
  | nil =>
    obtain rfl := Option.some.inj counted
    obtain rfl := Option.some.inj countedToo
    exact same
  | cons input rest ih =>
    rw [List.foldlM_cons, Option.bind_eq_bind, Option.bind_eq_some_iff] at counted countedToo
    obtain ⟨next, added, later⟩ := counted
    obtain ⟨nextToo, addedToo, laterToo⟩ := countedToo
    have parts := (addInput_some added).1
    rw [(addInput_some addedToo).1] at parts
    obtain ⟨outputs, extras⟩ := Prod.mk.inj (Option.some.inj parts)
    exact ih later laterToo ⟨outputs.symm, extras.symm⟩

/-- The last input of a separately signed transaction has something to sign, which is then the
whole prefix. -/
structure SignedComplete (E : Env) (tx : Transaction) : Prop where
  separate : tx.separatelySigned = true
  nonempty : tx.vin ≠ []
  signable : signedMessage E tx (tx.vin.length - 1) ≠ nullHash

/-- The counts of a completely signed transaction. -/
theorem SignedComplete.counts {tx : Transaction} (complete : SignedComplete E tx) :
    signedMessage E tx (tx.vin.length - 1) = getTransactionHash E tx.toTransactionPrefix ∧
      ∃ counts, signedCounts tx (tx.vin.length - 1) = some counts ∧
        counts.outputs = tx.vout.length ∧ counts.extras = tx.extra.length ∧
        counts.attachments = tx.attachment.length := by
  have positive : 0 < tx.vin.length := List.length_pos_iff.mpr complete.nonempty
  have signable := complete.signable
  unfold signedMessage preparePrefixHashForSign at signable ⊢
  rw [if_neg (by omega), complete.separate] at signable ⊢
  simp only [Bool.not_true, Bool.false_eq_true, ↓reduceIte] at signable ⊢
  cases counted : signedCounts tx (tx.vin.length - 1) with
  | none =>
    rw [counted] at signable
    exact absurd rfl signable
  | some counts =>
    rw [counted] at signable
    dsimp only at signable ⊢
    by_cases all : counts.outputs = tx.vout.length ∧ counts.extras = tx.extra.length ∧
        counts.attachments = tx.attachment.length
    · exact ⟨if_pos all, counts, rfl, all⟩
    · rw [if_neg all] at signable
      exact absurd rfl signable

/-- The prefix an input signs: the inputs up to it, and as many outputs and extra entries as it
counts. -/
def signedPrefix (tx : Transaction) (inIndex : Nat) (counts : SignedCounts) : TransactionPrefix where
  version := tx.version
  vin := tx.vin.take (inIndex + 1)
  vout := tx.vout.take counts.outputs
  extra := tx.extra.take counts.extras

/-- Every input of a completely signed transaction signs its prefix. -/
theorem SignedComplete.message {tx : Transaction} (complete : SignedComplete E tx) {inIndex : Nat}
    (inside : inIndex < tx.vin.length) :
    ∃ counts, signedCounts tx inIndex = some counts ∧ counts.outputs ≤ tx.vout.length ∧
      counts.extras ≤ tx.extra.length ∧
      signedMessage E tx inIndex = E.prefixHash (signedPrefix tx inIndex counts) := by
  obtain ⟨lastHash, last, counted, outputs, extras, attachments⟩ := complete.counts
  have whole : tx.vin.take (tx.vin.length - 1 + 1) =
      tx.vin.take (inIndex + 1) ++ (tx.vin.drop (inIndex + 1)) := by
    rw [List.take_append_drop, List.take_of_length_le (by omega)]
  unfold signedCounts at counted
  rw [whole, List.foldlM_append, Option.bind_eq_bind, Option.bind_eq_some_iff] at counted
  obtain ⟨counts, here, later⟩ := counted
  obtain ⟨moreOutputs, moreExtras, moreAttachments⟩ := foldlM_addInput_le later
  refine ⟨counts, here, by omega, by omega, ?_⟩
  by_cases end_ : inIndex = tx.vin.length - 1
  · have empty : tx.vin.drop (inIndex + 1) = [] := List.drop_eq_nil_of_le (by omega)
    rw [empty] at later
    obtain rfl := Option.some.inj later
    rw [← end_] at lastHash
    rw [lastHash]
    unfold signedPrefix
    rw [outputs, extras, List.take_length, List.take_length, List.take_of_length_le (by omega)]
    rfl
  · unfold signedMessage preparePrefixHashForSign
    rw [if_neg (by omega), complete.separate]
    simp only [Bool.not_true, Bool.false_eq_true, ↓reduceIte]
    have found : signedCounts tx inIndex = some counts := here
    rw [found]
    dsimp only
    rw [if_neg end_, if_pos ⟨by omega, by omega, by omega⟩]
    rfl

/-- A transaction with more inputs, outputs and extra entries at the ends. -/
structure Extends (tx later : Transaction) : Prop where
  version : later.version = tx.version
  vin : tx.vin <+: later.vin
  vout : tx.vout <+: later.vout
  extra : tx.extra <+: later.extra

theorem Extends.refl (tx : Transaction) : Extends tx tx :=
  ⟨rfl, List.prefix_refl _, List.prefix_refl _, List.prefix_refl _⟩

theorem Extends.trans {first second third : Transaction} (left : Extends first second)
    (right : Extends second third) : Extends first third where
  version := right.version.trans left.version
  vin := left.vin.trans right.vin
  vout := left.vout.trans right.vout
  extra := left.extra.trans right.extra

/-- What an input signed it still signs after an extension. -/
theorem Extends.message {tx later : Transaction} (extend : Extends tx later)
    (complete : SignedComplete E tx) (completeToo : SignedComplete E later) {inIndex : Nat}
    (inside : inIndex < tx.vin.length) :
    signedMessage E later inIndex = signedMessage E tx inIndex := by
  obtain ⟨moreInputs, vin⟩ := extend.vin
  obtain ⟨moreOutputs, vout⟩ := extend.vout
  obtain ⟨moreExtras, extra⟩ := extend.extra
  have insideToo : inIndex < later.vin.length := by
    rw [← vin, List.length_append]
    omega
  obtain ⟨counts, counted, outputs, extras, message⟩ := complete.message inside
  obtain ⟨countsToo, countedToo, _, _, messageToo⟩ := completeToo.message insideToo
  have inputs : later.vin.take (inIndex + 1) = tx.vin.take (inIndex + 1) := by
    rw [← vin, List.take_append_of_le_length (by omega)]
  unfold signedCounts at counted countedToo
  rw [inputs] at countedToo
  obtain ⟨sameOutputs, sameExtras⟩ := foldlM_addInput_unique countedToo counted ⟨rfl, rfl⟩
  rw [message, messageToo]
  unfold signedPrefix
  rw [extend.version, inputs, sameOutputs, sameExtras, ← vout, ← extra,
    List.take_append_of_le_length outputs, List.take_append_of_le_length extras]

end Counts

section Calls

variable {E : Env} {S : Sending}

/-! ## Outputs and attachments of a call -/

/-- Outputs and extra entries were appended and nothing else changed. -/
structure Grows (tx after : Transaction) : Prop where
  version : after.version = tx.version
  vin : after.vin = tx.vin
  vout : tx.vout <+: after.vout
  extra : tx.extra <+: after.extra
  signatures : after.signatures = tx.signatures
  attachment : after.attachment = tx.attachment

theorem Grows.trans {first second third : Transaction} (left : Grows first second)
    (right : Grows second third) : Grows first third where
  version := right.version.trans left.version
  vin := right.vin.trans left.vin
  vout := left.vout.trans right.vout
  extra := left.extra.trans right.extra
  signatures := right.signatures.trans left.signatures
  attachment := right.attachment.trans left.attachment

theorem constructTargetKey_extra {txSecKey : SecretKey} {outputIndex : Nat}
    {state next : List PublicKey × List PayloadItem × List Nat} {apa : AccountPublicAddress}
    (constructed : constructTargetKey S txSecKey outputIndex state apa = some next) :
    state.2.1 <+: next.2.1 := by
  obtain ⟨targetKeys, extra, derivCache⟩ := state
  simp only [constructTargetKey] at constructed
  split at constructed
  · obtain rfl := Option.some.inj constructed
    exact List.prefix_refl _
  · simp only [Option.bind_eq_bind, Option.bind_eq_some_iff] at constructed
    obtain ⟨⟨key, derivation⟩, _, constructed⟩ := constructed
    split at constructed
    · obtain rfl := Option.some.inj constructed
      exact List.prefix_refl _
    · obtain rfl := Option.some.inj constructed
      exact List.prefix_append _ _

theorem constructTargetKeys_extra {txSecKey : SecretKey} {outputIndex : Nat}
    {addr : List AccountPublicAddress} {state final : List PublicKey × List PayloadItem × List Nat}
    (constructed : addr.foldlM (constructTargetKey S txSecKey outputIndex) state = some final) :
    state.2.1 <+: final.2.1 := by
  induction addr generalizing state with
  | nil =>
    obtain rfl := Option.some.inj constructed
    exact List.prefix_refl _
  | cons apa rest ih =>
    rw [List.foldlM_cons, Option.bind_eq_bind, Option.bind_eq_some_iff] at constructed
    obtain ⟨next, first, later⟩ := constructed
    exact (constructTargetKey_extra first).trans (ih later)

theorem constructTxOut_grows {txSecKey : SecretKey} {txOutsAttr : Nat} {tx after : Transaction}
    {derivCache cache : List Nat} {de : TxDestinationEntry}
    (constructed : constructTxOut S txSecKey txOutsAttr tx derivCache de = some (after, cache)) :
    Grows tx after := by
  simp only [constructTxOut, Option.bind_eq_bind, Option.bind_eq_some_iff, Option.pure_def,
    Option.some.injEq, Prod.mk.injEq] at constructed
  obtain ⟨_, _, _, keys, rfl, _⟩ := constructed
  exact ⟨rfl, rfl, List.prefix_append _ _, constructTargetKeys_extra keys, rfl, rfl⟩

theorem constructTxOuts_grows {txSecKey : SecretKey} {txOutsAttr : Nat}
    {dsts : List TxDestinationEntry} {tx after : Transaction} {derivCache : List Nat}
    (constructed : constructTxOuts S txSecKey txOutsAttr dsts tx derivCache = some after) :
    Grows tx after := by
  induction dsts generalizing tx derivCache with
  | nil =>
    obtain rfl := Option.some.inj constructed
    exact ⟨rfl, rfl, List.prefix_refl _, List.prefix_refl _, rfl, rfl⟩
  | cons de rest ih =>
    simp only [constructTxOuts, Option.bind_eq_bind, Option.bind_eq_some_iff, Prod.exists]
      at constructed
    obtain ⟨_, _, next, cache, first, later⟩ := constructed
    exact (constructTxOut_grows first).trans (ih later)

/-- The keys of the first attachments do not depend on the ones that follow. -/
theorem deriveOfferKeys_append {senderAddr : AccountPublicAddress} {oneTimeSecretKey : SecretKey}
    {attCount : Nat} {old more derived : List PayloadItem}
    (keys : deriveOfferKeys S senderAddr oneTimeSecretKey attCount (old ++ more) = some derived) :
    ∃ front back, derived = front ++ back ∧
      deriveOfferKeys S senderAddr oneTimeSecretKey attCount old = some front := by
  induction old generalizing attCount derived with
  | nil => exact ⟨[], derived, rfl, rfl⟩
  | cons item rest ih =>
    cases item with
    | txServiceAttachment tsa =>
      simp only [List.cons_append, deriveOfferKeys, Option.bind_eq_bind, Option.bind_eq_some_iff,
        Option.pure_def, Option.some.injEq] at keys ⊢
      obtain ⟨first, made, others, later, rfl⟩ := keys
      obtain ⟨front, back, rfl, frontKeys⟩ := ih later
      exact ⟨.txServiceAttachment first :: front, back, rfl, first, made, front, frontKeys, rfl⟩
    | _ =>
      simp only [List.cons_append, deriveOfferKeys, Option.bind_eq_bind, Option.bind_eq_some_iff,
        Option.pure_def, Option.some.injEq] at keys ⊢
      obtain ⟨others, later, rfl⟩ := keys
      obtain ⟨front, back, rfl, frontKeys⟩ := ih later
      exact ⟨_, back, List.cons_append.symm ▸ rfl, front, frontKeys, rfl⟩

/-! ## Signing the new inputs -/

/-- Every new input had something to sign. -/
theorem signTxIns_signable {args : ConstructTx} {txkey : Keypair} {tx : Transaction}
    {txPrefixHash : Hash} {inputIndex : Nat} {items : List (TxSourceEntry × Txin × Keypair)}
    {sigs : List (List Signature)}
    (signed : signTxIns S E args txkey tx txPrefixHash inputIndex items = some sigs) :
    ∀ j < items.length, preparePrefixHashForSign E tx (inputIndex + j) txPrefixHash ≠ nullHash := by
  induction items generalizing inputIndex sigs with
  | nil => exact fun j inside => absurd inside (Nat.not_lt_zero j)
  | cons item rest ih =>
    obtain ⟨source, input, inEphemeral⟩ := item
    simp only [signTxIns, Option.bind_eq_bind, Option.bind_eq_some_iff, Option.guard_eq_some']
      at signed
    obtain ⟨_, signable, _, _, others, later, _⟩ := signed
    intro j inside
    cases j with
    | zero => exact signable
    | succ j =>
      have next := ih later j (Nat.lt_of_succ_lt_succ inside)
      rw [Nat.add_assoc, Nat.add_comm 1 j] at next
      exact next

/-! ## The call -/

/-- What a separately signing call builds on a transaction: its inputs, its outputs and extra
entries, the keys of all attachments, and the signatures. -/
structure SeparateCall (S : Sending) (E : Env) (args : ConstructTx) (base : Transaction)
    (txkey : Keypair) (grown : Transaction) (inputs : List (Txin × Keypair))
    (attachment : List PayloadItem) (sigs : List (List Signature)) (result : TxDraft) : Prop where
  made : args.sources.mapM (constructTxIn S args.senderAccountKeys) = some inputs
  grows : Grows base grown
  still : args.destinations = [] → grown = base
  keys : deriveOfferKeys S args.senderAccountKeys.accountAddress txkey.sec 0 grown.attachment =
    some attachment
  built : result = ⟨⟨⟨grown.version,
    base.vin ++ inputs.map fun input =>
      input.1.addDetails (separateDetails E { grown with attachment }),
    grown.vout, grown.extra⟩, grown.signatures ++ sigs, attachment⟩, txkey.sec⟩
  signed : signTxIns S E args txkey ⟨result.tx.toTransactionPrefix, grown.signatures, attachment⟩
    (getTransactionHash E result.tx.toTransactionPrefix) base.vin.length (args.sources.zip inputs) =
      some sigs

theorem constructTx_separate {args : ConstructTx} {draft result : TxDraft}
    (separate : args.separate = true) (built : constructTx S E args draft = some result) :
    ∃ base txkey grown inputs attachment sigs,
      beginTx S args draft = some (base, txkey) ∧
      SeparateCall S E args base txkey grown inputs attachment sigs result := by
  simp only [constructTx, separate, Option.bind_eq_bind, Option.bind_eq_some_iff,
    Option.guard_eq_some', Option.pure_def, Option.some.injEq, ↓reduceIte] at built
  obtain ⟨_, _, ⟨base, txkey⟩, started, inputs, inputsEq, grown, outs, _, _, attachment, keys,
    sigs, signed, rfl⟩ := built
  refine ⟨base, txkey, grown, inputs, attachment, sigs, started, inputsEq,
    constructTxOuts_grows outs, fun none => ?_, keys, rfl, signed⟩
  have idle : (if args.shuffle = true then
      args.destinations.mergeSort (fun a b => decide (a.amount ≤ b.amount))
      else args.destinations) = [] := by
    rw [none, List.mergeSort_nil, ite_self]
  rw [idle] at outs
  exact (Option.some.inj outs).symm

theorem constructTxIn_details {senderAccountKeys : AccountKeys} {source : TxSourceEntry}
    {input : Txin × Keypair} (constructed : constructTxIn S senderAccountKeys source = some input)
    (details : List TxinEtcDetails) : (input.1.addDetails details).etcOptions = details := by
  unfold constructTxIn at constructed
  split at constructed
  · simp only [Option.bind_eq_bind, Option.bind_eq_some_iff] at constructed
    obtain ⟨_, _, inEphemeral, _, constructed⟩ := constructed
    split at constructed
    · cases constructed
    · obtain rfl := Option.some.inj constructed
      rfl
  · obtain rfl := Option.some.inj constructed
    rfl

/-- The flags of a transaction are found before any entry that is appended. -/
theorem separatelySigned_grows {tx later : TransactionPrefix} (extra : tx.extra <+: later.extra)
    (separate : tx.separatelySigned = true) : later.separatelySigned = true := by
  obtain ⟨more, extra⟩ := extra
  unfold TransactionPrefix.separatelySigned TransactionPrefix.getTxFlags at separate ⊢
  rw [← extra, List.findSome?_append]
  generalize tx.extra.findSome? _ = found at separate ⊢
  cases found with
  | none => cases separate
  | some flags => exact separate

/-! ## Attachment infos of the inputs -/

/-- Each attachment info in the inputs describes the first attachments. -/
def InfosDescribe (E : Env) (inputs : List Txin) (attachment : List PayloadItem) : Prop :=
  ∀ input ∈ inputs, ∀ eai, etcAttachmentInfo input.etcOptions = some eai →
    eai.cnt ≤ attachment.length ∧
      eai = getAttachmentExtraInfoDetails E (attachment.take eai.cnt)

theorem InfosDescribe.append {inputs : List Txin} {attachment : List PayloadItem}
    (describe : InfosDescribe E inputs attachment) (more : List PayloadItem) :
    InfosDescribe E inputs (attachment ++ more) := by
  intro input member eai found
  obtain ⟨inside, same⟩ := describe input member eai found
  rw [List.length_append, List.take_append_of_le_length inside]
  exact ⟨Nat.le_add_right_of_le inside, same⟩

theorem etcAttachmentInfo_separateDetails (tx : Transaction) :
    etcAttachmentInfo (separateDetails E tx) = attachmentInfoOf E tx.attachment := by
  unfold separateDetails etcAttachmentInfo
  rw [List.findSome?_cons]
  cases attachmentInfoOf E tx.attachment <;> rfl

/-- The info a new input gets describes all attachments. -/
theorem attachmentInfoOf_describes {attachment : List PayloadItem} {eai : ExtraAttachmentInfo}
    (found : attachmentInfoOf E attachment = some eai) :
    eai.cnt ≤ attachment.length ∧
      eai = getAttachmentExtraInfoDetails E (attachment.take eai.cnt) := by
  unfold attachmentInfoOf at found
  split at found
  · cases found
  · rename_i filled
    obtain rfl := Option.some.inj found
    have count : (getAttachmentExtraInfoDetails E attachment).cnt = attachment.length := by
      rw [getAttachmentExtraInfoDetails, if_neg filled]
    rw [count, List.take_length]
    exact ⟨Nat.le_refl _, rfl⟩

/-! ## What a call keeps -/

/-- A transaction with inputs that are all signed, and attachment infos that hold. -/
structure SignedDraft (E : Env) (draft : TxDraft) : Prop where
  complete : SignedComplete E draft.tx
  infos : InfosDescribe E draft.tx.vin draft.tx.attachment

section SeparateCall

variable {args : ConstructTx} {base grown : Transaction} {txkey : Keypair}
  {inputs : List (Txin × Keypair)} {attachment : List PayloadItem} {sigs : List (List Signature)}
  {result : TxDraft}

theorem SeparateCall.extends
    (call : SeparateCall S E args base txkey grown inputs attachment sigs result) :
    Extends base result.tx := by
  obtain ⟨_, grows, _, _, rfl, _⟩ := call
  exact ⟨grows.version, List.prefix_append _ _, grows.vout, grows.extra⟩

/-- A call with sources leaves a completely signed transaction. -/
theorem SeparateCall.complete
    (call : SeparateCall S E args base txkey grown inputs attachment sigs result)
    (separate : base.separatelySigned = true) (sources : args.sources ≠ []) :
    SignedComplete E result.tx := by
  have extra := call.extends.extra
  obtain ⟨made, _, _, _, rfl, signed⟩ := call
  have count : inputs.length = args.sources.length := (forall₂_of_mapM made).length_eq.symm
  have positive : 0 < args.sources.length := List.length_pos_iff.mpr sources
  refine ⟨separatelySigned_grows extra separate, ?_, ?_⟩
  · intro none
    have length := congrArg List.length none
    rw [List.length_append, List.length_map, List.length_nil] at length
    omega
  · have signable := signTxIns_signable signed (args.sources.length - 1)
      (by rw [List.length_zip]; omega)
    have last : base.vin.length + (args.sources.length - 1) =
        (base.vin ++ inputs.map fun input => input.1.addDetails
          (separateDetails E { grown with attachment })).length - 1 := by
      rw [List.length_append, List.length_map]
      omega
    rw [last] at signable
    exact signable

/-- The infos describe the attachments if the ones of the earlier inputs do. -/
theorem SeparateCall.infos
    (call : SeparateCall S E args base txkey grown inputs attachment sigs result)
    (earlier : InfosDescribe E base.vin attachment) :
    InfosDescribe E result.tx.vin result.tx.attachment := by
  obtain ⟨made, _, _, _, rfl, _⟩ := call
  intro input member eai found
  rcases List.mem_append.mp member with old | new
  · exact earlier input old eai found
  · obtain ⟨fresh, inside, rfl⟩ := List.mem_map.mp new
    obtain ⟨source, _, constructed⟩ := forall₂_exists_left (forall₂_of_mapM made) inside
    rw [constructTxIn_details constructed, etcAttachmentInfo_separateDetails] at found
    exact attachmentInfoOf_describes found

end SeparateCall

/-! ## Runs of calls -/

/-- A call that appends to a transaction with inputs. -/
def AppendCall (S : Sending) (E : Env) (args : ConstructTx) (draft later : TxDraft) : Prop :=
  args.separate = true ∧ draft.tx.vin ≠ [] ∧ constructTx S E args draft = some later

/-- The call has a source unless it adds nothing, and its sender's address leads to the keys that
the service attachments already have. -/
def KeepsSigned (S : Sending) (args : ConstructTx) (draft : TxDraft) : Prop :=
  (args.sources ≠ [] ∨ args.destinations = [] ∧ args.extra = [] ∧ args.attachments = []) ∧
    deriveOfferKeys S args.senderAccountKeys.accountAddress draft.oneTimeSecretKey 0
      draft.tx.attachment = some draft.tx.attachment

/-- Extension by a call that keeps what was signed. -/
def KeptExtension (S : Sending) (E : Env) (draft later : TxDraft) : Prop :=
  ∃ args, KeepsSigned S args draft ∧ AppendCall S E args draft later

/-- The transactions a first call and further calls construct. -/
inductive SeparatelyBuilt (S : Sending) (E : Env) : TxDraft → Prop
  | first {args : ConstructTx} {draft built : TxDraft} (separate : args.separate = true)
      (new : draft.tx.vin = []) (sources : args.sources ≠ [])
      (constructed : constructTx S E args draft = some built) : SeparatelyBuilt S E built
  | append {draft later : TxDraft} (before : SeparatelyBuilt S E draft)
      (extension : KeptExtension S E draft later) : SeparatelyBuilt S E later

theorem findSome?_updateOrAddField {β : Type} (sameType : PayloadItem → Bool)
    (value : PayloadItem → Option β) (entry : PayloadItem)
    (kind : ∀ item, (value item).isSome = sameType item) {found : β}
    (new : value entry = some found) (extra : List PayloadItem) :
    (updateOrAddField sameType entry extra).findSome? value = some found := by
  induction extra with
  | nil => rw [updateOrAddField, List.findSome?_cons, new]
  | cons ev rest ih =>
    rw [updateOrAddField]
    split
    · rw [List.findSome?_cons, new]
    · rename_i other
      have none : value ev = none := by
        rw [← Option.not_isSome_iff_eq_none, kind]
        exact other
      rw [List.findSome?_cons, none]
      exact ih

theorem findSome?_updateOrAddField_other {β : Type} (sameType : PayloadItem → Bool)
    (value : PayloadItem → Option β) (entry : PayloadItem) (new : value entry = none)
    (other : ∀ item, sameType item = true → value item = none) (extra : List PayloadItem) :
    (updateOrAddField sameType entry extra).findSome? value = extra.findSome? value := by
  induction extra with
  | nil => rw [updateOrAddField, List.findSome?_cons, new]
  | cons ev rest ih =>
    rw [updateOrAddField]
    split
    · rename_i same
      rw [List.findSome?_cons, List.findSome?_cons, new, other ev same]
    · rw [List.findSome?_cons, List.findSome?_cons, ih]

/-- The flags entry of an extra field. -/
def flagsEntry : PayloadItem → Option Nat
  | .etcTxDetailsFlags v => some v
  | _ => none

theorem getTxFlags_eq (tx : TransactionPrefix) :
    tx.getTxFlags = (tx.extra.findSome? flagsEntry).getD 0 := by
  unfold TransactionPrefix.getTxFlags
  congr 1

theorem flagsEntry_encryptAttach (key : KeyDerivation) (item : PayloadItem) :
    flagsEntry (encryptAttach S key item).1 = flagsEntry item := by
  cases item with
  | txServiceAttachment sa =>
    simp only [encryptAttach]
    split <;> rfl
  | _ => rfl

theorem findSome?_encryptAll (key : KeyDerivation) (entries : List PayloadItem) :
    (encryptAll S key entries).1.findSome? flagsEntry = entries.findSome? flagsEntry := by
  rw [encryptAll, List.findSome?_map]
  congr 1
  funext item
  exact flagsEntry_encryptAttach key item

theorem encryptAttachments_flags {tx : Transaction} {senderKeys : AccountKeys}
    {destinationAddr : AccountPublicAddress} {txRandomKey : Keypair} {flags : Nat}
    (found : tx.extra.findSome? flagsEntry = some flags) :
    (encryptAttachments S tx senderKeys destinationAddr txRandomKey).extra.findSome? flagsEntry =
      some flags := by
  unfold encryptAttachments
  split
  · exact found
  · rename_i derivation _
    have kept := (findSome?_encryptAll (S := S) derivation tx.extra).trans found
    dsimp only
    split
    · rw [List.findSome?_append, kept]
      rfl
    · split
      · exact kept
      · exact kept

/-- A new transaction has the flags it was asked for. -/
theorem startTx_separate {args : ConstructTx} (separate : args.separate = true) :
    (startTx S args).separatelySigned = true := by
  have flags : args.flags ≠ 0 := by
    intro zero
    rw [ConstructTx.separate, zero] at separate
    cases separate
  have found : (startTx S args).extra.findSome? flagsEntry = some args.flags := by
    unfold startTx
    refine encryptAttachments_flags ?_
    rw [List.findSome?_append]
    have flagged := findSome?_updateOrAddField isFlags flagsEntry
      (.etcTxDetailsFlags args.flags) (fun item => by cases item <;> rfl) rfl
    have expiring := findSome?_updateOrAddField_other isExpirationTime flagsEntry
      (.etcTxDetailsExpirationTime args.expirationTime) rfl
      (fun item same => by cases item <;> first | rfl | cases same)
    simp only [flags, ne_eq, not_false_eq_true, ↓reduceIte]
    split
    · rw [expiring, flagged]
      rfl
    · rw [flagged]
      rfl
  unfold TransactionPrefix.separatelySigned
  rw [getTxFlags_eq, found]
  exact separate

theorem encryptAttachments_vin (tx : Transaction) (senderKeys : AccountKeys)
    (destinationAddr : AccountPublicAddress) (txRandomKey : Keypair) :
    (encryptAttachments S tx senderKeys destinationAddr txRandomKey).vin = tx.vin := by
  unfold encryptAttachments
  split
  · rfl
  · dsimp only
    split
    · rfl
    · split <;> rfl

theorem startTx_vin (args : ConstructTx) : (startTx S args).vin = [] :=
  encryptAttachments_vin _ _ _ _

/-! ## Runs keep what was signed -/

/-- The first call leaves a signed draft. -/
theorem SignedDraft.first {args : ConstructTx} {draft built : TxDraft}
    (separate : args.separate = true) (new : draft.tx.vin = []) (sources : args.sources ≠ [])
    (constructed : constructTx S E args draft = some built) : SignedDraft E built := by
  obtain ⟨base, txkey, grown, inputs, attachment, sigs, began, call⟩ :=
    constructTx_separate separate constructed
  rw [beginTx, new, List.isEmpty_nil, Bool.not_true, Bool.and_false,
    if_neg Bool.false_ne_true] at began
  obtain ⟨rfl, rfl⟩ := Prod.mk.inj (Option.some.inj began)
  refine ⟨call.complete (startTx_separate separate) sources, call.infos ?_⟩
  intro input member
  rw [startTx_vin] at member
  cases member

/-- What an appending call starts from: extra entries and attachments are added at the ends. -/
theorem appendTx_some {args : ConstructTx} {draft : TxDraft} {base : Transaction}
    (appended : appendTx S args draft = some base) :
    ∃ derivation, base = { draft.tx with
      attachment := draft.tx.attachment ++ (encryptAll S derivation args.attachments).1
      extra := draft.tx.extra ++ (encryptAll S derivation args.extra).1 } := by
  simp only [appendTx, Option.bind_eq_bind, Option.bind_eq_some_iff, Option.pure_def,
    Option.some.injEq] at appended
  obtain ⟨_, _, derivation, _, _, _, rfl⟩ := appended
  exact ⟨derivation, rfl⟩

theorem beginTx_append {args : ConstructTx} {draft : TxDraft} {base : Transaction}
    {txkey : Keypair} (separate : args.separate = true) (inputs : draft.tx.vin ≠ [])
    (began : beginTx S args draft = some (base, txkey)) :
    appendTx S args draft = some base ∧ txkey.sec = draft.oneTimeSecretKey := by
  rw [beginTx, separate, Bool.true_and, List.isEmpty_eq_false_iff.mpr inputs, Bool.not_false,
    if_pos rfl, Option.map_eq_some_iff] at began
  obtain ⟨_, appended, same⟩ := began
  obtain ⟨rfl, rfl⟩ := Prod.mk.inj same
  exact ⟨appended, rfl⟩

/-- A call that keeps the keys of the attachments extends a signed draft to a signed draft. -/
theorem KeptExtension.kept {draft later : TxDraft} (extension : KeptExtension S E draft later)
    (signed : SignedDraft E draft) : Extends draft.tx later.tx ∧ SignedDraft E later := by
  obtain ⟨args, ⟨busy, sameKeys⟩, separate, some_, constructed⟩ := extension
  obtain ⟨base, txkey, grown, inputs, attachment, sigs, began, call⟩ :=
    constructTx_separate separate constructed
  obtain ⟨appended, sameSec⟩ := beginTx_append separate some_ began
  obtain ⟨derivation, rfl⟩ := appendTx_some appended
  have extend : Extends draft.tx later.tx :=
    ⟨call.extends.version, call.extends.vin, call.extends.vout,
      (List.prefix_append _ _).trans call.extends.extra⟩
  have keys := call.keys
  rw [call.grows.attachment, sameSec] at keys
  obtain ⟨front, back, rfl, frontKeys⟩ := deriveOfferKeys_append keys
  obtain rfl := Option.some.inj (frontKeys.symm.trans sameKeys)
  have infos : InfosDescribe E later.tx.vin later.tx.attachment :=
    call.infos (signed.infos.append back)
  refine ⟨extend, ?_, infos⟩
  by_cases sources : args.sources = []
  · -- Nothing is added, so that the transaction stays as it is.
    obtain ⟨destinations, extra, attachments⟩ := busy.resolve_left (not_not_intro sources)
    obtain ⟨made, _, still, _, rfl, noSigs⟩ := call
    rw [sources, List.mapM_nil] at made
    obtain rfl := Option.some.inj made
    rw [sources, List.zip_nil_left, signTxIns] at noSigs
    obtain rfl := Option.some.inj noSigs
    obtain rfl := still destinations
    simp only [attachments, encryptAll, List.map_nil, List.append_nil] at keys
    rw [frontKeys, Option.some.injEq, List.self_eq_append_right] at keys
    obtain rfl := keys
    simp only [extra, encryptAll, List.map_nil, List.append_nil]
    exact signed.complete
  · exact call.complete
      (separatelySigned_grows (List.prefix_append _ _) signed.complete.separate) sources

/-- Every transaction built by calls that keep what was signed is a signed draft. -/
theorem SeparatelyBuilt.signed {draft : TxDraft} (built : SeparatelyBuilt S E draft) :
    SignedDraft E draft := by
  induction built with
  | first separate new sources constructed => exact .first separate new sources constructed
  | append _ extension ih => exact (extension.kept ih).2

theorem SignedDraft.run {draft later : TxDraft} (signed : SignedDraft E draft)
    (run : Relation.ReflTransGen (KeptExtension S E) draft later) :
    Extends draft.tx later.tx ∧ SignedDraft E later := by
  induction run with
  | refl => exact ⟨Extends.refl _, signed⟩
  | tail _ extension ih =>
    obtain ⟨extend, reached⟩ := extension.kept ih.2
    exact ⟨ih.1.trans extend, reached⟩

/-- In any run of calls that keep the keys of the attachments: each input signs what it signed
when it was added, the last one signs the whole prefix, and the attachment info in each input
describes the first attachments. -/
theorem separateSignatures_survive {draft later : TxDraft} (built : SeparatelyBuilt S E draft)
    (run : Relation.ReflTransGen (KeptExtension S E) draft later) :
    (∀ i < draft.tx.vin.length, signedMessage E later.tx i = signedMessage E draft.tx i) ∧
      signedMessage E later.tx (later.tx.vin.length - 1) =
        getTransactionHash E later.tx.toTransactionPrefix ∧
      InfosDescribe E later.tx.vin later.tx.attachment := by
  obtain ⟨extend, reached⟩ := built.signed.run run
  refine ⟨fun i inside => ?_, reached.complete.counts.1, reached.infos⟩
  exact extend.message built.signed.complete reached.complete inside

end Calls

/-! ## An offer of two parties -/

namespace SharedOffer

/-- A derivation is the product of the keys, and one-time keys are sums. -/
def sending : Sending where
  generateKeyDerivation pub sec := some ⟨pub.val * sec.val⟩
  derivePublicKey derivation index pub := some ⟨derivation.val + index + pub.val⟩
  deriveSecretKey derivation index sec := ⟨derivation.val + index + sec.val⟩
  secretKeyToPublicKey sec := some ⟨sec.val⟩
  generateSignature message pub _ := ⟨message.val + pub.val⟩
  generateKeyImage _ sec := ⟨sec.val⟩
  generateRingSignature message _ _ sec _ := [⟨message.val + sec.val⟩]
  cryptString text _ := text
  cryptAddress address _ := address
  cryptDerivation derivation sec := ⟨derivation.val ^^^ sec.val⟩
  pack body := body
  derivationHash derivation := derivation.val

/-- A hash that sees the keys of service attachments. -/
def env : Env :=
  { Env.plain with
    prefixHash := fun tx => ⟨1 + tx.vin.length + 10 * tx.vout.length + 100 * tx.extra.length⟩
    attachmentHash := fun attachments => ⟨(attachments.map fun
      | .txServiceAttachment tsa => (tsa.security.map PublicKey.val).sum
      | _ => 1).sum⟩ }

def account (spend view : Nat) : AccountKeys := ⟨⟨⟨spend⟩, ⟨view⟩⟩, ⟨spend⟩, ⟨view⟩⟩

/-- An own output of an account as a source. -/
def source (spend view : Nat) (complete : Bool) : TxSourceEntry where
  outputs := [(.index 0, ⟨view + spend⟩)]
  realOutput := 0
  realOutTxKey := ⟨1⟩
  realOutputInTxIndex := 0
  amount := 5
  multisigId := nullHash
  msSigsCount := 0
  msKeysCount := 0
  separatelySignedTxComplete := complete

/-- A call of one account that pays another one and encrypts for it. -/
def call (spend view : Nat) (receiver : AccountPublicAddress) (attachments : List PayloadItem)
    (complete : Bool) : ConstructTx where
  senderAccountKeys := account spend view
  sources := [source spend view complete]
  destinations := [⟨3, [receiver], 0⟩]
  extra := []
  attachments
  unlockTime := 0
  cryptDestinationAddr := receiver
  expirationTime := 0
  txOutsAttr := 0
  shuffle := false
  flags := txFlagSignatureModeSeparate
  generated := ⟨⟨11⟩, ⟨11⟩⟩

/-- An encrypted service attachment with or without a key. -/
def service (security : List PublicKey) : PayloadItem :=
  .txServiceAttachment ⟨"B", "ADD", "offer", security, txServiceAttachmentEncryptBody⟩

def seller : AccountPublicAddress := ⟨⟨3⟩, ⟨2⟩⟩

def buyer : AccountPublicAddress := ⟨⟨7⟩, ⟨5⟩⟩

/-- The seller's call with its attachments. -/
def sale (security : List PublicKey) : ConstructTx := call 3 2 buyer [service security] false

/-- The buyer completes the transaction with a comment. -/
def purchase : ConstructTx := call 7 5 seller [.txComment "bought"] true

def offered (security : List PublicKey) : TxDraft :=
  (constructTx sending env (sale security) default).getD default

def bought (security : List PublicKey) : TxDraft :=
  (constructTx sending env purchase (offered security)).getD default

theorem offered_built : constructTx sending env (sale []) default = some (offered []) := by
  decide

theorem bought_built : constructTx sending env purchase (offered []) = some (bought []) := by
  decide

end SharedOffer

open SharedOffer

/-- An offer without a key is bought: the seller's input still signs what it signed. -/
theorem separateSignatures_bought :
    signedMessage env (bought []).tx 0 = signedMessage env (offered []).tx 0 ∧
      signedMessage env (bought []).tx 1 =
        getTransactionHash env (bought []).tx.toTransactionPrefix ∧
      InfosDescribe env (bought []).tx.vin (bought []).tx.attachment := by
  have first : SeparatelyBuilt sending env (offered []) :=
    .first (by decide) (by rfl) (by decide) offered_built
  have kept : KeptExtension sending env (offered []) (bought []) :=
    ⟨purchase, ⟨.inl (by decide), by decide⟩, by decide, by decide, bought_built⟩
  have survive := separateSignatures_survive first (.single kept)
  have count : (bought []).tx.vin.length - 1 = 1 := by decide
  rw [count] at survive
  exact ⟨survive.1 0 (by decide), survive.2⟩

/-- The key of a seller's offer is replaced by one of the buyer, so that the info in the seller's
input does not describe the attachments any more. -/
theorem separateSignatures_lost :
    ∃ draft later, SeparatelyBuilt sending env draft ∧
      AppendCall sending env purchase draft later ∧
      ¬ InfosDescribe env later.tx.vin later.tx.attachment := by
  have offer : constructTx sending env (sale [nullPkey]) default = some (offered [nullPkey]) := by
    decide
  have built : SeparatelyBuilt sending env (offered [nullPkey]) :=
    .first (by decide) (by rfl) (by decide) offer
  refine ⟨_, bought [nullPkey], built, ⟨by decide, by decide, by decide⟩, ?_⟩
  intro describe
  have first := describe ((bought [nullPkey]).tx.vin.headD default) (by decide)
    ((etcAttachmentInfo ((bought [nullPkey]).tx.vin.headD default).etcOptions).getD default)
    (by decide)
  exact absurd first.2 (by decide)

end Virie
