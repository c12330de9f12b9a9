import Virie.Multisig.Matching

/-! # Runs of signing calls

A multisig input is open until enough participants have signed and sealed afterwards. The
signatures of a sealed input have rising positions, so the node accepts them. A later call keeps
them rising exactly when the signatures before its own position are at their own positions. -/

open Foundation

namespace Virie

section Calls

variable {E : Env} {S : Signing} {msInputIndex : Nat} {sourceTx : Transaction}

/-! ## One call -/

/-- What a successful call does to a transaction. -/
theorem signMultisigInputInTx_ok {keys : AccountKeys} {tx after : Transaction} {full : Bool}
    (signed : signMultisigInputInTx E S msInputIndex sourceTx keys tx = .ok full after) :
    ∃ msIn outNo target pair sigs,
      tx.multisigInput msInputIndex = some msIn ∧
      findMultisigOut E sourceTx.toTransactionPrefix msIn.multisigOutId = some (outNo, target) ∧
      S.deriveEphemeralKeyHelper keys sourceTx.getTxPubKeyFromExtra outNo = some pair ∧
      target.keys.idxOf pair.pub < target.keys.length ∧
      tx.signatures[msInputIndex]? = some sigs ∧
      target.keys.idxOf pair.pub <
        allocatedSigsForParticipants (needToCheckExtraSign tx msInputIndex) sigs ∧
      ∃ placed count, placed = sigs.set (target.keys.idxOf pair.pub) (S.generateSignature
          (preparePrefixHashForSign E tx msInputIndex (getTransactionHash E tx.toTransactionPrefix))
          pair.pub pair.sec) ∧
        count = (nonNullSigs (placed.take
          (allocatedSigsForParticipants (needToCheckExtraSign tx msInputIndex) sigs))).length ∧
        count ≤ target.minimumSigs ∧
        full = decide (count = target.minimumSigs) ∧
        after = Transaction.mk tx.toTransactionPrefix (tx.signatures.set msInputIndex
          (if count = target.minimumSigs then nonNullSigs placed else placed)) tx.attachment := by
  simp only [signMultisigInputInTx, Procedure.bind_ok, Procedure.get_ok, Procedure.demand_ok,
    Procedure.require_ok, Procedure.set_ok, decide_eq_true_eq] at signed
  obtain ⟨_, _, ⟨rfl, rfl⟩, msIn, _, ⟨input, rfl⟩, ⟨outNo, target⟩, _, ⟨out, rfl⟩, pair, _,
    ⟨derived, rfl⟩, _, _, ⟨inside, rfl⟩, sigs, _, ⟨found, rfl⟩, _, _, ⟨_, rfl⟩, _, _,
    ⟨allocated, rfl⟩, _, _, ⟨_, rfl⟩, _, _, rfl, _, _, ⟨few, rfl⟩, finished⟩ := signed
  refine ⟨msIn, outNo, target, pair, sigs, input, out, derived, inside, found, allocated, _, _,
    rfl, rfl, few, ?_⟩
  split at finished
  · rename_i whole
    simp only [Procedure.bind_ok, Procedure.set_ok, Procedure.pure_ok] at finished
    obtain ⟨_, _, rfl, rfl, rfl⟩ := finished
    exact ⟨(decide_eq_true whole).symm, by rw [if_pos whole]⟩
  · rename_i partly
    obtain ⟨rfl, rfl⟩ := Procedure.pure_ok.mp finished
    exact ⟨(decide_eq_false partly).symm, by rw [if_neg partly]⟩

/-- The derived keys of an account whose keys belong together match. -/
theorem AccountKeys.Own.derived (ideal : S.Ideal E) {keys : AccountKeys} (own : keys.Own S)
    {txPublicKey : PublicKey} {index : Nat} {pair : Keypair}
    (derived : S.deriveEphemeralKeyHelper keys txPublicKey index = some pair) :
    S.Matching pair.pub pair.sec := by
  simp only [Signing.deriveEphemeralKeyHelper, Option.bind_eq_bind, Option.bind_eq_some_iff,
    Option.pure_def, Option.some.injEq] at derived
  obtain ⟨derivation, generated, pub, made, rfl⟩ := derived
  exact ideal.derives own generated index made

/-- The message an input of a transaction signs. It does not depend on the signatures. -/
def signedMessage (E : Env) (tx : Transaction) (inIndex : Nat) : Hash :=
  preparePrefixHashForSign E tx inIndex (getTransactionHash E tx.toTransactionPrefix)

/-- Two transactions that differ in nothing but their signatures. -/
structure SameUnsigned (start tx : Transaction) : Prop where
  unsigned : tx.toTransactionPrefix = start.toTransactionPrefix
  attachment : tx.attachment = start.attachment

theorem SameUnsigned.signedMessage_eq {start tx : Transaction} (same : SameUnsigned start tx) :
    signedMessage E tx msInputIndex = signedMessage E start msInputIndex := by
  obtain ⟨pre, _, attachment⟩ := tx
  obtain ⟨preToo, _, attachmentToo⟩ := start
  obtain ⟨rfl, rfl⟩ := same
  rfl

theorem SameUnsigned.extraSign_eq {start tx : Transaction} (same : SameUnsigned start tx) :
    needToCheckExtraSign tx msInputIndex = needToCheckExtraSign start msInputIndex := by
  rw [needToCheckExtraSign, same.unsigned]
  rfl

/-- The input of a transaction and the output it spends. -/
structure SpendsMultisig (E : Env) (start : Transaction) (msInputIndex : Nat)
    (sourceTx : Transaction) (txin : TxinMultisig) (outNo : Nat) (target : TxoutMultisig) :
    Prop where
  input : start.multisigInput msInputIndex = some txin
  output : findMultisigOut E sourceTx.toTransactionPrefix txin.multisigOutId = some (outNo, target)

variable {start : Transaction} {txin : TxinMultisig} {outNo : Nat} {target : TxoutMultisig}

/-- The signatures before and after one call, by the key that signed. -/
structure SignedCall (S : Signing) (message : Hash) (extra : Bool) (target : TxoutMultisig)
    (pair : Keypair) (sigs kept : List Signature) (full : Bool) : Prop where
  inside : target.keys.idxOf pair.pub < target.keys.length
  allocated : target.keys.idxOf pair.pub < allocatedSigsForParticipants extra sigs
  result : ∃ placed count,
    placed = sigs.set (target.keys.idxOf pair.pub)
      (S.generateSignature message pair.pub pair.sec) ∧
    count = (nonNullSigs (placed.take (allocatedSigsForParticipants extra sigs))).length ∧
    count ≤ target.minimumSigs ∧ full = decide (count = target.minimumSigs) ∧
    kept = if count = target.minimumSigs then nonNullSigs placed else placed

/-- A successful call places one signature and changes nothing else. -/
theorem SpendsMultisig.call
    (spends : SpendsMultisig E start msInputIndex sourceTx txin outNo target)
    {tx after : Transaction} (same : SameUnsigned start tx) {keys : AccountKeys} {full : Bool}
    (signed : signMultisigInputInTx E S msInputIndex sourceTx keys tx = .ok full after) :
    SameUnsigned start after ∧ ∃ pair sigs kept,
      S.deriveEphemeralKeyHelper keys sourceTx.getTxPubKeyFromExtra outNo = some pair ∧
      tx.signatures[msInputIndex]? = some sigs ∧ after.signatures[msInputIndex]? = some kept ∧
      SignedCall S (signedMessage E start msInputIndex) (needToCheckExtraSign start msInputIndex)
        target pair sigs kept full := by
  obtain ⟨msIn, no, out, pair, sigs, input, output, derived, inside, found, allocated, placed,
    count, placedEq, counted, few, fullEq, rfl⟩ := signMultisigInputInTx_ok signed
  rw [same.unsigned, spends.input] at input
  obtain rfl := Option.some.inj input
  rw [spends.output] at output
  obtain ⟨rfl, rfl⟩ := Prod.mk.inj (Option.some.inj output)
  rw [same.extraSign_eq] at allocated counted
  have message : signedMessage E tx msInputIndex = signedMessage E start msInputIndex :=
    same.signedMessage_eq
  unfold signedMessage at message
  rw [message] at placedEq
  refine ⟨⟨same.unsigned, same.attachment⟩, pair, sigs, _, derived, found, ?_, inside, allocated,
    placed, count, placedEq, counted, few, fullEq, rfl⟩
  exact List.getElem?_set_self (List.getElem?_eq_some_iff.mp found).1

/-! ## Until the input is fully signed -/

section Lists

variable {message : Hash} {extra full : Bool} {tail : List Signature}

/-- Places for the participants, not enough of them filled yet, and the extra signature. -/
def OpenSigs (S : Signing) (target : TxoutMultisig) (message : Hash) (tail sigs : List Signature) :
    Prop :=
  ∃ slots, sigs = slots ++ tail ∧ Placed S target.keys message slots ∧
    (nonNullSigs slots).length < target.minimumSigs

/-- The signatures left when enough places were filled, with the positions they were made for. -/
def SealedSigs (S : Signing) (target : TxoutMultisig) (message : Hash) (tail : List Signature)
    (positions : List Nat) (sigs : List Signature) : Prop :=
  ∃ kept, sigs = kept ++ nonNullSigs tail ∧ positions.length = target.minimumSigs ∧
    List.Forall₂ (SignedBy S target.keys message) positions kept

theorem allocated_append {slots : List Signature}
    (tailLength : tail.length = if extra then 1 else 0) :
    allocatedSigsForParticipants extra (slots ++ tail) = slots.length := by
  unfold allocatedSigsForParticipants
  rw [List.length_append, tailLength]
  cases extra with
  | true => exact Nat.add_sub_cancel _ _
  | false => rfl

/-- A call on an open input leaves it open or seals it with rising positions. -/
theorem OpenSigs.step {sigs kept : List Signature} (opened : OpenSigs S target message tail sigs)
    (tailLength : tail.length = if extra then 1 else 0) {pair : Keypair}
    (own : S.Matching pair.pub pair.sec)
    (call : SignedCall S message extra target pair sigs kept full) :
    (full = false → OpenSigs S target message tail kept) ∧
      (full = true → ∃ positions, positions.Pairwise (· < ·) ∧
        SealedSigs S target message tail positions kept) := by
  obtain ⟨slots, rfl, placed, few⟩ := opened
  obtain ⟨inside, allocated, _, _, rfl, rfl, few', rfl, rfl⟩ := call
  rw [allocated_append tailLength] at allocated few' ⊢
  rw [List.set_append_left _ _ allocated] at few' ⊢
  have whole : (slots.set (target.keys.idxOf pair.pub)
      (S.generateSignature message pair.pub pair.sec) ++ tail).take slots.length =
      slots.set (target.keys.idxOf pair.pub) (S.generateSignature message pair.pub pair.sec) := by
    rw [List.take_append_of_le_length (by rw [List.length_set]), List.take_of_length_le]
    rw [List.length_set]
  have signed : SignedBy S target.keys message (target.keys.idxOf pair.pub)
      (S.generateSignature message pair.pub pair.sec) :=
    ⟨pair.pub, pair.sec, own, inside, rfl, rfl⟩
  have placedToo := placed.set signed
  rw [whole] at few' ⊢
  generalize slots.set (target.keys.idxOf pair.pub)
    (S.generateSignature message pair.pub pair.sec) = filled at few' placedToo ⊢
  constructor
  · intro partly
    have notAll := of_decide_eq_false partly
    rw [if_neg notAll]
    exact ⟨filled, rfl, placedToo, Nat.lt_of_le_of_ne few' notAll⟩
  · intro complete
    have all := of_decide_eq_true complete
    rw [if_pos all]
    obtain ⟨positions, rising, _, kept⟩ := placedToo.kept
    refine ⟨positions, rising, nonNullSigs filled, List.filter_append _ _, ?_, kept⟩
    rw [kept.length_eq, all]

/-! ## Once the input is fully signed -/

theorem SignedBy.nonnull (ideal : S.Ideal E) {keys : List PublicKey} {position : Nat}
    {sig : Signature} (signed : SignedBy S keys message position sig) : sig ≠ nullSig := by
  obtain ⟨pub, sec, own, _, _, rfl⟩ := signed
  exact ideal.nonnull own message

theorem nonNullSigs_signed (ideal : S.Ideal E) {keys : List PublicKey} {positions : List Nat}
    {kept : List Signature} (signed : List.Forall₂ (SignedBy S keys message) positions kept) :
    nonNullSigs kept = kept := by
  induction signed with
  | nil => rfl
  | cons first _ ih =>
    rw [nonNullSigs, List.filter_cons_of_pos (by simpa using first.nonnull ideal)]
    exact congrArg _ ih

/-- A call on a sealed input writes to a kept place. -/
theorem SealedSigs.step (ideal : S.Ideal E) {positions : List Nat} {sigs kept : List Signature}
    (sealed : SealedSigs S target message tail positions sigs)
    (tailLength : tail.length = if extra then 1 else 0) {pair : Keypair}
    (own : S.Matching pair.pub pair.sec)
    (call : SignedCall S message extra target pair sigs kept full) :
    target.keys.idxOf pair.pub < positions.length ∧
      SealedSigs S target message tail
        (positions.set (target.keys.idxOf pair.pub) (target.keys.idxOf pair.pub)) kept := by
  obtain ⟨old, rfl, whole, signed⟩ := sealed
  obtain ⟨inside, allocated, _, _, rfl, _, _, _, rfl⟩ := call
  have shorter : (nonNullSigs tail).length ≤ tail.length := List.length_filter_le _ _
  have place : target.keys.idxOf pair.pub < old.length := by
    unfold allocatedSigsForParticipants at allocated
    rw [List.length_append] at allocated
    cases extra with
    | true =>
      simp only [↓reduceIte] at allocated tailLength
      omega
    | false =>
      simp only [Bool.false_eq_true, ↓reduceIte] at allocated tailLength
      omega
  have new : SignedBy S target.keys message (target.keys.idxOf pair.pub)
      (S.generateSignature message pair.pub pair.sec) :=
    ⟨pair.pub, pair.sec, own, inside, rfl, rfl⟩
  have signedToo := forall₂_set signed new (target.keys.idxOf pair.pub)
  refine ⟨by rw [signed.length_eq]; exact place, _, ?_, by rw [List.length_set, whole], signedToo⟩
  have compacted : nonNullSigs (old.set (target.keys.idxOf pair.pub)
      (S.generateSignature message pair.pub pair.sec) ++ nonNullSigs tail) =
      old.set (target.keys.idxOf pair.pub) (S.generateSignature message pair.pub pair.sec) ++
        nonNullSigs tail := by
    have idle : nonNullSigs (nonNullSigs tail) = nonNullSigs tail := by
      simp only [nonNullSigs, List.filter_filter, Bool.and_self]
    have first := nonNullSigs_signed ideal signedToo
    unfold nonNullSigs at first idle ⊢
    rw [List.filter_append, first, idle]
  rw [List.set_append_left _ _ place]
  split
  · exact compacted
  · rfl

/-- The signatures before a position verify for their own keys exactly when they were made for
these positions. -/
theorem SealedSigs.kept_iff (ideal : S.Ideal E) {positions : List Nat} {sigs : List Signature}
    (sealed : SealedSigs S target message tail positions sigs)
    (rising : positions.Pairwise (· < ·)) {p : Nat} (inside : p < positions.length)
    (known : p < target.keys.length) :
    (∀ i < p, ∀ key sig, target.keys[i]? = some key → sigs[i]? = some sig →
      E.checkSignature message key sig = true) ↔ ∀ i < p, positions[i]? = some i := by
  obtain ⟨kept, rfl, _, signed⟩ := sealed
  have lengths := signed.length_eq
  have front : ∀ i, i < p → (kept ++ nonNullSigs tail)[i]? = kept[i]? := by
    intro i less
    exact List.getElem?_append_left (lengths ▸ Nat.lt_trans less inside)
  constructor
  · intro verified i less
    have below : i < positions.length := Nat.lt_trans less inside
    obtain ⟨sig, there⟩ : ∃ sig, kept[i]? = some sig :=
      ⟨_, List.getElem?_eq_getElem (lengths ▸ below)⟩
    have key := List.getElem?_eq_getElem (Nat.lt_trans less known)
    have check := verified i less _ sig key ((front i less).trans there)
    have made := forall₂_getElem? signed (List.getElem?_eq_getElem below) there
    have first := ((made.verifies ideal _).mp check).1
    have early := idxOf_getElem_le (Nat.lt_trans less known)
    have start : 0 < positions.length := by omega
    have gap := rising_gap rising (List.getElem?_eq_getElem start) i
      (q := positions[i]) (by rw [Nat.zero_add]; exact List.getElem?_eq_getElem below)
    rw [List.getElem?_eq_getElem below]
    congr 1
    omega
  · intro own i less key sig foundKey found
    rw [front i less] at found
    have made := forall₂_getElem? signed (own i less) found
    apply (made.verifies ideal key).mpr
    obtain ⟨pub, sec, _, _, first, _⟩ := made
    obtain ⟨_, rfl⟩ := List.getElem?_eq_some_iff.mp foundKey
    subst first
    rw [List.getElem_idxOf]
    exact ⟨rfl, List.idxOf_lt_length_iff.mp (by omega)⟩

end Lists

/-! ## Whole runs -/

/-- The end of the reserved list that belongs to no participant. -/
def extraTail (S : Signing) (extra complete : Bool) (txkey : Keypair) (txPrefixHash : Hash) :
    List Signature :=
  if extra then
    [if complete then S.generateSignature txPrefixHash txkey.pub txkey.sec else nullSig]
  else []

theorem extraTail_length (extra complete : Bool) (txkey : Keypair) (txPrefixHash : Hash) :
    (extraTail S extra complete txkey txPrefixHash).length = if extra then 1 else 0 := by
  cases extra <;> rfl

variable {complete : Bool} {txkey : Keypair}

/-- The reserved signatures are open. -/
theorem reserved_open {message txPrefixHash : Hash} {extra : Bool}
    (positive : 1 ≤ target.minimumSigs) (bounded : target.minimumSigs ≤ target.keys.length)
    (lastOnly : complete = true → extra = true) :
    OpenSigs S target message (extraTail S extra complete txkey txPrefixHash)
      (reservedSignatures S target.keys.length complete txkey txPrefixHash) := by
  have empty : ∀ n, Placed S target.keys message (List.replicate n nullSig) ∧
      (nonNullSigs (List.replicate n nullSig)).length < target.minimumSigs := by
    intro n
    constructor
    · intro position sig found
      exact .inl (List.eq_of_mem_replicate (List.mem_of_getElem? found))
    · have none : nonNullSigs (List.replicate n nullSig) = [] := by
        rw [nonNullSigs, List.filter_replicate_of_neg (by decide)]
      rw [none]
      exact positive
  unfold reservedSignatures extraTail
  cases complete with
  | true =>
    rw [lastOnly rfl]
    exact ⟨_, rfl, empty _⟩
  | false =>
    cases extra with
    | true =>
      refine ⟨List.replicate (target.keys.length - 1) nullSig, ?_, empty _⟩
      have split : target.keys.length = target.keys.length - 1 + 1 := by omega
      simp only [Bool.false_eq_true, ↓reduceIte, List.append_nil]
      rw [← List.replicate_succ', ← split]
    | false => exact ⟨List.replicate target.keys.length nullSig, rfl, empty _⟩

/-- Signatures for rising positions are accepted. -/
theorem SealedSigs.accepted (ideal : S.Ideal E) {tx : Transaction} {sigs : List Signature}
    {positions : List Nat} (found : tx.signatures[msInputIndex]? = some sigs)
    (threshold : txin.sigsCount = target.minimumSigs)
    (txkeyOwn : S.Matching txkey.pub txkey.sec)
    (txkeyNamed : tx.getTxPubKeyFromExtra = txkey.pub)
    (lastOnly : complete = true → needToCheckExtraSign tx msInputIndex = true)
    (sealed : SealedSigs S target (signedMessage E tx msInputIndex)
      (extraTail S (needToCheckExtraSign tx msInputIndex) complete txkey
        (getTransactionHash E tx.toTransactionPrefix)) positions sigs)
    (rising : positions.Pairwise (· < ·)) :
    msSignaturesAccepted E tx msInputIndex txin target complete := by
  obtain ⟨kept, rfl, whole, signed⟩ := sealed
  have length : kept.length = txin.sigsCount := by rw [← signed.length_eq, whole, threshold]
  constructor
  · rw [msKeyScan, found]
    dsimp only
    rw [← length, List.take_left]
    exact checkMultisigSignatures_of_rising ideal signed rising
  · intro ends
    rw [msExtraSign, found]
    dsimp only
    cases complete with
    | true =>
      have nonnull := ideal.nonnull txkeyOwn (getTransactionHash E tx.toTransactionPrefix)
      have last : nonNullSigs (extraTail S true true txkey
          (getTransactionHash E tx.toTransactionPrefix)) = [S.generateSignature
            (getTransactionHash E tx.toTransactionPrefix) txkey.pub txkey.sec] := by
        simp [nonNullSigs, extraTail, nonnull]
      rw [ends, last, List.getLast?_concat, List.length_append, length, Option.map_some,
        (ideal.verifies txkeyOwn _ _ _).mpr ⟨rfl, txkeyNamed⟩]
      simp
    | false =>
      rw [ends]
      simp [extraTail, nonNullSigs, length]

/-- Accepted signatures for different keys are for rising positions. -/
theorem SealedSigs.rising (ideal : S.Ideal E) (distinct : target.keys.Nodup) {tx : Transaction}
    {sigs tail : List Signature} {positions : List Nat}
    (found : tx.signatures[msInputIndex]? = some sigs)
    (threshold : txin.sigsCount = target.minimumSigs)
    (sealed : SealedSigs S target (signedMessage E tx msInputIndex) tail positions sigs)
    (accepted : msSignaturesAccepted E tx msInputIndex txin target complete) :
    positions.Pairwise (· < ·) := by
  obtain ⟨kept, rfl, whole, signed⟩ := sealed
  have length : kept.length = txin.sigsCount := by rw [← signed.length_eq, whole, threshold]
  have scanned := accepted.1
  rw [msKeyScan, found] at scanned
  dsimp only at scanned
  rw [← length, List.take_left] at scanned
  exact rising_of_checkMultisigSignatures ideal distinct signed scanned

/-- A new transaction with reserved signatures for an input that spends a multisig output. -/
structure ReservedInput (E : Env) (S : Signing) (start : Transaction) (msInputIndex : Nat)
    (sourceTx : Transaction) (txin : TxinMultisig) (outNo : Nat) (target : TxoutMultisig)
    (complete : Bool) (txkey : Keypair) : Prop
    extends SpendsMultisig E start msInputIndex sourceTx txin outNo target where
  threshold : txin.sigsCount = target.minimumSigs
  positive : 1 ≤ target.minimumSigs
  bounded : target.minimumSigs ≤ target.keys.length
  txkeyOwn : S.Matching txkey.pub txkey.sec
  txkeyNamed : start.getTxPubKeyFromExtra = txkey.pub
  lastOnly : complete = true → needToCheckExtraSign start msInputIndex = true
  reserved : start.signatures[msInputIndex]? = some (reservedSignatures S target.keys.length
    complete txkey (getTransactionHash E start.toTransactionPrefix))

/-- The signatures of a later state of the input are sealed. -/
structure SealedState (E : Env) (S : Signing) (start : Transaction) (msInputIndex : Nat)
    (target : TxoutMultisig) (complete : Bool) (txkey : Keypair) (positions : List Nat)
    (tx : Transaction) (sigs : List Signature) : Prop where
  same : SameUnsigned start tx
  found : tx.signatures[msInputIndex]? = some sigs
  sealed : SealedSigs S target (signedMessage E start msInputIndex)
    (extraTail S (needToCheckExtraSign start msInputIndex) complete txkey
      (getTransactionHash E start.toTransactionPrefix)) positions sigs

theorem SealedState.now {positions : List Nat} {tx : Transaction} {sigs : List Signature}
    (state : SealedState E S start msInputIndex target complete txkey positions tx sigs) :
    SealedSigs S target (signedMessage E tx msInputIndex)
      (extraTail S (needToCheckExtraSign tx msInputIndex) complete txkey
        (getTransactionHash E tx.toTransactionPrefix)) positions sigs := by
  rw [state.same.signedMessage_eq, state.same.extraSign_eq, state.same.unsigned]
  exact state.sealed

theorem SealedState.accepted (ideal : S.Ideal E)
    (input : ReservedInput E S start msInputIndex sourceTx txin outNo target complete txkey)
    {positions : List Nat} {tx : Transaction} {sigs : List Signature}
    (state : SealedState E S start msInputIndex target complete txkey positions tx sigs)
    (rising : positions.Pairwise (· < ·)) :
    msSignaturesAccepted E tx msInputIndex txin target complete := by
  refine SealedSigs.accepted ideal state.found input.threshold input.txkeyOwn ?_ ?_ state.now rising
  · rw [state.same.unsigned]
    exact input.txkeyNamed
  · rw [state.same.extraSign_eq]
    exact input.lastOnly

/-- One more call on a fully signed input keeps the positions rising exactly when the signatures
before the participant's position are at their own positions. -/
theorem SealedState.step (ideal : S.Ideal E)
    (input : ReservedInput E S start msInputIndex sourceTx txin outNo target complete txkey)
    {positions : List Nat} {tx after : Transaction} {sigs : List Signature}
    (state : SealedState E S start msInputIndex target complete txkey positions tx sigs)
    (rising : positions.Pairwise (· < ·)) {keys : AccountKeys} (own : keys.Own S) {full : Bool}
    (signed : signMultisigInputInTx E S msInputIndex sourceTx keys tx = .ok full after) :
    ∃ next kept, SealedState E S start msInputIndex target complete txkey next after kept ∧
      (next.Pairwise (· < ·) ↔
        positionsKept E S msInputIndex sourceTx outNo target tx keys) := by
  obtain ⟨sameAfter, pair, old, kept, derived, found, foundAfter, call⟩ :=
    input.toSpendsMultisig.call state.same signed
  rw [state.found] at found
  obtain rfl := Option.some.inj found
  obtain ⟨inside, sealed⟩ :=
    state.sealed.step ideal (extraTail_length _ _ _ _) (own.derived ideal derived) call
  refine ⟨_, kept, ⟨sameAfter, foundAfter, sealed⟩, ?_⟩
  rw [rising_set_iff rising inside, ← state.now.kept_iff ideal rising inside call.inside]
  constructor
  · intro verified pairToo sigsToo derivedToo foundToo
    rw [derived] at derivedToo
    rw [state.found] at foundToo
    obtain rfl := Option.some.inj derivedToo
    obtain rfl := Option.some.inj foundToo
    exact verified
  · intro kept
    exact kept pair sigs derived state.found

theorem Throughout.now {holds : Transaction → Prop} {later : List AccountKeys} {tx : Transaction}
    (throughout : Throughout E S msInputIndex sourceTx holds later tx) : holds tx := by
  cases later with
  | nil => exact throughout
  | cons keys later => exact throughout.1

/-- The run after the report: the signatures stay accepted if every call is made with the
positions kept, and for different keys only then. -/
theorem SealedState.run (ideal : S.Ideal E)
    (input : ReservedInput E S start msInputIndex sourceTx txin outNo target complete txkey)
    {positions : List Nat} {tx : Transaction} {sigs : List Signature}
    (state : SealedState E S start msInputIndex target complete txkey positions tx sigs)
    (rising : positions.Pairwise (· < ·)) {later : List AccountKeys}
    (own : ∀ keys ∈ later, keys.Own S) :
    (EachCall E S msInputIndex sourceTx (positionsKept E S msInputIndex sourceTx outNo target)
        later tx →
      Throughout E S msInputIndex sourceTx
        (fun tx => msSignaturesAccepted E tx msInputIndex txin target complete) later tx) ∧
    (target.keys.Nodup →
      Throughout E S msInputIndex sourceTx
        (fun tx => msSignaturesAccepted E tx msInputIndex txin target complete) later tx →
      EachCall E S msInputIndex sourceTx (positionsKept E S msInputIndex sourceTx outNo target)
        later tx) := by
  induction later generalizing tx positions sigs with
  | nil => exact ⟨fun _ => state.accepted ideal input rising, fun _ _ => trivial⟩
  | cons keys later ih =>
    have ownFirst := own keys List.mem_cons_self
    have ownRest : ∀ other ∈ later, AccountKeys.Own S other :=
      fun other member => own other (List.mem_cons_of_mem _ member)
    constructor
    · intro each
      refine ⟨state.accepted ideal input rising, fun full after signed => ?_⟩
      obtain ⟨suits, rest⟩ := each full after signed
      obtain ⟨next, kept, stateAfter, risingIff⟩ :=
        state.step ideal input rising ownFirst signed
      exact (ih stateAfter (risingIff.mpr suits) ownRest).1 rest
    · intro distinct throughout full after signed
      have rest := throughout.2 full after signed
      obtain ⟨next, kept, stateAfter, risingIff⟩ :=
        state.step ideal input rising ownFirst signed
      have risingAfter := stateAfter.now.rising ideal distinct stateAfter.found input.threshold
        rest.now
      exact ⟨risingIff.mp risingAfter, (ih stateAfter risingAfter ownRest).2 distinct rest⟩

/-- The run before the report, from an open state on. -/
theorem OpenSigs.run (ideal : S.Ideal E)
    (input : ReservedInput E S start msInputIndex sourceTx txin outNo target complete txkey)
    {tx : Transaction} {sigs : List Signature} (same : SameUnsigned start tx)
    (found : tx.signatures[msInputIndex]? = some sigs)
    (opened : OpenSigs S target (signedMessage E start msInputIndex)
      (extraTail S (needToCheckExtraSign start msInputIndex) complete txkey
        (getTransactionHash E start.toTransactionPrefix)) sigs)
    {participants : List AccountKeys} (own : ∀ keys ∈ participants, keys.Own S) :
    (OnceSigned E S msInputIndex sourceTx (EachCall E S msInputIndex sourceTx
        (positionsKept E S msInputIndex sourceTx outNo target)) participants tx →
      OnceSigned E S msInputIndex sourceTx (Throughout E S msInputIndex sourceTx
        fun tx => msSignaturesAccepted E tx msInputIndex txin target complete) participants tx) ∧
    (target.keys.Nodup →
      OnceSigned E S msInputIndex sourceTx (Throughout E S msInputIndex sourceTx
        fun tx => msSignaturesAccepted E tx msInputIndex txin target complete) participants tx →
      OnceSigned E S msInputIndex sourceTx (EachCall E S msInputIndex sourceTx
        (positionsKept E S msInputIndex sourceTx outNo target)) participants tx) := by
  induction participants generalizing tx sigs with
  | nil => exact ⟨fun _ => trivial, fun _ _ => trivial⟩
  | cons keys later ih =>
    have ownFirst := own keys List.mem_cons_self
    have ownRest : ∀ other ∈ later, AccountKeys.Own S other :=
      fun other member => own other (List.mem_cons_of_mem _ member)
    have next : ∀ full after,
        signMultisigInputInTx E S msInputIndex sourceTx keys tx = .ok full after →
        ∃ kept, SameUnsigned start after ∧ after.signatures[msInputIndex]? = some kept ∧
          (full = false → OpenSigs S target (signedMessage E start msInputIndex)
            (extraTail S (needToCheckExtraSign start msInputIndex) complete txkey
              (getTransactionHash E start.toTransactionPrefix)) kept) ∧
          (full = true → ∃ positions, positions.Pairwise (· < ·) ∧
            SealedState E S start msInputIndex target complete txkey positions after kept) := by
      intro full after signed
      obtain ⟨sameAfter, pair, old, kept, derived, foundOld, foundAfter, call⟩ :=
        input.toSpendsMultisig.call same signed
      rw [found] at foundOld
      obtain rfl := Option.some.inj foundOld
      obtain ⟨stays, seals⟩ := opened.step (extraTail_length _ _ _ _)
        (ownFirst.derived ideal derived) call
      refine ⟨kept, sameAfter, foundAfter, stays, fun complete => ?_⟩
      obtain ⟨positions, rising, sealed⟩ := seals complete
      exact ⟨positions, rising, sameAfter, foundAfter, sealed⟩
    constructor
    · intro each full after signed
      have rest := each full after signed
      obtain ⟨kept, sameAfter, foundAfter, stays, seals⟩ := next full after signed
      cases full with
      | true =>
        obtain ⟨positions, rising, state⟩ := seals rfl
        exact (state.run ideal input rising ownRest).1 rest
      | false => exact (ih sameAfter foundAfter (stays rfl) ownRest).1 rest
    · intro distinct throughout full after signed
      have rest := throughout full after signed
      obtain ⟨kept, sameAfter, foundAfter, stays, seals⟩ := next full after signed
      cases full with
      | true =>
        obtain ⟨positions, rising, state⟩ := seals rfl
        exact (state.run ideal input rising ownRest).2 distinct rest
      | false => exact (ih sameAfter foundAfter (stays rfl) ownRest).2 distinct rest

/-- From the reserved signatures on, in any run of successful calls: once a call reports the input
fully signed its signatures are accepted, and they stay so if each later call finds the signatures
before its position at their own positions; for different keys only then. -/
theorem multisigSigning_accepted (ideal : S.Ideal E)
    (input : ReservedInput E S start msInputIndex sourceTx txin outNo target complete txkey)
    {participants : List AccountKeys} (own : ∀ keys ∈ participants, keys.Own S) :
    (OnceSigned E S msInputIndex sourceTx (EachCall E S msInputIndex sourceTx
        (positionsKept E S msInputIndex sourceTx outNo target)) participants start →
      OnceSigned E S msInputIndex sourceTx (Throughout E S msInputIndex sourceTx
        fun tx => msSignaturesAccepted E tx msInputIndex txin target complete)
        participants start) ∧
    (target.keys.Nodup →
      OnceSigned E S msInputIndex sourceTx (Throughout E S msInputIndex sourceTx
        fun tx => msSignaturesAccepted E tx msInputIndex txin target complete)
        participants start →
      OnceSigned E S msInputIndex sourceTx (EachCall E S msInputIndex sourceTx
        (positionsKept E S msInputIndex sourceTx outNo target)) participants start) :=
  (reserved_open input.positive input.bounded input.lastOnly).run ideal input ⟨rfl, rfl⟩
    input.reserved own

end Calls

/-! ## A participant who signs again -/

namespace RepeatedSigner

/-- The signature of a message for a key, which is its own secret. -/
def sign (message : Hash) (key : PublicKey) : Signature := ⟨Nat.pair message.val key.val + 1⟩

def env : Env := { Env.plain with checkSignature := fun hash key sig => sig == sign hash key }

def signing : Signing where
  generateKeyDerivation _ _ := some ⟨0⟩
  derivePublicKey _ _ pub := some pub
  deriveSecretKey _ _ sec := sec
  secretKeyToPublicKey sec := some ⟨sec.val⟩
  generateSignature message pub _ := sign message pub

theorem ideal : signing.Ideal env where
  verifies {pub sec} _ message hash key := by
    change (sign message pub == sign hash key) = true ↔ _
    obtain ⟨message⟩ := message
    obtain ⟨hash⟩ := hash
    obtain ⟨pub⟩ := pub
    obtain ⟨key⟩ := key
    simp only [sign, beq_iff_eq, Signature.mk.injEq, Nat.add_right_cancel_iff, Nat.pair_eq_pair,
      Hash.mk.injEq, PublicKey.mk.injEq]
    constructor
    · rintro ⟨rfl, rfl⟩
      exact ⟨rfl, rfl⟩
    · rintro ⟨rfl, rfl⟩
      exact ⟨rfl, rfl⟩
  nonnull {pub sec} _ message := by
    change sign message pub ≠ nullSig
    simp [sign, nullSig]
  derives := by
    intro txPublicKey view derivation pub sec derived own _ index made
    obtain rfl := Option.some.inj made
    exact own

/-- The owner of a key. -/
def account (key : Nat) : AccountKeys := ⟨⟨⟨key⟩, ⟨0⟩⟩, ⟨key⟩, ⟨0⟩⟩

/-- Two of the three owners of this output can spend it. -/
def target : TxoutMultisig := ⟨2, [⟨1⟩, ⟨2⟩, ⟨3⟩]⟩

def sourceTx : Transaction :=
  { version := 1, vin := [], vout := [⟨5, .multisig target⟩], extra := [.publicKey ⟨9⟩]
    signatures := [], attachment := [] }

def input : TxinMultisig := ⟨5, ⟨1014⟩, 2, []⟩

def spending : Transaction :=
  { version := 2, vin := [.multisig input], vout := [], extra := [.publicKey ⟨8⟩]
    signatures := [reservedSignatures signing 3 false ⟨⟨8⟩, ⟨8⟩⟩ ⟨2⟩], attachment := [] }

theorem spending_reserved :
    ReservedInput env signing spending 0 sourceTx input 0 target false ⟨⟨8⟩, ⟨8⟩⟩ where
  input := rfl
  output := by decide
  threshold := rfl
  positive := by decide
  bounded := by decide
  txkeyOwn := rfl
  txkeyNamed := by decide
  lastOnly complete := by cases complete
  reserved := by decide

/-- The transaction after one more call. -/
def signedBy (key : Nat) (tx : Transaction) : Transaction :=
  Procedure.final (signMultisigInputInTx env signing 0 sourceTx (account key) tx)

/-- The input after the second and the third owner signed. -/
def second : Transaction := signedBy 2 spending
def third : Transaction := signedBy 3 second

theorem ok_signedBy {key : Nat} {tx : Transaction} {full : Bool}
    (answered : Procedure.answer (signMultisigInputInTx env signing 0 sourceTx (account key) tx) =
      .ok full) :
    signMultisigInputInTx env signing 0 sourceTx (account key) tx = .ok full (signedBy key tx) := by
  unfold signedBy
  cases called : signMultisigInputInTx env signing 0 sourceTx (account key) tx with
  | ok value after =>
    rw [called] at answered
    cases answered
    rfl
  | error reason after =>
    rw [called] at answered
    cases answered

theorem second_signed :
    signMultisigInputInTx env signing 0 sourceTx (account 2) spending = .ok false second :=
  ok_signedBy (by rfl)

theorem third_signed :
    signMultisigInputInTx env signing 0 sourceTx (account 3) second = .ok true third :=
  ok_signedBy (by rfl)

/-- The first owner signs last, at a place that is kept. -/
theorem firstLast_accepted :
    OnceSigned env signing 0 sourceTx (Throughout env signing 0 sourceTx
      fun tx => msSignaturesAccepted env tx 0 input target false)
      [account 2, account 3, account 1] spending := by
  refine (multisigSigning_accepted ideal spending_reserved ?_).1 ?_
  · intro keys member
    simp only [List.mem_cons, List.not_mem_nil, or_false] at member
    rcases member with rfl | rfl | rfl <;> rfl
  · intro full after signed
    rw [second_signed] at signed
    cases signed
    intro full after signed
    rw [third_signed] at signed
    cases signed
    refine fun _ _ _ => ⟨?_, trivial⟩
    intro pair sigs derived _ position less
    obtain rfl := Option.some.inj derived
    exact absurd less (Nat.not_lt_zero position)

/-- The second owner signs again and replaces the signature of the third. -/
theorem secondAgain_refused :
    ¬ OnceSigned env signing 0 sourceTx (Throughout env signing 0 sourceTx
      fun tx => msSignaturesAccepted env tx 0 input target false)
      [account 2, account 3, account 2] spending := by
  intro promised
  have afterSecond := promised _ _ second_signed
  have afterThird := afterSecond _ _ third_signed
  have again : signMultisigInputInTx env signing 0 sourceTx (account 2) third =
      .ok true (signedBy 2 third) := ok_signedBy (by rfl)
  have scanned := (afterThird.2 _ _ again).1
  revert scanned
  decide

end RepeatedSigner

end Virie
