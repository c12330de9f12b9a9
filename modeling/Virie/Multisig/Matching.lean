import Virie.Multisig.Signing
import Virie.Foundation.Positions

/-! # Matching signatures with keys

Signatures that were made for rising positions of the key list are matched by the node, and for
different keys no others are. -/

open Foundation

namespace Virie

section Matching

variable {E : Env} {S : Signing}

/-! ## Matching signatures with keys -/

/-- Matching the signatures greedily is complete. -/
theorem checkMultisigSignatures_iff (hash : Hash) (keys : List PublicKey) (sigs : List Signature) :
    checkMultisigSignatures E hash keys sigs = true ↔
      ∃ matched, List.Forall₂ (fun sig key => E.checkSignature hash key sig = true) sigs matched ∧
        matched.Sublist keys := by
  induction keys generalizing sigs with
  | nil =>
    cases sigs with
    | nil => exact ⟨fun _ => ⟨[], .nil, .slnil⟩, fun _ => rfl⟩
    | cons sig sigs =>
      constructor
      · intro impossible
        cases impossible
      · rintro ⟨matched, pairs, sub⟩
        obtain rfl := List.sublist_nil.mp sub
        cases pairs
  | cons key keys ih =>
    cases sigs with
    | nil => exact ⟨fun _ => ⟨[], .nil, List.nil_sublist _⟩, fun _ => rfl⟩
    | cons sig sigs =>
      rw [checkMultisigSignatures]
      by_cases verified : E.checkSignature hash key sig = true
      · rw [if_pos verified, ih]
        constructor
        · rintro ⟨matched, pairs, sub⟩
          exact ⟨key :: matched, .cons verified pairs, sub.cons_cons key⟩
        · rintro ⟨matched, pairs, sub⟩
          cases pairs with
          | cons _ rest => exact ⟨_, rest, sub.tail⟩
      · rw [if_neg verified, ih]
        constructor
        · rintro ⟨matched, pairs, sub⟩
          exact ⟨matched, pairs, sub.cons key⟩
        · rintro ⟨matched, pairs, sub⟩
          refine ⟨matched, pairs, ?_⟩
          cases sub with
          | cons _ sub => exact sub
          | cons_cons _ sub =>
            obtain ⟨first, _⟩ := List.forall₂_cons.mp pairs
            exact absurd first verified

/-- What the node checks of a multisig input outside the checkpoint zone. -/
theorem checkMsInput_iff {chain : Chain} (outside : chain.isInCheckpointZone = false)
    {tx sourceTx : Transaction} {inIndex outN amount : Nat} {txin : TxinMultisig} {txId : Hash}
    {target : TxoutMultisig} (spent : sourceTx.vout[outN]? = some ⟨amount, .multisig target⟩) :
    checkMsInput E chain tx inIndex txin txId sourceTx outN = true ↔
      (chain.isTxSpendtimeUnlocked sourceTx.getTxUnlockTime = true ∧
        txin.sigsCount = target.minimumSigs ∧ amount = txin.amount ∧
        checkInputAttachments E tx inIndex txin.etcDetails = true ∧
        preparePrefixHashForSign E tx inIndex txId ≠ nullHash ∧
        txin.sigsCount ≤ target.keys.length) ∧
      msKeyScan E tx inIndex txin target txId = true ∧
        msExtraSign E tx inIndex txin txId = true := by
  unfold checkMsInput msKeyScan msExtraSign
  rw [spent]
  cases tx.signatures[inIndex]? with
  | none => simp [outside]
  | some signatures =>
    simp only [outside, Bool.false_or, Bool.and_eq_true, beq_iff_eq, bne_iff_ne, decide_eq_true_eq]
    constructor
    · rintro ⟨unlocked, ⟨threshold, amounts⟩, attached, ⟨⟨⟨count, signable⟩, bounded⟩, scanned⟩,
        extra⟩
      exact ⟨⟨unlocked, threshold, amounts, attached, signable, bounded⟩, scanned, count, extra⟩
    · rintro ⟨⟨unlocked, threshold, amounts, attached, signable, bounded⟩, scanned, count, extra⟩
      exact ⟨unlocked, ⟨threshold, amounts⟩, attached, ⟨⟨⟨count, signable⟩, bounded⟩, scanned⟩,
        extra⟩

/-- A signature for a message, made for the first position of its key. -/
def SignedBy (S : Signing) (keys : List PublicKey) (message : Hash) (position : Nat)
    (sig : Signature) : Prop :=
  ∃ pub sec, S.Matching pub sec ∧ position < keys.length ∧ keys.idxOf pub = position ∧
    sig = S.generateSignature message pub sec

theorem SignedBy.verifies (ideal : S.Ideal E) {keys : List PublicKey} {message : Hash}
    {position : Nat} {sig : Signature} (signed : SignedBy S keys message position sig)
    (key : PublicKey) :
    E.checkSignature message key sig = true ↔ keys.idxOf key = position ∧ key ∈ keys := by
  obtain ⟨pub, sec, own, inside, first, rfl⟩ := signed
  rw [ideal.verifies own]
  constructor
  · rintro ⟨_, rfl⟩
    exact ⟨first, List.idxOf_lt_length_iff.mp (first ▸ inside)⟩
  · rintro ⟨same, member⟩
    refine ⟨rfl, (List.idxOf_inj member).mp ?_⟩
    rw [same, first]

/-- Signatures for rising positions are matched. -/
theorem checkMultisigSignatures_of_rising (ideal : S.Ideal E) {keys : List PublicKey}
    {message : Hash} {positions : List Nat} {sigs : List Signature}
    (signed : List.Forall₂ (SignedBy S keys message) positions sigs)
    (rising : positions.Pairwise (· < ·)) :
    checkMultisigSignatures E message keys sigs = true := by
  suffices found : ∃ inside : List (Fin keys.length), positions = inside.map Fin.val ∧
      List.Forall₂ (fun sig key => E.checkSignature message key sig = true) sigs
        (inside.map fun i => keys[i]) by
    obtain ⟨inside, rfl, verified⟩ := found
    rw [List.pairwise_map] at rising
    rw [checkMultisigSignatures_iff]
    exact ⟨_, verified, List.map_getElem_sublist rising⟩
  clear rising
  induction signed with
  | nil => exact ⟨[], rfl, .nil⟩
  | cons first _ ih =>
    obtain ⟨inside, rfl, verified⟩ := ih
    obtain ⟨pub, sec, _, below, same, _⟩ := id first
    have verifiedToo := (first.verifies ideal pub).mpr
      ⟨same, List.idxOf_lt_length_iff.mp (same ▸ below)⟩
    refine ⟨⟨_, below⟩ :: inside, rfl, .cons ?_ verified⟩
    subst same
    simpa only [Fin.getElem_fin, List.getElem_idxOf] using verifiedToo

/-- Matched signatures for different keys have rising positions. -/
theorem rising_of_checkMultisigSignatures (ideal : S.Ideal E) {keys : List PublicKey}
    (distinct : keys.Nodup) {message : Hash} {positions : List Nat} {sigs : List Signature}
    (signed : List.Forall₂ (SignedBy S keys message) positions sigs)
    (matches' : checkMultisigSignatures E message keys sigs = true) :
    positions.Pairwise (· < ·) := by
  obtain ⟨matched, pairs, sub⟩ := (checkMultisigSignatures_iff message keys sigs).mp matches'
  have rising := List.pairwise_map.mpr ((pairwise_idxOf distinct).sublist sub)
  suffices same : positions = matched.map keys.idxOf by
    rw [same]
    exact rising
  clear rising sub matches'
  induction signed generalizing matched with
  | nil =>
    cases pairs
    rfl
  | cons first _ ih =>
    cases pairs with
    | cons verified rest =>
      rw [List.map_cons, ← ih _ rest, ((first.verifies ideal _).mp verified).1]

/-! ## Positions -/

/-- Every place holds no signature or the one of its position. -/
def Placed (S : Signing) (keys : List PublicKey) (message : Hash) (slots : List Signature) : Prop :=
  ∀ position sig, slots[position]? = some sig → sig = nullSig ∨ SignedBy S keys message position sig

/-- The signatures kept from a list of places have rising positions. -/
theorem Placed.kept {keys : List PublicKey} {message : Hash} {slots : List Signature}
    (placed : Placed S keys message slots) :
    ∃ positions : List Nat, positions.Pairwise (· < ·) ∧ (∀ p ∈ positions, p < slots.length) ∧
      List.Forall₂ (SignedBy S keys message) positions (nonNullSigs slots) := by
  induction slots using List.reverseRecOn with
  | nil => exact ⟨[], .nil, fun _ member => absurd member List.not_mem_nil, .nil⟩
  | append_singleton slots sig ih =>
    obtain ⟨positions, rising, below, signed⟩ := ih fun position sig found =>
      placed position sig (by
        rw [List.getElem?_append_left (List.getElem?_eq_some_iff.mp found).1]
        exact found)
    by_cases empty : sig = nullSig
    · refine ⟨positions, rising, fun p member => ?_, ?_⟩
      · rw [List.length_append]
        exact Nat.lt_add_right _ (below p member)
      · simpa [nonNullSigs, empty] using signed
    · have last : SignedBy S keys message slots.length sig :=
        (placed slots.length sig List.getElem?_concat_length).resolve_left empty
      refine ⟨positions ++ [slots.length], ?_, fun p member => ?_, ?_⟩
      · refine List.pairwise_append.mpr ⟨rising, List.pairwise_singleton _ _, fun p member q => ?_⟩
        rintro here
        rw [List.mem_singleton.mp here]
        exact below p member
      · rw [List.length_append, List.length_singleton]
        rcases List.mem_append.mp member with before | here
        · exact Nat.lt_add_right _ (below p before)
        · rw [List.mem_singleton.mp here]
          exact Nat.lt_succ_self _
      · have tail : nonNullSigs [sig] = [sig] := by simp [nonNullSigs, empty]
        have split : nonNullSigs (slots ++ [sig]) = nonNullSigs slots ++ [sig] := by
          rw [nonNullSigs, List.filter_append]
          exact congrArg _ tail
        rw [split]
        exact List.rel_append signed (.cons last .nil)

theorem Placed.set {keys : List PublicKey} {message : Hash} {slots : List Signature}
    (placed : Placed S keys message slots) {position : Nat} {sig : Signature}
    (signed : SignedBy S keys message position sig) :
    Placed S keys message (slots.set position sig) := by
  intro other found present
  rw [List.getElem?_set] at present
  split at present
  · rename_i same
    subst same
    split at present
    · exact .inr (Option.some.inj present ▸ signed)
    · cases present
  · exact placed other found present

end Matching

end Virie
