import Virie.Storage.Inputs

/-! # What checked inputs refer to

A successful check of an input says what its references resolve to: every ring member
to a key output that is unlocked and may be mixed, a multisig input to an unspent
multisig output. -/

open Foundation

namespace Virie

/-- An input refers to outputs of the database as its check requires: ring members are key
outputs, a multisig output is unspent. -/
def Db.Resolves (db : Db) : Txin → Prop
  | .gen _ => True
  | .toKey input => ∃ absolute, relativeOutputOffsetsToAbsolute input.keyOffsets = .ok absolute ∧
      ∀ o ∈ absolute, ∃ (txId : Hash) (n : Nat) (entry : TransactionChainEntry) (amount : Nat)
        (key : TxoutToKey),
        db.resolveOutput input.amount o = .ok (txId, n) ∧
        db.transactions.get txId = some entry ∧
        entry.tx.vout[n]? = some (TxOut.mk amount (.toKey key))
  | .multisig input => ∃ ms entry amount keys,
      db.multisigOuts.get input.multisigOutId = some ms ∧ ms.spentHeight = 0 ∧
      db.transactions.get ms.txId = some entry ∧ entry.spentFlags[ms.outNo]? = some false ∧
      entry.tx.vout[ms.outNo]? = some (TxOut.mk amount (.multisig keys))

/-- A ring member refers to a key output that passes the lock and mixing checks. -/
structure Chain.Scans (chain : Chain) (txin : TxinToKey) (o : TxoutRef) (txId : Hash) (n : Nat)
    (entry : TransactionChainEntry) (amount : Nat) (out : TxoutToKey) : Prop where
  resolved : chain.db.resolveOutput txin.amount o = .ok (txId, n)
  found : chain.db.transactions.get txId = some entry
  output : entry.tx.vout[n]? = some (TxOut.mk amount (.toKey out))
  mixing : isMixattrApplicableForFakeOutsCounter out.mixAttr (txin.keyOffsets.length - 1) = true
  unlocked : chain.isTxSpendtimeUnlocked entry.tx.getTxUnlockTime = true

section Resolution

variable {E : Env} {chain : Chain} {txin : TxinToKey}

theorem scanOutputkey_ok {o : TxoutRef} {key : PublicKey} {before after : Nat} :
    scanOutputkey chain txin o before = .ok key after ↔
      ∃ txId n entry amount out, chain.Scans txin o txId n entry amount out ∧ key = out.key ∧
        after = max before entry.keeperBlockHeight := by
  simp only [scanOutputkey, Procedure.bind_ok, Procedure.reading_ok, Procedure.demand_ok]
  constructor
  · rintro ⟨⟨txId, n⟩, _, ⟨resolved, rfl⟩, entry, _, ⟨found, rfl⟩, ⟨amount, target⟩, _, ⟨out, rfl⟩,
      run⟩
    cases target with
    | multisig keys => exact absurd run (by simp)
    | toKey target =>
      simp only [Procedure.bind_ok, Procedure.require_ok, Procedure.modify_ok,
        Procedure.pure_ok] at run
      obtain ⟨_, _, ⟨mixing, rfl⟩, _, _, ⟨unlocked, rfl⟩, _, _, rfl, rfl, rfl⟩ := run
      exact ⟨txId, n, entry, amount, target, ⟨resolved, found, out, mixing, unlocked⟩, rfl, rfl⟩
  · rintro ⟨txId, n, entry, amount, target, scans, rfl, rfl⟩
    refine ⟨(txId, n), before, ⟨scans.resolved, rfl⟩, entry, before, ⟨scans.found, rfl⟩, _, before,
      ⟨scans.output, rfl⟩, ?_⟩
    simp only [Procedure.bind_ok, Procedure.require_ok, Procedure.modify_ok, Procedure.pure_ok]
    exact ⟨(), before, ⟨scans.mixing, rfl⟩, (), before, ⟨scans.unlocked, rfl⟩, ⟨⟩, _, rfl, trivial, rfl⟩

/-- A scan hands out the key of every ring member, in order. -/
theorem scanOutputkeys_ok {offsets : List TxoutRef} {keys : List PublicKey} {before : Nat} :
    (∃ after, scanOutputkeys chain txin offsets before = .ok keys after) ↔
      List.Forall₂ (fun o key => ∃ txId n entry amount out,
        chain.Scans txin o txId n entry amount out ∧ key = out.key) offsets keys := by
  induction offsets generalizing keys before with
  | nil =>
    simp only [scanOutputkeys, Procedure.pure_ok, List.forall₂_nil_left_iff]
    exact ⟨by rintro ⟨_, same, _⟩; exact same.symm, fun same => ⟨before, same.symm, rfl⟩⟩
  | cons o offsets ih =>
    simp only [scanOutputkeys, Procedure.bind_ok, Procedure.pure_ok, List.forall₂_cons_left_iff]
    constructor
    · rintro ⟨_, key, middle, first, rest, _, others, rfl, rfl⟩
      obtain ⟨txId, n, entry, amount, out, scans, same, _⟩ := scanOutputkey_ok.mp first
      exact ⟨key, rest, ⟨txId, n, entry, amount, out, scans, same⟩, ih.mp ⟨_, others⟩, rfl⟩
    · rintro ⟨key, rest, ⟨txId, n, entry, amount, out, scans, same⟩, others, rfl⟩
      obtain ⟨after, run⟩ : ∃ after, scanOutputkeys chain txin offsets
          (max before entry.keeperBlockHeight) = .ok rest after := ih.mpr others
      exact ⟨after, key, _, scanOutputkey_ok.mpr ⟨txId, n, entry, amount, out, scans, same, rfl⟩,
        rest, after, run, rfl, rfl⟩

/-- A successful check of a key input collected the keys of its ring. -/
theorem getOutputKeysForInputWithChecks_ok {keys : List PublicKey} {before : Nat} :
    (∃ after, getOutputKeysForInputWithChecks chain txin before = .ok keys after) ↔
      chain.db.outputs.getItemSize txin.amount ≠ 0 ∧
      ∃ absolute, relativeOutputOffsetsToAbsolute txin.keyOffsets = .ok absolute ∧
        List.Forall₂ (fun o key => ∃ txId n entry amount out,
          chain.Scans txin o txId n entry amount out ∧ key = out.key) absolute keys := by
  simp only [getOutputKeysForInputWithChecks, scanOutputkeysForIndexes, Procedure.bind_ok,
    Procedure.require_ok, Procedure.reading_ok, bne_iff_ne]
  constructor
  · rintro ⟨after, _, _, ⟨indexed, rfl⟩, absolute, _, ⟨offsets, rfl⟩, run⟩
    exact ⟨indexed, absolute, offsets, scanOutputkeys_ok.mp ⟨after, run⟩⟩
  · rintro ⟨indexed, absolute, offsets, all⟩
    obtain ⟨after, run⟩ : ∃ after, scanOutputkeys chain txin absolute before = .ok keys after :=
      scanOutputkeys_ok.mpr all
    exact ⟨after, (), before, ⟨indexed, rfl⟩, absolute, before, ⟨offsets, rfl⟩, run⟩

theorem resolves_of_scan {keys : List PublicKey} {before after : Nat}
    (run : getOutputKeysForInputWithChecks chain txin before = .ok keys after) :
    chain.db.Resolves (.toKey txin) := by
  obtain ⟨_, absolute, offsets, all⟩ := getOutputKeysForInputWithChecks_ok.mp ⟨after, run⟩
  refine ⟨absolute, offsets, fun o member => ?_⟩
  obtain ⟨i, bound, rfl⟩ := List.getElem_of_mem member
  obtain ⟨txId, n, entry, amount, out, scans, _⟩ :=
    all.get bound (by rw [← all.length_eq]; exact bound)
  exact ⟨txId, n, entry, amount, out, scans.resolved, scans.found, scans.output⟩

theorem resolves_of_checkTxInput {tx : Transaction} {txId : Hash} {index : Nat} {input : Txin}
    {before after : Nat}
    (accepted : checkTxInput E chain tx txId index input before = .ok () after) :
    chain.db.Resolves input := by
  simp only [checkTxInput, Procedure.bind_ok] at accepted
  obtain ⟨sig, _, _, accepted⟩ := accepted
  cases input with
  | gen height => trivial
  | toKey input =>
    simp only [Procedure.bind_ok, Procedure.require_ok, checkTxInputToKey] at accepted
    obtain ⟨_, _, _, _, _, _, keys, _, scanned, _⟩ := accepted
    exact resolves_of_scan scanned
  | multisig input =>
    simp only [checkTxInputMultisig, Procedure.bind_ok, Procedure.demand_ok, Procedure.require_ok,
      beq_iff_eq] at accepted
    obtain ⟨ms, _, ⟨present, rfl⟩, _, _, ⟨unspent, rfl⟩, source, _, ⟨found, rfl⟩, _, _,
      ⟨flag, rfl⟩, _, _, ⟨verified, rfl⟩, _⟩ := accepted
    unfold checkMsInput at verified
    rw [Bool.and_eq_true] at verified
    replace verified := verified.2
    split at verified
    · next amount keys out => exact ⟨ms, source, amount, keys, present, unspent, found, flag, out⟩
    · exact absurd verified (by simp)

/-- A checked list of inputs has every single one checked, at its own number. -/
theorem checkTxInputsFrom_get {tx : Transaction} {txId : Hash} {inputs : List Txin}
    {start before after : Nat}
    (accepted : checkTxInputsFrom E chain tx txId start inputs before = .ok () after)
    {index : Nat} {input : Txin} (present : inputs[index]? = some input) :
    ∃ first second, checkTxInput E chain tx txId (start + index) input first = .ok () second := by
  induction inputs generalizing start before index with
  | nil => exact absurd present (by simp)
  | cons head tail ih =>
    simp only [checkTxInputsFrom, Procedure.bind_ok] at accepted
    obtain ⟨_, middle, checked, rest⟩ := accepted
    cases index with
    | zero =>
      cases present
      exact ⟨before, middle, checked⟩
    | succ index =>
      have inTail : tail[index]? = some input := by simpa using present
      have later := ih rest inTail
      rwa [Nat.add_right_comm, Nat.add_assoc] at later

/-- The inputs of a checked transaction resolve. -/
theorem resolves_of_txInputsValid {tx : Transaction} {txId : Hash}
    (valid : txInputsValid E chain tx txId = .ok ()) :
    ∀ input ∈ tx.vin, chain.db.Resolves input := by
  intro input member
  unfold txInputsValid at valid
  split at valid
  · next run =>
    simp only [checkTxInputs, Procedure.bind_ok, Procedure.set_ok] at run
    obtain ⟨_, _, rfl, _, _, checked, _⟩ := run
    obtain ⟨i, bound, rfl⟩ := List.getElem_of_mem member
    obtain ⟨_, _, accepted⟩ := checkTxInputsFrom_get checked (List.getElem?_eq_getElem bound)
    exact resolves_of_checkTxInput accepted
  · exact absurd valid (by simp)

end Resolution

/-! ## Checks that raise no exception -/

section Exceptions

open Procedure

variable {E : Env} {chain : Chain}

/-- The offsets of an input can be made absolute or are refused. -/
def Txin.OffsetsRead : Txin → Prop
  | .toKey input => relativeOutputOffsetsToAbsolute input.keyOffsets ≠ .error .thrown
  | _ => True

theorem Db.Resolves.offsetsRead {db : Db} {input : Txin} (resolved : db.Resolves input) :
    input.OffsetsRead := by
  cases input with
  | gen height => trivial
  | toKey input =>
    obtain ⟨absolute, offsets, _⟩ := resolved
    intro thrown
    rw [offsets] at thrown
    cases thrown
  | multisig input => trivial

theorem resolveOutput_noThrow (db : Db) (amount : Nat) (o : TxoutRef) :
    db.resolveOutput amount o ≠ .error .thrown := by
  cases o with
  | byId ref => exact fun same => by cases same
  | index i =>
    intro same
    simp only [Db.resolveOutput] at same
    cases found : db.outputs.getSubitem amount i with
    | none =>
      rw [found] at same
      cases same
    | some out =>
      rw [found] at same
      cases same

theorem noThrow_scanOutputkeys (txin : TxinToKey) (offsets : List TxoutRef) :
    NoThrow (scanOutputkeys chain txin offsets) := by
  induction offsets with
  | nil => exact avoids_pure []
  | cons o offsets ih =>
    refine avoids_bind ?_ fun _ => avoids_bind ih fun _ => avoids_pure _
    refine avoids_bind (avoids_reading fun _ => resolveOutput_noThrow _ _ _) fun _ =>
      avoids_bind (noThrow_demand _) fun _ => avoids_bind (noThrow_demand _) fun _ => ?_
    split
    · exact noThrow_refuse
    · exact avoids_bind (noThrow_require _) fun _ => avoids_bind (noThrow_require _) fun _ =>
        avoids_bind (avoids_modify _) fun _ => avoids_pure _

theorem noThrow_checkTxInput (tx : Transaction) (txId : Hash) (index : Nat) {input : Txin}
    (offsets : input.OffsetsRead) : NoThrow (checkTxInput E chain tx txId index input) := by
  refine avoids_bind ?_ fun sig => ?_
  · unfold signaturesOfInput
    split
    · exact avoids_pure []
    · exact noThrow_demand _
  · cases input with
    | gen height => exact avoids_pure ()
    | toKey input =>
      refine avoids_bind (noThrow_require _) fun _ => avoids_bind (noThrow_require _) fun _ =>
        avoids_bind ?_ fun _ => noThrow_require _
      exact avoids_bind (noThrow_require _) fun _ => avoids_bind
        (avoids_reading fun _ => offsets) fun _ => noThrow_scanOutputkeys _ _
    | multisig input =>
      exact avoids_bind (noThrow_demand _) fun _ => avoids_bind (noThrow_require _) fun _ =>
        avoids_bind (noThrow_demand _) fun _ => avoids_bind (noThrow_require _) fun _ =>
        avoids_bind (noThrow_require _) fun _ => avoids_set _

theorem noThrow_checkTxInputsWithBlock (tx : Transaction) (txId : Hash)
    (offsets : ∀ input ∈ tx.vin, input.OffsetsRead) :
    NoThrow (checkTxInputsWithBlock E chain tx txId) := by
  have checks : ∀ (inputs : List Txin) (start : Nat), (∀ input ∈ inputs, input.OffsetsRead) →
      NoThrow (checkTxInputsFrom E chain tx txId start inputs) := by
    intro inputs
    induction inputs with
    | nil => exact fun _ _ => avoids_pure ()
    | cons input rest ih =>
      exact fun start offsets => avoids_bind
        (noThrow_checkTxInput tx txId start (offsets input (.head _))) fun _ =>
        ih _ fun other member => offsets other (.tail _ member)
  refine avoids_bind (avoids_bind (avoids_set _) fun _ => avoids_bind (checks _ _ offsets)
    fun _ => ?_) fun _ => avoids_bind avoids_get fun _ => avoids_bind (noThrow_demand _)
    fun _ => avoids_pure _
  split
  · exact avoids_pure ()
  · exact avoids_bind (noThrow_require _) fun _ => noThrow_require _

end Exceptions
end Virie
