import Virie.Attachments
import Virie.BlockSizeLimit
import Virie.Serialization.Laws
import Virie.SupplyConservation

/-! # Sizes of pruned transactions

The size of a transaction is predicted from its prefix, so that it does not change when
signatures and attachments are dropped. For the signatures the prediction is what an
accepted transaction carries. For the attachments it is the size that the first attachment
info announces, which is the size of all attachments only if the info covers all of them. -/

open Foundation

namespace Virie

/-- The environment reports the sizes of what is written. -/
structure Env.SizesWritten (E : Env) : Prop where
  prefixes : ∀ tx bytes, Wire.transactionPrefix.write tx = some bytes →
    E.prefixBlobsize tx = bytes.length
  attachments : ∀ attachment bytes, (Codec.vector Wire.payloadItem).write attachment = some bytes →
    E.attachmentBlobsize attachment = bytes.length

/-- The attachment info whose size counts: the one of the last input of a separately signed
transaction, or else the one of the extra field. -/
def TransactionPrefix.sizedInfo (tx : TransactionPrefix) : Option ExtraAttachmentInfo :=
  (if tx.separatelySigned then tx.vin.getLast?.bind fun input => etcAttachmentInfo input.etcOptions
    else none).or (extraAttachmentInfo tx.extra)

/-- The info whose size counts covers all attachments, and one byte where there are none. -/
def SizeAnnounced (tx : Transaction) : Prop :=
  ∀ eai, tx.sizedInfo = some eai →
    eai.cnt = tx.attachment.length ∧ (tx.attachment = [] → eai.sz = 1)

/-- A stored transaction after its block was pruned. -/
def Transaction.pruned (tx : Transaction) : Transaction :=
  { tx with signatures := [], attachment := [] }

open Procedure

section PrunedSizes

variable {E : Env} {chain : Chain} {tx : Transaction}

/-! ## Bytes of numbers -/

theorem takeWhile_sizes (v k : Nat) :
    ((List.range' 2 k).takeWhile fun i => decide (2 ^ (7 * i) - 1 < v)).length =
      ((List.range' 1 k).takeWhile fun i => decide (2 ^ (7 * i) - 1 < v / 128)).length := by
  have shifted : List.range' 2 k = (List.range' 1 k).map (1 + ·) :=
    (List.map_add_range' 1 k 1).symm
  have same : (fun i => decide (2 ^ (7 * i) - 1 < v)) ∘ (1 + ·) =
      fun i => decide (2 ^ (7 * i) - 1 < v / 128) := by
    funext i
    have power : 2 ^ (7 * (1 + i)) = 128 * 2 ^ (7 * i) := by
      rw [Nat.mul_add, Nat.pow_add]
    have positive : 0 < 2 ^ (7 * i) := Nat.two_pow_pos _
    simp only [Function.comp_apply, power, decide_eq_decide]
    omega
  rw [shifted, List.takeWhile_map, List.length_map, same]

/-- The predicted bytes of a number are the ones that it is written with. -/
theorem getVarintPackedSize_eq {v : Nat} (fits : v < 2 ^ 70) :
    getVarintPackedSize v = (writeVarint v).length := by
  suffices general : ∀ k v, v < 2 ^ (7 * (k + 1)) → 1 + ((List.range' 1 k).takeWhile fun i =>
      decide (2 ^ (7 * i) - 1 < v)).length = (writeVarint v).length from general 9 v fits
  clear fits v
  intro k
  induction k with
  | zero =>
    intro v fits
    rw [writeVarint_small fits]
    rfl
  | succ k ih =>
    intro v fits
    have below : v / 128 < 2 ^ (7 * (k + 1)) := by
      rw [Nat.mul_succ 7 (k + 1), Nat.pow_add] at fits
      exact Nat.div_lt_of_lt_mul (by rwa [Nat.mul_comm])
    rw [List.range'_succ, List.takeWhile_cons]
    by_cases more : v ≥ 128
    · have counted : decide (2 ^ (7 * 1) - 1 < v) = true := decide_eq_true (by omega)
      rw [counted, if_pos rfl, List.length_cons, takeWhile_sizes, writeVarint_length_next more,
        ← ih (v / 128) below]
      omega
    · have uncounted : decide (2 ^ (7 * 1) - 1 < v) = false := decide_eq_false (by omega)
      rw [uncounted, writeVarint_small (Nat.lt_of_not_ge more)]
      rfl

/-! ## Bytes of signatures -/

theorem signatures_written {sigs : List Signature} {out : List UInt8}
    (write : Codec.writeItems Wire.signature.write sigs = some out) :
    out.length = 64 * sigs.length := by
  induction sigs generalizing out with
  | nil =>
    cases write
    rfl
  | cons sig sigs ih =>
    simp only [Codec.writeItems, Option.bind_eq_bind, Option.bind_eq_some_iff, Option.pure_def,
      Option.some.injEq] at write
    obtain ⟨front, first, back, rest, rfl⟩ := write
    cases first
    rw [List.length_append, ih rest, Codec.writeUint_length, List.length_cons]
    omega

/-- The signatures that the inputs are expected to have are written with the predicted bytes. -/
theorem signaturesBlobsize_written {separate : Bool} {inputs : List Txin}
    {signatures : List (List Signature)} {out : List UInt8}
    (same : signatures.length = inputs.length)
    (counts : ∀ i input sigs, inputs[i]? = some input → signatures[i]? = some sigs →
      sigs.length = input.expectedSignaturesCount +
        if separate && i == inputs.length - 1 then 1 else 0)
    (fits : ∀ sigs ∈ signatures, sigs.length < 2 ^ 64)
    (write : Codec.writeItems (Codec.vector Wire.signature).write signatures = some out) :
    out.length = signaturesBlobsize separate inputs := by
  induction inputs generalizing signatures out with
  | nil =>
    cases List.length_eq_zero_iff.mp same
    cases write
    rfl
  | cons input rest ih =>
    cases signatures with
    | nil => cases same
    | cons sigs others =>
      simp only [Codec.writeItems, Option.bind_eq_bind, Option.bind_eq_some_iff, Option.pure_def,
        Option.some.injEq] at write
      obtain ⟨front, first, back, write, rfl⟩ := write
      obtain ⟨items, written, rfl⟩ := Codec.vector_some.mp first
      have here := counts 0 input sigs rfl rfl
      have last : (0 == (input :: rest).length - 1) = rest.isEmpty := by
        cases rest <;> rfl
      have later := ih (Nat.succ.inj same) (fun i other sigs found signed => by
        have there := counts (i + 1) other sigs found signed
        have index : (i + 1 == (input :: rest).length - 1) = (i == rest.length - 1) := by
          have inside := (List.getElem?_eq_some_iff.mp found).1
          rw [List.length_cons, Bool.eq_iff_iff, beq_iff_eq, beq_iff_eq]
          omega
        rwa [index] at there) (fun sigs member => fits sigs (.tail _ member)) write
      have small := fits sigs (.head _)
      rw [last] at here
      rw [signaturesBlobsize, ← here, getVarintPackedSize_eq (by omega), List.length_append,
        List.length_append, signatures_written written, later]

/-! ## Bytes of attachments -/

/-- The size of a valid info is the size of the attachments exactly when it covers them all. -/
theorem info_size_iff (sizes : E.SizesWritten) {info : ExtraAttachmentInfo}
    {attachment : List PayloadItem} {lenient : Bool} {out : List UInt8}
    (valid : validateAttachmentInfo E (some info) attachment lenient = true)
    (write : (Codec.vector Wire.payloadItem).write attachment = some out) :
    info.sz = out.length ↔ info.cnt = attachment.length := by
  simp only [validateAttachmentInfo, Option.isNone_some, Bool.false_and, Bool.false_eq_true,
    ↓reduceIte, Option.isSome_some, Option.getD_some, Bool.and_eq_true, decide_eq_true_eq] at valid
  obtain ⟨⟨present, inside⟩, same⟩ := valid
  rcases Nat.lt_or_eq_of_le inside with fewer | whole
  · obtain ⟨front, written, shorter⟩ :=
      Codec.vector_take (Codec.productive_variant _ _) write fewer
    refine iff_of_false ?_ (Nat.ne_of_lt fewer)
    rw [same, getAttachmentExtraInfoDetails]
    split
    · have positive : 0 < out.length := by omega
      exact Nat.ne_of_lt positive
    · change E.attachmentBlobsize _ ≠ _
      rw [sizes.attachments _ front written]
      exact Nat.ne_of_lt shorter
  · refine iff_of_true ?_ whole
    have filled : attachment.isEmpty = false := by simpa using present.symm
    rw [whole, List.take_length, getAttachmentExtraInfoDetails, filled] at same
    rw [same]
    exact sizes.attachments attachment out write

/-! ## Accepted transactions -/

/-- Outside the checkpoint zone every checked input has the signatures it is expected to have. -/
theorem checkTxInput_signatures (outside : chain.isInCheckpointZone = false) {txId : Hash}
    {index : Nat} {input : Txin} {before after : Nat} (checked : !input.isGen)
    (accepted : checkTxInput E chain tx txId index input before = .ok () after) :
    ∃ sigs, tx.signatures[index]? = some sigs ∧ sigs.length = input.expectedSignaturesCount +
      if needToCheckExtraSign tx index then 1 else 0 := by
  simp only [checkTxInput, signaturesOfInput, outside, Bool.false_eq_true, ↓reduceIte,
    bind_ok, demand_ok] at accepted
  obtain ⟨sig, _, ⟨signed, rfl⟩, accepted⟩ := accepted
  cases input with
  | gen height => exact absurd checked (by simp [Txin.isGen])
  | toKey input =>
    simp only [bind_ok, require_ok, checkTxInputToKey] at accepted
    obtain ⟨_, _, _, _, _, _, keys, _, _, verified, _⟩ := accepted
    unfold checkTokeyInput at verified
    split at verified
    · exact absurd verified (by simp)
    · next counted =>
      simp only [outside, Bool.false_eq_true, ↓reduceIte, Bool.and_eq_true, beq_iff_eq] at verified
      refine ⟨sig, signed, ?_⟩
      rw [← verified.1.1.1.1.2, ← Decidable.not_not.mp counted]
      rfl
  | multisig input =>
    simp only [bind_ok, require_ok, checkTxInputMultisig] at accepted
    obtain ⟨ms, _, _, _, _, _, source, _, _, _, _, _, _, _, ⟨verified, _⟩, _⟩ := accepted
    unfold checkMsInput at verified
    rw [Bool.and_eq_true] at verified
    replace verified := verified.2
    split at verified
    · simp only [outside, Bool.false_or, Bool.and_eq_true, signed, beq_iff_eq] at verified
      obtain ⟨_, _, verified⟩ := verified
      exact ⟨sig, signed, verified.1.1.1.1.symm⟩
    · exact absurd verified (by simp)

/-- The inputs of a transaction that passed the stateless checks are all checked. -/
theorem checked_of_semantic {tx : TransactionPrefix} (semantic : checkTxSemantic E tx = true) :
    tx.vin ≠ [] ∧ ∀ input ∈ tx.vin, input.isGen = false := by
  simp only [checkTxSemantic, Bool.and_eq_true, Bool.not_eq_true', List.isEmpty_eq_false_iff,
    TransactionPrefix.checkInputsTypesSupported, List.all_eq_true] at semantic
  exact ⟨semantic.1.1.1.1.1.1, semantic.1.1.1.1.1.2⟩

theorem isCoinbase_of_checked {tx : TransactionPrefix}
    (checked : ∀ input ∈ tx.vin, input.isGen = false) : tx.isCoinbase = false := by
  unfold TransactionPrefix.isCoinbase
  split
  · next number rest vin =>
    have gen := checked (.gen number) (by rw [vin]; exact .head _)
    cases gen
  · rfl

theorem addInput_attachments {counts next : SignedCounts} {input : Txin}
    (added : counts.addInput input = some next) : counts.attachments ≤ next.attachments := by
  simp only [SignedCounts.addInput, Option.bind_eq_bind, Option.bind_eq_some_iff] at added
  obtain ⟨_, _, _, _, _, _, added⟩ := added
  split at added
  · simp only [Option.bind_eq_some_iff, Option.pure_def, Option.some.injEq,
      Option.guard_eq_some'] at added
    obtain ⟨_, more, rfl⟩ := added
    exact more
  · cases added
    exact Nat.le_refl _

/-- The attachments that the extra field counts are among the signed ones. -/
theorem signedCounts_attachments {index : Nat} {counts : SignedCounts}
    (signed : signedCounts tx index = some counts) :
    ((extraAttachmentInfo tx.extra).map ExtraAttachmentInfo.cnt).getD 0 ≤ counts.attachments := by
  unfold signedCounts at signed
  generalize tx.vin.take (index + 1) = inputs at signed
  generalize ((extraAttachmentInfo tx.extra).map ExtraAttachmentInfo.cnt).getD 0 = start at signed ⊢
  suffices general : ∀ before : SignedCounts,
      inputs.foldlM SignedCounts.addInput before = some counts →
        before.attachments ≤ counts.attachments from general _ signed
  clear signed
  intro before
  induction inputs generalizing before with
  | nil =>
    intro same
    cases same
    exact Nat.le_refl _
  | cons input rest ih =>
    intro signed
    obtain ⟨next, added, signed⟩ := Option.bind_eq_some_iff.mp signed
    exact (addInput_attachments added).trans (ih next signed)

/-- The size that counts for the attachments of an accepted transaction is theirs exactly when it
is announced right. -/
theorem attachments_size_iff (sizes : E.SizesWritten) (outside : chain.isInCheckpointZone = false)
    (semantic : checkTxSemantic E tx.toTransactionPrefix = true)
    (accepted : InputsAccepted E chain tx) {out : List UInt8}
    (write : (Codec.vector Wire.payloadItem).write tx.attachment = some out) :
    ((tx.sizedInfo.map ExtraAttachmentInfo.sz).getD 1) = out.length ↔ SizeAnnounced tx := by
  obtain ⟨nonempty, checked⟩ := checked_of_semantic semantic
  obtain ⟨⟨height, inputs⟩, _, attached⟩ := (inputsAccepted_outside outside tx).mp accepted
  have ofEmpty : tx.attachment = [] → out.length = 1 := by
    intro empty
    rw [empty] at write
    obtain ⟨items, written, rfl⟩ := Codec.vector_some.mp write
    cases written
    rw [List.length_nil, writeVarint_small (by decide)]
    rfl
  have ofInfo : ∀ {info lenient}, tx.sizedInfo = some info →
      validateAttachmentInfo E (some info) tx.attachment lenient = true →
      ((tx.sizedInfo.map ExtraAttachmentInfo.sz).getD 1 = out.length ↔ SizeAnnounced tx) := by
    intro info lenient found valid
    have filled : tx.attachment ≠ [] := by
      intro empty
      rw [empty] at valid
      simp [validateAttachmentInfo] at valid
    rw [SizeAnnounced, found]
    refine (info_size_iff sizes valid write).trans ⟨?_, ?_⟩
    · rintro whole _ ⟨⟩
      exact ⟨whole, fun empty => absurd empty filled⟩
    · exact fun announced => (announced info rfl).1
  have ofNone : tx.sizedInfo = none → tx.attachment = [] →
      ((tx.sizedInfo.map ExtraAttachmentInfo.sz).getD 1 = out.length ↔ SizeAnnounced tx) := by
    intro none empty
    rw [SizeAnnounced, none, ofEmpty empty]
    exact iff_of_true rfl fun _ impossible => by cases impossible
  cases separate : tx.separatelySigned with
  | false =>
    rw [separate, Bool.false_or] at attached
    have extra : tx.sizedInfo = extraAttachmentInfo tx.extra := by
      rw [TransactionPrefix.sizedInfo, separate]
      rfl
    cases found : extraAttachmentInfo tx.extra with
    | none =>
      rw [found] at attached extra
      exact ofNone extra (attachments_empty_of_no_info attached)
    | some info =>
      rw [found] at attached extra
      exact ofInfo extra attached
  | true =>
    have last := List.getLast?_eq_some_getLast nonempty
    generalize tx.vin.getLast nonempty = input at last
    have member : input ∈ tx.vin := List.mem_of_getLast? last
    have present : tx.vin[tx.vin.length - 1]? = some input := by
      rw [← List.getLast?_eq_getElem?, last]
    obtain ⟨_, _, final⟩ := checkTxInputsFrom_get inputs present
    rw [Nat.zero_add] at final
    obtain ⟨allowed, signable⟩ := checkTxInput_commits outside (by rw [checked input member]; rfl)
      final
    simp only [checkInputAttachments, separate, ↓reduceIte, bne_self_eq_false] at allowed
    have sized : tx.sizedInfo =
        (etcAttachmentInfo input.etcOptions).or (extraAttachmentInfo tx.extra) := by
      rw [TransactionPrefix.sizedInfo, separate, last]
      rfl
    cases found : etcAttachmentInfo input.etcOptions with
    | some info =>
      rw [found] at sized allowed
      exact ofInfo sized allowed
    | none =>
      rw [found] at sized allowed
      have empty := attachments_empty_of_no_info allowed
      cases extra : extraAttachmentInfo tx.extra with
      | none => exact ofNone (by rw [sized, extra]; rfl) empty
      | some info =>
        have uncounted : info.cnt = 0 := by
          obtain ⟨counts, signed, complete⟩ := signedCounts_of_signable separate nonempty signable
          have below := signedCounts_attachments signed
          rw [extra, complete, empty] at below
          exact Nat.le_zero.mp below
        rw [SizeAnnounced, sized, extra, ofEmpty empty, empty]
        constructor
        · rintro one _ ⟨⟩
          exact ⟨uncounted, fun _ => one⟩
        · exact fun announced => (announced info rfl).2 rfl

/-- The predicted size of an accepted transaction is the length of its blob exactly when the size of
its attachments is announced right. -/
theorem getObjectBlobsize_iff (sizes : E.SizesWritten) (outside : chain.isInCheckpointZone = false)
    (fits : tx.Fits) (semantic : checkTxSemantic E tx.toTransactionPrefix = true)
    (accepted : InputsAccepted E chain tx) {blob : List UInt8} (written : txToBlob tx = some blob) :
    getObjectBlobsize E tx.toTransactionPrefix = blob.length ↔ SizeAnnounced tx := by
  obtain ⟨nonempty, checked⟩ := checked_of_semantic semantic
  obtain ⟨⟨height, inputs⟩, signed, _⟩ := (inputsAccepted_outside outside tx).mp accepted
  simp only [txToBlob, Codec.toBlob, Wire.transaction, Codec.imap, Codec.seq, Option.bind_eq_bind,
    Option.bind_eq_some_iff, Option.pure_def, Option.some.injEq] at written
  obtain ⟨front, writtenPrefix, back, ⟨sigBytes, writtenSigs, attBytes, writtenAtts, rfl⟩, rfl⟩ :=
    written
  obtain ⟨sigItems, writtenItems, rfl⟩ := Codec.vector_some.mp writtenSigs
  have counts : ∀ i input sigs, tx.vin[i]? = some input → tx.signatures[i]? = some sigs →
      sigs.length = input.expectedSignaturesCount +
        if tx.separatelySigned && i == tx.vin.length - 1 then 1 else 0 := by
    intro i input sigs found present
    obtain ⟨_, _, final⟩ := checkTxInputsFrom_get inputs found
    rw [Nat.zero_add] at final
    obtain ⟨other, presentToo, count⟩ := checkTxInput_signatures outside
      (by rw [checked input (List.mem_of_getElem? found)]; rfl) final
    cases present.symm.trans presentToo
    exact count
  have few : tx.vin.length < 2 ^ 64 := fits.1.2.1.1
  have sigSize := signaturesBlobsize_written signed counts
    (fun sigs member => (fits.2.1.2 sigs member).1) writtenItems
  have announced := attachments_size_iff sizes outside semantic accepted writtenAtts
  have predicted : getObjectBlobsize E tx.toTransactionPrefix = front.length +
      ((writeVarint tx.signatures.length).length + sigItems.length) +
      (tx.sizedInfo.map ExtraAttachmentInfo.sz).getD 1 := by
    rw [getObjectBlobsize, isCoinbase_of_checked checked, sigSize, signed,
      if_neg Bool.false_ne_true, sizes.prefixes _ front writtenPrefix,
      getVarintPackedSize_eq (by omega), ← Nat.add_assoc]
    dsimp only
    split
    · next found => rw [TransactionPrefix.sizedInfo, found]; rfl
    · next missing => rw [TransactionPrefix.sizedInfo, missing]; rfl
  rw [predicted, ← announced]
  simp only [List.length_append]
  omega

/-! ## Two nodes -/

section TwoNodes

variable {points : Container Nat Hash} {node node' : Node}

theorem reward_of_valid {db : Db} {bl : Block} {size fee baseReward : Nat}
    (valid : validateMinerTransaction db bl size fee = some baseReward) :
    getBlockReward (isPosBlock bl) (median (db.getLastNBlocksSizes currencyRewardBlocksWindow)) size
      (getBlockHeight bl) = some baseReward := by
  unfold validateMinerTransaction at valid
  dsimp only at valid
  split at valid
  · next income reward _ rewarded =>
    rw [Option.ite_none_right_eq_some] at valid
    rw [rewarded, valid.2]
  · cases valid

/-- Two nodes find the same transactions under the ids that both have stored. -/
def SameTransactions (db db' : Db) : Prop :=
  ∀ id tx tx', db.storedTx id = some tx → db'.storedTx id = some tx' →
    tx.toTransactionPrefix = tx'.toTransactionPrefix

theorem blockTransactions_eq {db db' : Db} (same : SameTransactions db db') {bl : Block}
    (stored : ∀ id ∈ bl.txHashes, ∃ tx, db.storedTx id = some tx)
    (stored' : ∀ id ∈ bl.txHashes, ∃ tx, db'.storedTx id = some tx) :
    db.blockTransactions bl = db'.blockTransactions bl := by
  unfold Db.blockTransactions
  generalize bl.txHashes = ids at stored stored'
  induction ids with
  | nil => rfl
  | cons id rest ih =>
    obtain ⟨tx, found⟩ := stored id (.head _)
    obtain ⟨tx', found'⟩ := stored' id (.head _)
    rw [List.filterMap_cons_some found, List.filterMap_cons_some found', List.map_cons,
      List.map_cons, same id tx tx' found found',
      ih (fun id member => stored id (.tail _ member)) fun id member => stored' id (.tail _ member)]

theorem sameTransactions_of_lists {db db' : Db}
    (same : db.transactions.toList.map (fun entry => (entry.1, entry.2.tx.toTransactionPrefix)) =
      db'.transactions.toList.map fun entry => (entry.1, entry.2.tx.toTransactionPrefix)) :
    SameTransactions db db' := by
  intro id tx tx' stored stored'
  obtain ⟨entry, found, rfl⟩ := Option.map_eq_some_iff.mp stored
  obtain ⟨entry', found', rfl⟩ := Option.map_eq_some_iff.mp stored'
  have listed : (id, entry.tx.toTransactionPrefix) ∈ db'.transactions.toList.map
      fun entry => (entry.1, entry.2.tx.toTransactionPrefix) := by
    rw [← same]
    exact List.mem_map.mpr ⟨(id, entry), (Container.mem_toList _ _ _).mpr found, rfl⟩
  obtain ⟨⟨id', other⟩, member, equal⟩ := List.mem_map.mp listed
  obtain ⟨rfl, prefixes⟩ := Prod.mk.inj equal
  cases ((Container.mem_toList _ _ _).mp member).symm.trans found'
  exact prefixes.symm

/-- What a node computes for a block: its size and the coins generated up to it. -/
def computed (bei : BlockExtendedInfo) : Nat × Nat :=
  (bei.blockCumulativeSize, bei.alreadyGeneratedCoins)

theorem sizes_of_computed {blocks blocks' : List BlockExtendedInfo}
    (same : blocks.map computed = blocks'.map computed) :
    blocks.map BlockExtendedInfo.blockCumulativeSize =
      blocks'.map BlockExtendedInfo.blockCumulativeSize := by
  have sizes := congrArg (List.map Prod.fst) same
  rwa [List.map_map, List.map_map] at sizes

theorem lastSizes_of_computed {blocks blocks' : List BlockExtendedInfo}
    (same : blocks.map computed = blocks'.map computed) (count : Nat) :
    (blocks.drop (blocks.length - count)).map BlockExtendedInfo.blockCumulativeSize =
      (blocks'.drop (blocks'.length - count)).map BlockExtendedInfo.blockCumulativeSize := by
  have length := congrArg List.length (sizes_of_computed same)
  rw [List.length_map, List.length_map] at length
  rw [List.map_drop, List.map_drop, sizes_of_computed same, length]

/-- The size and the coins of a block follow from the block, its transactions and what was computed
for the blocks below it. -/
theorem computed_of_pays {below below' : List BlockExtendedInfo} {bei bei' : BlockExtendedInfo}
    {txs : List TransactionPrefix} {fees fees' : List Nat} (pays : Pays E below bei txs fees)
    (pays' : Pays { E with points } below' bei' txs fees') (same : bei.bl = bei'.bl)
    (beneath : below.map computed = below'.map computed) : computed bei = computed bei' := by
  have size : bei.blockCumulativeSize = bei'.blockCumulativeSize := by
    rw [pays.size, pays'.size, same]
    rfl
  obtain ⟨reward, valid, coins⟩ := pays.paysOut
  obtain ⟨reward', valid', coins'⟩ := pays'.paysOut
  have rewarded := reward_of_valid valid
  have rewarded' := reward_of_valid valid'
  simp only [Db.getLastNBlocksSizes] at rewarded rewarded'
  rw [lastSizes_of_computed beneath, size, same, rewarded'] at rewarded
  have last : below.getLast?.map BlockExtendedInfo.alreadyGeneratedCoins =
      below'.getLast?.map BlockExtendedInfo.alreadyGeneratedCoins := by
    have tops := congrArg (fun list => list.getLast?.map Prod.snd) beneath
    simp only [List.getLast?_map, Option.map_map] at tops
    exact tops
  rw [computed, computed, size, coins, coins', last, Option.some.inj rewarded]

/-- Two nodes with different checkpoints compute the same for the blocks that they share. -/
theorem computed_eq (built : Built E node.chain.db)
    (built' : Built { E with points } node'.chain.db)
    (same : SameTransactions node.chain.db node'.chain.db) {n : Nat}
    (shared : (node.chain.db.blocks.take n).map BlockExtendedInfo.bl =
      (node'.chain.db.blocks.take n).map BlockExtendedInfo.bl) :
    (node.chain.db.blocks.take n).map computed = (node'.chain.db.blocks.take n).map computed := by
  induction n with
  | zero => rfl
  | succ n ih =>
    have beneath := congrArg (List.take n) shared
    rw [← List.map_take, ← List.map_take, List.take_take, List.take_take,
      Nat.min_eq_left (Nat.le_succ n)] at beneath
    have top := congrArg (·[n]?) shared
    simp only [List.getElem?_map, List.getElem?_take_of_succ] at top
    rw [List.take_add_one, List.take_add_one, List.map_append, List.map_append, ih beneath]
    congr 1
    cases found : node.chain.db.blocks[n]? with
    | none =>
      rw [found, Option.map_none, eq_comm, Option.map_eq_none_iff] at top
      rw [top]
    | some bei =>
      rw [found, Option.map_some, eq_comm, Option.map_eq_some_iff] at top
      obtain ⟨bei', found', same'⟩ := top
      obtain ⟨stored, fees, pays⟩ := built.pays n bei found
      obtain ⟨stored', fees', pays'⟩ := built'.pays n bei' found'
      rw [same', ← blockTransactions_eq same stored (by rwa [← same'])] at pays'
      rw [found', Option.toList_some, Option.toList_some, List.map_singleton, List.map_singleton,
        computed_of_pays pays pays' same'.symm (ih beneath)]

end TwoNodes

/-- The predicted size of a transaction does not change when it is pruned, and for an accepted one
it is the length of its blob exactly when the size of its attachments is announced right. Two
nodes with different checkpoints, which therefore prune different transactions, compute the same
sizes, rewards and size limits for the blocks that they share. -/
theorem pruning_keepsSizes (sizes : E.SizesWritten) :
    (∀ (chain : Chain) (tx : Transaction) (blob : List UInt8), chain.isInCheckpointZone = false →
      tx.Fits → checkTxSemantic E tx.toTransactionPrefix = true → InputsAccepted E chain tx →
      txToBlob tx = some blob →
      ((getObjectBlobsize E tx.toTransactionPrefix = blob.length ∧
          getObjectBlobsize E tx.pruned.toTransactionPrefix =
            getObjectBlobsize E tx.toTransactionPrefix) ↔ SizeAnnounced tx)) ∧
    ∀ (points : Container Nat Hash) (node node' : Node) (n : Nat),
      (nodeSystem E anyBlock).Reachable node →
      (nodeSystem { E with points } anyBlock).Reachable node' →
      SameTransactions node.chain.db node'.chain.db →
      (node.chain.db.blocks.take n).map BlockExtendedInfo.bl =
        (node'.chain.db.blocks.take n).map BlockExtendedInfo.bl →
      (node.chain.db.blocks.take n).map computed = (node'.chain.db.blocks.take n).map computed ∧
        sizeLimit (node.chain.db.blocks.take n) = sizeLimit (node'.chain.db.blocks.take n) := by
  constructor
  · intro chain tx blob outside fits semantic accepted written
    rw [← getObjectBlobsize_iff sizes outside fits semantic accepted written]
    exact and_iff_left rfl
  · intro points node node' n reached reached' same shared
    have equal := computed_eq (NodeBuilt.reachable reached).1.built
      (NodeBuilt.reachable reached').1.built same shared
    refine ⟨equal, ?_⟩
    rw [sizeLimit, sizeLimit, lastSizes_of_computed equal]

end PrunedSizes

/-! ## A size that is announced wrong -/

namespace AnnouncedSize

/-- The environment with the sizes of what is written. -/
def withSizes (E : Env) : Env :=
  { E with
    prefixBlobsize tx := ((Wire.transactionPrefix.write tx).map List.length).getD 0
    attachmentBlobsize attachment :=
      (((Codec.vector Wire.payloadItem).write attachment).map List.length).getD 0 }

theorem withSizes_written (E : Env) : (withSizes E).SizesWritten where
  prefixes tx bytes written := by
    change ((Wire.transactionPrefix.write tx).map List.length).getD 0 = _
    rw [written]
    rfl
  attachments attachment bytes written := by
    change (((Codec.vector Wire.payloadItem).write attachment).map List.length).getD 0 = _
    rw [written]
    rfl

/-- The small environment where the id of a transaction tells how long its extra field is. -/
def env : Env := withSizes { Env.plain with prefixHash tx := ⟨tx.extra.length + 1⟩ }

/-- A spend of the only indexed output with a comment and an attachment info. -/
def spend (info : ExtraAttachmentInfo) : Transaction :=
  { OpenAttachments.spend [.txComment "note"] with
    version := 1
    extra := [.extraAttachmentInfo info] }

/-- The info covers no attachment. -/
def uncovered : Transaction := spend ⟨0, nullHash, 0⟩

/-- The info covers the comment. -/
def covered : Transaction := spend ⟨7, ⟨1⟩, 1⟩

theorem spend_fits {info : ExtraAttachmentInfo} (fits : info.Fits) : (spend info).Fits := by
  have note : FitsString "note" := by
    have chars : "note".toList = ['n', 'o', 't', 'e'] := by rfl
    rw [FitsString, chars]
    exact ⟨by simp, by simp⟩
  refine ⟨⟨?_, ?_, ?_, ?_⟩, ?_, ?_⟩
  · simp [spend]
  · simp [spend, OpenAttachments.spend, FitsList, Txin.Fits, TxinToKey.Fits, TxoutRef.Fits,
      KeyImage.Fits]
  · simp [spend, OpenAttachments.spend, FitsList, TxOut.Fits, TxoutTarget.Fits, TxoutToKey.Fits,
      PublicKey.Fits]
  · simp [spend, FitsList, PayloadItem.Fits, fits]
  · simp [spend, OpenAttachments.spend, FitsList, Signature.Fits]
  · simp [spend, OpenAttachments.spend, FitsList, PayloadItem.Fits, note]

theorem uncovered_accepted : InputsAccepted env OpenAttachments.chain uncovered := by
  unfold InputsAccepted
  decide

theorem covered_accepted : InputsAccepted env OpenAttachments.chain covered := by
  unfold InputsAccepted
  decide +kernel

/-- The written length and the predicted size of the comment's transaction. -/
theorem uncovered_sizes : (txToBlob uncovered).map List.length = some 192 ∧
    getObjectBlobsize env uncovered.toTransactionPrefix = 185 := by
  decide +kernel

theorem covered_blob : (txToBlob covered).isSome = true := by decide

/-- The comment is left out of the predicted size. -/
theorem size_wrong :
    ¬ ∀ (E : Env) (chain : Chain) (tx : Transaction) (blob : List UInt8), E.SizesWritten →
      chain.isInCheckpointZone = false → tx.Fits →
      checkTxSemantic E tx.toTransactionPrefix = true → InputsAccepted E chain tx →
      txToBlob tx = some blob → getObjectBlobsize E tx.toTransactionPrefix = blob.length := by
  intro claim
  obtain ⟨blob, written, length⟩ := Option.map_eq_some_iff.mp uncovered_sizes.1
  have same := claim env OpenAttachments.chain uncovered blob (withSizes_written _) rfl
    (spend_fits (by simp [ExtraAttachmentInfo.Fits, Hash.Fits, nullHash])) (by decide)
    uncovered_accepted written
  rw [uncovered_sizes.2, length] at same
  exact absurd same (by decide)

/-! ### Two nodes, one of which has a checkpoint on its top block -/

def prunedEnv : Env := { withSizes PaidFee.env with points := (∅ : Container Nat Hash).set 13 ⟨14⟩ }

def fullNode : Node :=
  (nodeSystem (withSizes PaidFee.env) anyBlock).after
    (addNewBlock (withSizes PaidFee.env) PaidFee.genesis (Node.fresh 1000000)).2 PaidFee.events

def prunedNode : Node :=
  (nodeSystem prunedEnv anyBlock).after
    (addNewBlock prunedEnv PaidFee.genesis (Node.fresh 1000000)).2 PaidFee.events

theorem nodes_started :
    (addNewBlock (withSizes PaidFee.env) PaidFee.genesis (Node.fresh 1000000)).1.2.addedToMainChain =
        true ∧
      (addNewBlock prunedEnv PaidFee.genesis (Node.fresh 1000000)).1.2.addedToMainChain = true := by
  decide +kernel

theorem fullNode_reachable :
    (nodeSystem (withSizes PaidFee.env) anyBlock).Reachable fullNode := by
  refine System.Reachable.after ?_ _
  exact .start ⟨PaidFee.genesis, 1000000, trivial, rfl, nodes_started.1, rfl⟩

theorem prunedNode_reachable : (nodeSystem prunedEnv anyBlock).Reachable prunedNode := by
  refine System.Reachable.after ?_ _
  exact .start ⟨PaidFee.genesis, 1000000, trivial, rfl, nodes_started.2, rfl⟩

/-- The nodes store the same transactions and blocks, and only the full node has kept the signatures
of the spend. -/
theorem nodes_agree :
    (fullNode.chain.db.transactions.toList.map
        (fun entry => (entry.1, entry.2.tx.toTransactionPrefix)) =
      prunedNode.chain.db.transactions.toList.map
        fun entry => (entry.1, entry.2.tx.toTransactionPrefix)) ∧
    ((fullNode.chain.db.blocks.take 14).map BlockExtendedInfo.bl =
      (prunedNode.chain.db.blocks.take 14).map BlockExtendedInfo.bl) ∧
    (fullNode.chain.db.storedTx ⟨101⟩).map Transaction.signatures = some [[⟨0⟩]] ∧
      (prunedNode.chain.db.storedTx ⟨101⟩).map Transaction.signatures = some [] := by
  decide +kernel

theorem covered_announced : SizeAnnounced covered := by
  intro eai found
  cases found
  exact ⟨rfl, fun empty => absurd empty (List.cons_ne_nil _ _)⟩

/-- The size of a covered comment is right, and the pruned node computes what the full one does. -/
theorem sizes_kept :
    (∃ blob, txToBlob covered = some blob ∧
      getObjectBlobsize env covered.toTransactionPrefix = blob.length) ∧
    (fullNode.chain.db.blocks.take 14).map computed =
      (prunedNode.chain.db.blocks.take 14).map computed := by
  constructor
  · obtain ⟨blob, written⟩ := Option.isSome_iff_exists.mp covered_blob
    have exact := (pruning_keepsSizes (withSizes_written _)).1 OpenAttachments.chain covered blob
      rfl (spend_fits (by simp [ExtraAttachmentInfo.Fits, Hash.Fits])) (by decide)
      covered_accepted written
    exact ⟨blob, written, (exact.mpr covered_announced).1⟩
  · exact ((pruning_keepsSizes (withSizes_written PaidFee.env)).2 _ fullNode prunedNode 14
      fullNode_reachable prunedNode_reachable (sameTransactions_of_lists nodes_agree.1)
      nodes_agree.2.1).1

end AnnouncedSize
end Virie
