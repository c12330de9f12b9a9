import Virie.Chainstate.PoolContents
import Virie.ZoneFlag

/-! # Where signatures are skipped

The checks of inputs skip signatures while the zone flag is set. When a block is connected the flag
is about the block's own height; between two events it is set only while the top block lies in the
checkpoint zone. So above the last checkpoint no relayed transaction enters the pool unverified. A
transaction that entered it below the last checkpoint keeps the block its inputs were checked
against, and counts as verified afterwards. -/

open Foundation

namespace Virie

open Procedure

/-! ## Verified signatures -/

/-- The signatures of a key input are verified. -/
structure RingSigned (E : Env) (tx : Transaction) (inIndex : Nat) (txin : TxinToKey)
    (txPrefixHash : Hash) (sig : List Signature) (outputKeys : List PublicKey) : Prop where
  count : sig.length = outputKeys.length + if needToCheckExtraSign tx inIndex then 1 else 0
  ring : E.checkRingSignature (preparePrefixHashForSign E tx inIndex txPrefixHash) txin.kImage
    outputKeys (sig.take outputKeys.length) = true
  extra : needToCheckExtraSign tx inIndex = true → ∃ last, sig.getLast? = some last ∧
    E.checkSignature txPrefixHash tx.getTxPubKeyFromExtra last = true

/-- The signatures of a multisig input are verified. -/
structure MultisigSigned (E : Env) (tx : Transaction) (inIndex : Nat) (txin : TxinMultisig)
    (txPrefixHash : Hash) (sig : List Signature) (keys : List PublicKey) : Prop where
  found : tx.signatures[inIndex]? = some sig
  count : sig.length = txin.sigsCount + if needToCheckExtraSign tx inIndex then 1 else 0
  signed : checkMultisigSignatures E (preparePrefixHashForSign E tx inIndex txPrefixHash) keys
    (sig.take txin.sigsCount) = true
  extra : needToCheckExtraSign tx inIndex = true → ∃ last, sig.getLast? = some last ∧
    E.checkSignature txPrefixHash tx.getTxPubKeyFromExtra last = true

section SkippedSignatures

variable {E : Env} {chain : Chain} {node node' : Node} {bl : Block} {id : Hash}

theorem extra_signed {extra : Bool} {sig : List Signature} {check : Signature → Bool}
    (verified : (!extra || (sig.getLast?.map check) == some true) = true)
    (needed : extra = true) : ∃ last, sig.getLast? = some last ∧ check last = true := by
  rw [needed, Bool.not_true, Bool.false_or, beq_iff_eq, Option.map_eq_some_iff] at verified
  exact verified

/-- Outside the zone an accepted key input is signed. -/
theorem checkTokeyInput_signed (outside : chain.isInCheckpointZone = false) {tx : Transaction}
    {inIndex : Nat} {txin : TxinToKey} {txPrefixHash : Hash} {sig : List Signature}
    {outputKeys : List PublicKey}
    (checked : checkTokeyInput E chain tx inIndex txin txPrefixHash sig outputKeys = true) :
    RingSigned E tx inIndex txin txPrefixHash sig outputKeys := by
  unfold checkTokeyInput at checked
  split at checked
  · cases checked
  · simp only [outside, Bool.false_eq_true, ↓reduceIte, Bool.and_eq_true, beq_iff_eq] at checked
    obtain ⟨⟨⟨⟨⟨_, count⟩, _⟩, _⟩, ring⟩, extra⟩ := checked
    exact ⟨count.symm, ring, extra_signed extra⟩

/-- Outside the zone an accepted multisig input is signed. -/
theorem checkMsInput_signed (outside : chain.isInCheckpointZone = false) {tx : Transaction}
    {inIndex : Nat} {txin : TxinMultisig} {txPrefixHash : Hash} {sourceTx : Transaction}
    {outN : Nat} (checked : checkMsInput E chain tx inIndex txin txPrefixHash sourceTx outN = true) :
    ∃ amount target sig, sourceTx.vout[outN]? = some ⟨amount, .multisig target⟩ ∧
      MultisigSigned E tx inIndex txin txPrefixHash sig target.keys := by
  unfold checkMsInput at checked
  rw [Bool.and_eq_true] at checked
  obtain ⟨_, checked⟩ := checked
  split at checked
  · next amount target source =>
    simp only [outside, Bool.false_or, Bool.and_eq_true] at checked
    obtain ⟨_, _, checked⟩ := checked
    split at checked
    · cases checked
    · next sig found =>
      simp only [Bool.and_eq_true, beq_iff_eq] at checked
      obtain ⟨⟨⟨⟨count, _⟩, _⟩, signed⟩, extra⟩ := checked
      exact ⟨amount, target, sig, source, found, count.symm, signed, extra_signed extra⟩
  · cases checked

/-- Both checks accept no unsigned input, except while a height lies in the checkpoint zone. -/
def VerifiesOutside (E : Env) (chain : Chain) (height : Nat) : Prop :=
  (∀ tx inIndex txin txPrefixHash sig outputKeys,
    checkTokeyInput E chain tx inIndex txin txPrefixHash sig outputKeys = true →
    isInCheckpointZone E height = true ∨
      RingSigned E tx inIndex txin txPrefixHash sig outputKeys) ∧
  ∀ tx inIndex txin txPrefixHash sourceTx outN,
    checkMsInput E chain tx inIndex txin txPrefixHash sourceTx outN = true →
    isInCheckpointZone E height = true ∨
      ∃ amount target sig, sourceTx.vout[outN]? = some ⟨amount, .multisig target⟩ ∧
        MultisigSigned E tx inIndex txin txPrefixHash sig target.keys

theorem verifiesOutside_of_flag {height : Nat}
    (flag : chain.isInCheckpointZone = true → isInCheckpointZone E height = true) :
    VerifiesOutside E chain height := by
  cases set : chain.isInCheckpointZone with
  | true => exact ⟨fun _ _ _ _ _ _ _ => .inl (flag set), fun _ _ _ _ _ _ _ => .inl (flag set)⟩
  | false =>
    exact ⟨fun _ _ _ _ _ _ checked => .inr (checkTokeyInput_signed set checked),
      fun _ _ _ _ _ _ checked => .inr (checkMsInput_signed set checked)⟩

/-! ## Connecting a block -/

/-- The states a node goes through when it connects a block, from the checks of the header on. The
transactions may come in any order. -/
inductive Connecting (E : Env) (bl : Block) (id : Hash) (node : Node) : Node → Prop
  | header {checked : Nat × Hash} {midway : Node}
      (run : onChain (checkBlockHeader E bl id) node = .ok checked midway) :
      Connecting E bl id node midway
  | coinbase {midway next : Node} (before : Connecting E bl id node midway) {txId : Hash}
      {height timestamp : Nat}
      (run : onChain (addTransactionFromBlock E bl.minerTx txId id height timestamp) midway =
        .ok () next) :
      Connecting E bl id node next
  | transaction {midway next : Node} (before : Connecting E bl id node midway) {height : Nat}
      {totals result : BlockTotals} {txId : Hash}
      (run : connectTransaction E bl id height totals txId midway = .ok result next) :
      Connecting E bl id node next

/-- While a block is connected the flag says whether its own height lies in the zone. -/
theorem Connecting.flag {midway : Node} (connecting : Connecting E bl id node midway) :
    midway.chain.isInCheckpointZone = isInCheckpointZone E node.chain.db.blocks.length := by
  induction connecting with
  | header run =>
    obtain ⟨chain, header, rfl⟩ := onChain_ok.mp run
    exact checkBlockHeader_ok_flag header
  | @coinbase midway next _ txId height timestamp run ih =>
    obtain ⟨chain, added, rfl⟩ := onChain_ok.mp run
    have kept := (preserves_addTransactionFromBlock (P := fun _ _ => True)
      (J := fun frame => frame.isInCheckpointZone = midway.chain.isInCheckpointZone) id height
      timestamp trivial).of_ok added ⟨fun _ _ _ => trivial, rfl⟩
    exact kept.2.trans ih
  | transaction _ run ih =>
    obtain ⟨_, _, _, _, same⟩ := connectTransaction_ok run
    exact same.trans ih

/-- The stake of an accepted proof-of-stake block is signed unless the height of the block lies in
the zone. -/
theorem stakeSigned {checked : Nat × Hash} {chain' : Chain} (staked : isPosBlock bl = true)
    (run : checkBlockHeader E bl id chain = .ok checked chain') :
    ∃ input keys, coinstakeInput bl = some input ∧
      (isInCheckpointZone E chain.db.blocks.length = true ∨
        RingSigned E bl.minerTx 1 input id (bl.minerTx.signatures.getD 0 []) keys) := by
  simp only [checkBlockHeader, bind_ok, get_ok, require_ok, set_ok, reading_ok,
    getNextDiffConditional_ok, pure_ok] at run
  obtain ⟨_, _, ⟨rfl, rfl⟩, _, _, ⟨_, rfl⟩, _, _, ⟨_, rfl⟩, _, _, rfl, _, _, ⟨_, rfl⟩, _, _,
    ⟨_, rfl⟩, _, _, ⟨_, rfl⟩, _, _, ⟨_, rfl⟩, _, _, ⟨proved, rfl⟩, _⟩ := run
  rw [blockProof, staked, if_pos rfl] at proved
  simp only [validatePosBlock, Outcome.bind_ok, Outcome.demand_ok, Bool.false_eq_true,
    ↓reduceIte] at proved
  obtain ⟨_, _, _, _, input, found, _, _, _, _, _, _, _, _, _, _, _, _, _, _, proved⟩ := proved
  split at proved
  · next accepted =>
    simp only [checkTxInputToKey, bind_ok, require_ok] at accepted
    obtain ⟨keys, _, _, verified, _⟩ := accepted
    exact ⟨input, keys, found, (verifiesOutside_of_flag (fun flag => flag)).1 _ _ _ _ _ _ verified⟩
  · simp only [Outcome.bind_ok, Outcome.throw_ok, false_and, exists_false] at proved

/-! ## Entering the pool -/

/-- The signatures of one input are verified. -/
def InputSigned (E : Env) (tx : Transaction) (txPrefixHash : Hash) (inIndex : Nat) : Txin → Prop
  | .gen _ => True
  | .toKey txin => ∃ sig outputKeys, tx.signatures[inIndex]? = some sig ∧
      RingSigned E tx inIndex txin txPrefixHash sig outputKeys
  | .multisig txin => ∃ sig keys, MultisigSigned E tx inIndex txin txPrefixHash sig keys

/-- The signatures of all inputs are verified. -/
def InputsSigned (E : Env) (tx : Transaction) (txPrefixHash : Hash) : Prop :=
  ∀ inIndex input, tx.vin[inIndex]? = some input → InputSigned E tx txPrefixHash inIndex input

theorem checkTxInput_signed (outside : chain.isInCheckpointZone = false) {tx : Transaction}
    {txId : Hash} {index : Nat} {input : Txin} {before after : Nat}
    (accepted : checkTxInput E chain tx txId index input before = .ok () after) :
    InputSigned E tx txId index input := by
  rw [checkTxInput, signaturesOfInput, outside, if_neg Bool.false_ne_true] at accepted
  obtain ⟨sig, _, demanded, accepted⟩ := bind_ok.mp accepted
  have found := (demand_ok.mp demanded).1
  cases input with
  | gen height => trivial
  | toKey input =>
    simp only [bind_ok, require_ok, checkTxInputToKey] at accepted
    obtain ⟨_, _, _, _, _, _, keys, _, _, verified, _⟩ := accepted
    exact ⟨sig, keys, found, checkTokeyInput_signed outside verified⟩
  | multisig input =>
    simp only [bind_ok, require_ok, checkTxInputMultisig] at accepted
    obtain ⟨ms, _, _, _, _, _, source, _, _, _, _, _, _, _, ⟨verified, _⟩, _⟩ := accepted
    obtain ⟨_, target, sig, _, signed⟩ := checkMsInput_signed outside verified
    exact ⟨sig, target.keys, signed⟩

theorem checkTxInputsFrom_signed (outside : chain.isInCheckpointZone = false) {tx : Transaction}
    {txId : Hash} {sigIndex : Nat} {inputs : List Txin} {before after : Nat}
    (accepted : checkTxInputsFrom E chain tx txId sigIndex inputs before = .ok () after) :
    ∀ k input, inputs[k]? = some input → InputSigned E tx txId (sigIndex + k) input := by
  induction inputs generalizing sigIndex before with
  | nil =>
    intro k input found
    cases found
  | cons first rest ih =>
    obtain ⟨_, middle, head, others⟩ := bind_ok.mp accepted
    intro k input found
    cases k with
    | zero =>
      obtain rfl := Option.some.inj found
      exact checkTxInput_signed outside head
    | succ k =>
      have signed := ih others k input found
      rw [Nat.add_assoc, Nat.add_comm 1 k] at signed
      exact signed

/-- Outside the zone a transaction with accepted inputs is signed. -/
theorem checkTxInputsWithBlock_signed (outside : chain.isInCheckpointZone = false)
    {tx : Transaction} {txId blockId : Hash} {before after : Nat}
    (accepted : checkTxInputsWithBlock E chain tx txId before = .ok blockId after) :
    InputsSigned E tx txId := by
  obtain ⟨_, _, checked, _⟩ := bind_ok.mp accepted
  obtain ⟨_, _, _, checked⟩ := bind_ok.mp checked
  obtain ⟨_, _, from_, _⟩ := bind_ok.mp checked
  intro inIndex input found
  have signed := checkTxInputsFrom_signed outside from_ inIndex input found
  rwa [Nat.zero_add] at signed

/-- The entries of a pool that are not in another one record no block or are signed. -/
def RecordsSigned (E : Env) (before : Pool) (node : Node) : Prop :=
  node.chain.isInCheckpointZone = false ∧ ∀ id txe, node.pool.transactions.get id = some txe →
    before.transactions.get id = some txe ∨ txe.maxUsedBlockId = nullHash ∨
      InputsSigned E txe.tx id

section Entering

variable {before : Pool}

theorem preserves_onChain_records {α : Type} {body : ChainM α}
    (keeps : Preserves (fun chain => True ∧ chain.frame.isInCheckpointZone = false) body) :
    Preserves (RecordsSigned E before) (onChain body) :=
  preserves_within fun node holds => ⟨(keeps node.chain ⟨trivial, holds.1⟩).2, holds.2⟩

theorem preserves_doInsertTransaction_records {tx : Transaction} {blockId : Hash}
    (signed : blockId = nullHash ∨ InputsSigned E tx id) (blobSize : Nat) (keptByBlock : Bool)
    (fee blockHeight : Nat) :
    Preserves (RecordsSigned E before)
      (doInsertTransaction tx id blobSize keptByBlock fee blockId blockHeight) := by
  intro node holds
  rw [doInsertTransaction_eq]
  refine ⟨holds.1, fun other txe found => ?_⟩
  change (node.pool.transactions.set id _).get other = some txe at found
  rw [Container.get_set] at found
  split at found
  · next same =>
    obtain rfl := Option.some.inj found
    exact .inr (same ▸ signed)
  · exact holds.2 other txe found

theorem preserves_addTx_records (tx : Transaction) (minFee : Nat) (keptByBlock fromCore : Bool) :
    Preserves (RecordsSigned E before) (addTx E tx minFee keptByBlock fromCore) := by
  refine preserves_get_bind fun node _ => preserves_bind (preserves_require _) fun _ =>
    preserves_bind (preserves_onlyIf ?_) fun _ => preserves_bind (preserves_demand _ _) fun _ =>
    preserves_bind (preserves_onlyIf ?_) fun _ => preserves_bind (preserves_onlyIf ?_) fun _ =>
    preserves_bind ?_ fun _ => preserves_bind (preserves_reading _) fun _ =>
    preserves_ite (fun _ => preserves_pure _) fun _ => preserves_get_bind fun node holds => ?_
  · exact preserves_bind (preserves_onChain_records (preserves_isTxExpired (I := fun _ => True)
      (J := fun frame => frame.isInCheckpointZone = false) _)) fun _ =>
      preserves_require _
  · unfold validateAliasInfo
    split
    · exact preserves_pure ()
    · exact preserves_ite (fun _ => preserves_pure ()) fun _ => preserves_get_bind fun _ _ =>
        preserves_bind (preserves_require _) fun _ => preserves_bind (preserves_require _)
        fun _ => preserves_bind (preserves_require _) fun _ => preserves_bind (preserves_require _)
        fun _ => preserves_onChain_records (preserves_prevalidateAliasInfo (I := fun _ => True)
        (J := fun frame => frame.isInCheckpointZone = false) _ _)
  · exact preserves_get_bind fun _ _ => preserves_bind (preserves_require _) fun _ =>
      preserves_require _
  · refine preserves_get_bind fun _ _ => ?_
    split
    · exact preserves_bind (preserves_modify fun _ holds => holds) fun _ => preserves_pure _
    · exact preserves_pure _
  · split
    · exact preserves_throw _
    · exact preserves_bind (preserves_require _) fun _ => preserves_bind
        (preserves_doInsertTransaction_records (.inl rfl) _ _ _ _) fun _ => preserves_pure _
    · next blockId _ checked =>
      exact preserves_bind (preserves_doInsertTransaction_records
        (.inr (checkTxInputsWithBlock_signed holds.1 checked)) _ _ _ _) fun _ => preserves_pure _

/-- A relayed transaction that enters the pool while the flag is not set records no block or is
signed. -/
theorem preserves_handleIncomingTx_records (tx : Transaction) (blobSize : Nat)
    (keptByBlock : Bool) :
    Preserves (RecordsSigned E before) (handleIncomingTx E tx blobSize keptByBlock) :=
  preserves_get_bind fun _ _ => preserves_bind (preserves_require _) fun _ =>
    preserves_bind (preserves_require _) fun _ => preserves_bind (preserves_require _) fun _ =>
    preserves_get_bind fun _ _ => preserves_ite (fun _ => preserves_pure ()) fun _ =>
    preserves_bind (preserves_addTx_records _ _ _ _) fun _ => preserves_pure _

end Entering

/-! ## Runs -/

end SkippedSignatures

/-! ## A transaction from below the last checkpoint -/

namespace LastCheckpoint

/-- Ids tell the heights of blocks, and ring signatures are all valid or all invalid. -/
def env (valid : Bool) : Env :=
  { Env.plain with
    prefixHash := fun tx => ⟨Nat.pair tx.version tx.getBlockHeight⟩
    treeHash := fun hashes => hashes.headD nullHash
    blockBlobHash := fun _ root _ => root
    checkRingSignature := fun _ _ _ _ => valid
    points := (∅ : Container Nat Hash).set 12 ⟨Nat.pair 13 12⟩ }

theorem heightsNamed (valid : Bool) : HeightsNamed (env valid) := by
  intro bl other same
  have pairs : Nat.pair bl.minerTx.version (getBlockHeight bl) =
      Nat.pair other.minerTx.version (getBlockHeight other) := congrArg Hash.val same
  exact (Nat.pair_eq_pair.mp pairs).2

def genesis : Block := .plain 1 0 premineAmount nullHash []

def mined (height : Nat) : Block :=
  { Block.plain (height + 1) height coin ⟨Nat.pair height (height - 1)⟩ [] with
    timestamp := 120 * height }

/-- A node with a number of blocks above the genesis block; the twelfth is the checkpoint. -/
def synced (valid : Bool) (top : Nat) : Node :=
  (nodeSystem (env valid) anyBlock).after
    (addNewBlock (env valid) genesis (Node.fresh 1000000)).2
    ((List.range' 1 top).map fun height => Event.submitBlock (mined height))

theorem synced_reachable (valid : Bool) (top : Nat) :
    (nodeSystem (env valid) anyBlock).Reachable (synced valid top) := by
  refine System.Reachable.after ?_ _
  refine .start ⟨genesis, 1000000, trivial, rfl, ?_, rfl⟩
  cases valid <;> decide +kernel

/-- A transaction that spends the first coin. -/
def spend : Transaction where
  version := 101
  vin := [.toKey
    { amount := coin
      keyOffsets := [.index 0]
      kImage := ⟨5⟩
      etcDetails := [] }]
  vout := [⟨coin - txMinimumFee, .toKey ⟨⟨7⟩, 0⟩⟩]
  extra := []
  signatures := [[⟨0⟩]]
  attachment := []

def spendId : Hash := ⟨Nat.pair 101 0⟩

/-- The transaction comes in above the checkpoint, with a valid signature. -/
def relayed : Node := step (env true) (.incomingTx spend 100 false) (synced true 13)

def relayedEntry : TxDetails := (relayed.pool.transactions.get spendId).getD default

end LastCheckpoint

open LastCheckpoint

theorem relayed_entered : (step (env true) (.incomingTx spend 100 false)
    (synced true 13)).pool.transactions.get spendId = some relayedEntry := by
  decide +kernel

/-- The transaction comes in when the checkpoint is the top block, unsigned, and then a block above
the checkpoint is connected. -/
def smuggled : Node :=
  (nodeSystem (env false) anyBlock).after (synced false 12)
    [.incomingTx spend 100 false, .submitBlock (mined 13)]

def smuggledEntry : TxDetails := (smuggled.pool.transactions.get spendId).getD default

end Virie
