import Virie.Chainstate.Running
import Virie.Foundation.RunningMaximum

/-! # The height that the check of inputs reports

The check of a transaction's inputs reports the height of the newest block that they use, so
that the pool can tell whether the transaction has to be checked again. Key inputs raise the
height, a multisig input replaces it. The report is the highest of all heights exactly when no
multisig input replaces a height that is above all heights from there on, and the blocks that
the transaction depends on are then still there as long as the reported block is. -/

open Foundation

namespace Virie

/-- The height of the block with the output that a reference of an input of an amount is to. -/
def Db.keeperHeight (db : Db) (amount : Nat) (o : TxoutRef) : Option Nat :=
  match db.resolveOutput amount o with
  | .ok (txId, _) => (db.transactions.get txId).map TransactionChainEntry.keeperBlockHeight
  | .error _ => none

/-- The heights of the blocks with the outputs that an input refers to. -/
def Db.sourceHeights (db : Db) : Txin → List Nat
  | .gen _ => []
  | .toKey input =>
    match relativeOutputOffsetsToAbsolute input.keyOffsets with
    | .ok absolute => absolute.filterMap (db.keeperHeight input.amount)
    | .error _ => []
  | .multisig input => (((db.multisigOuts.get input.multisigOutId).bind fun ms =>
      db.transactions.get ms.txId).map TransactionChainEntry.keeperBlockHeight).toList

/-- The heights of the blocks that a transaction depends on. -/
def Db.dependencyHeights (db : Db) (tx : TransactionPrefix) : List Nat :=
  tx.vin.flatMap db.sourceHeights

/-- No multisig input comes after a height that is above all heights from this input on. -/
def Db.NoneForgotten (db : Db) (tx : TransactionPrefix) : Prop :=
  ∀ earlier input later, tx.vin = earlier ++ .multisig input :: later →
    highest (earlier.flatMap db.sourceHeights) ≤
      highest ((Txin.multisig input :: later).flatMap db.sourceHeights)

/-- The ids of blocks determine the blocks below. -/
def PinsPrevious (E : Env) : Prop :=
  ∀ a b : Block, getBlockHash E a = getBlockHash E b → a.prevId = b.prevId

open Procedure

section Heights

variable {E : Env} {chain : Chain} {tx : Transaction} {txId : Hash} {before after : Nat}

/-! ## One input -/

theorem Chain.Scans.keeperHeight {txin : TxinToKey} {o : TxoutRef} {id : Hash} {n amount : Nat}
    {entry : TransactionChainEntry} {out : TxoutToKey}
    (scans : chain.Scans txin o id n entry amount out) :
    chain.db.keeperHeight txin.amount o = some entry.keeperBlockHeight := by
  rw [Db.keeperHeight, scans.resolved]
  dsimp only
  rw [scans.found]
  rfl

theorem scanOutputkeys_height {txin : TxinToKey} {offsets : List TxoutRef}
    {keys : List PublicKey} (run : scanOutputkeys chain txin offsets before = .ok keys after) :
    after = max before (highest (offsets.filterMap (chain.db.keeperHeight txin.amount))) := by
  induction offsets generalizing before keys with
  | nil => exact (pure_ok.mp run).2.symm.trans (Nat.max_zero before).symm
  | cons o offsets ih =>
    simp only [scanOutputkeys, bind_ok, pure_ok] at run
    obtain ⟨_, middle, first, rest, _, others, _, rfl⟩ := run
    obtain ⟨id, n, entry, amount, out, scans, _, rfl⟩ := scanOutputkey_ok.mp first
    rw [List.filterMap_cons_some scans.keeperHeight, highest_cons, ← max_assoc]
    exact ih others

/-- A key input raises the height, a multisig input replaces it. -/
theorem checkTxInput_height {index : Nat} {input : Txin}
    (accepted : checkTxInput E chain tx txId index input before = .ok () after) :
    after = if input.spentMultisigId.isSome then highest (chain.db.sourceHeights input)
      else max before (highest (chain.db.sourceHeights input)) := by
  simp only [checkTxInput, bind_ok] at accepted
  obtain ⟨sig, middle, signed, accepted⟩ := accepted
  have unread : middle = before := by
    unfold signaturesOfInput at signed
    split at signed
    · exact (pure_ok.mp signed).2.symm
    · exact (demand_ok.mp signed).2.symm
  subst unread
  cases input with
  | gen height => exact (pure_ok.mp accepted).2.symm.trans (Nat.max_zero _).symm
  | toKey input =>
    simp only [bind_ok, require_ok, checkTxInputToKey, getOutputKeysForInputWithChecks,
      scanOutputkeysForIndexes, reading_ok] at accepted
    obtain ⟨_, _, ⟨_, rfl⟩, _, _, ⟨_, rfl⟩, keys, _, ⟨_, _, ⟨_, rfl⟩, absolute, _,
      ⟨offsets, rfl⟩, scanned⟩, _, rfl⟩ := accepted
    rw [if_neg (by simp [Txin.spentMultisigId]), Db.sourceHeights, offsets]
    exact scanOutputkeys_height scanned
  | multisig input =>
    simp only [checkTxInputMultisig, bind_ok, demand_ok, require_ok, set_ok] at accepted
    obtain ⟨ms, _, ⟨present, rfl⟩, _, _, ⟨_, rfl⟩, source, _, ⟨found, rfl⟩, _, _,
      ⟨_, rfl⟩, _, _, ⟨_, rfl⟩, rfl⟩ := accepted
    rw [if_pos (by simp [Txin.spentMultisigId]), Db.sourceHeights, present]
    dsimp only [Option.bind_some]
    rw [found]
    exact (Nat.max_zero _).symm

/-! ## All inputs -/

theorem checkTxInputsFrom_height {inputs : List Txin} {index : Nat}
    (accepted : checkTxInputsFrom E chain tx txId index inputs before = .ok () after) :
    after = runningMax (fun input : Txin => input.spentMultisigId.isSome) chain.db.sourceHeights
      before inputs := by
  induction inputs generalizing index before with
  | nil => exact (pure_ok.mp accepted).2.symm
  | cons input inputs ih =>
    simp only [checkTxInputsFrom, bind_ok] at accepted
    obtain ⟨_, middle, first, rest⟩ := accepted
    rw [ih rest, checkTxInput_height first]
    rfl

theorem checkTxInputs_height
    (accepted : checkTxInputs E chain tx txId before = .ok () after) :
    after = runningMax (fun input : Txin => input.spentMultisigId.isSome) chain.db.sourceHeights
      0 tx.vin := by
  simp only [checkTxInputs, bind_ok, set_ok] at accepted
  obtain ⟨_, _, rfl, _, middle, checked, ended⟩ := accepted
  rw [← checkTxInputsFrom_height checked]
  split at ended
  · exact (pure_ok.mp ended).2.symm
  · simp only [bind_ok, require_ok] at ended
    obtain ⟨_, _, ⟨_, rfl⟩, _, rfl⟩ := ended
    rfl

/-- An accepted transaction has the highest height of its dependencies reported exactly when no
multisig input replaces a higher one. -/
theorem reported_eq_highest_iff
    (accepted : checkTxInputs E chain tx txId before = .ok () after) :
    after = highest (chain.db.dependencyHeights tx.toTransactionPrefix) ↔
      chain.db.NoneForgotten tx.toTransactionPrefix := by
  have reaches := runningMax_eq_iff (fun input : Txin => input.spentMultisigId.isSome)
    chain.db.sourceHeights 0 tx.vin
  rw [← checkTxInputs_height accepted, Nat.zero_max] at reaches
  refine reaches.trans ?_
  constructor
  · intro kept earlier input later split
    exact (le_max_right _ _).trans (kept earlier (.multisig input) later split rfl)
  · intro kept earlier input later split resets
    rw [Nat.zero_max]
    cases input with
    | gen height => cases resets
    | toKey input => cases resets
    | multisig input => exact kept earlier input later split

/-! ## The blocks below a block -/

/-- Chains that have the same block at a height have the same blocks below. -/
theorem Linked.same_below (pins : PinsPrevious E) {first second : List BlockExtendedInfo}
    (linked : Linked E first) (linkedToo : Linked E second) {height : Nat}
    {bei kept : BlockExtendedInfo} (found : first[height]? = some bei)
    (foundToo : second[height]? = some kept)
    (same : getBlockHash E kept.bl = getBlockHash E bei.bl) {lower : Nat} (below : lower ≤ height) :
    ∃ below keptBelow, first[lower]? = some below ∧ second[lower]? = some keptBelow ∧
      getBlockHash E keptBelow.bl = getBlockHash E below.bl := by
  induction height generalizing bei kept with
  | zero =>
    rw [Nat.le_zero.mp below]
    exact ⟨bei, kept, found, foundToo, same⟩
  | succ height ih =>
    rcases Nat.lt_or_ge height lower with top | inside
    · rw [show lower = height + 1 by omega]
      exact ⟨bei, kept, found, foundToo, same⟩
    · obtain ⟨prev, present, names⟩ := (linked _ bei found).2 height rfl
      obtain ⟨keptPrev, presentToo, namesToo⟩ := (linkedToo _ kept foundToo).2 height rfl
      refine ih present presentToo ?_ inside
      rw [← names, ← namesToo]
      exact pins _ _ same

/-- The blocks that a transaction depends on. -/
theorem kept_of_reported {node later : Node} (pins : PinsPrevious E)
    (reached : (nodeSystem E anyBlock).Reachable node)
    (reachedLater : (nodeSystem E anyBlock).Reachable later) {blockId : Hash}
    (accepted : checkTxInputsWithBlock E node.chain tx txId before = .ok blockId after)
    (none : node.chain.db.NoneForgotten tx.toTransactionPrefix)
    (inside : after < later.chain.db.getCurrentBlockchainSize)
    (skips : later.chain.db.getBlockIdByHeight E after = blockId) {height : Nat}
    (depends : height ∈ node.chain.db.dependencyHeights tx.toTransactionPrefix) :
    ∃ bei kept, node.chain.db.blocks[height]? = some bei ∧
      later.chain.db.blocks[height]? = some kept ∧
      getBlockHash E kept.bl = getBlockHash E bei.bl := by
  simp only [checkTxInputsWithBlock, bind_ok, get_ok, demand_ok, pure_ok] at accepted
  obtain ⟨_, _, checked, _, _, ⟨rfl, rfl⟩, bei, _, ⟨found, rfl⟩, rfl, rfl⟩ := accepted
  have lower := le_highest depends
  rw [← (reported_eq_highest_iff checked).mpr none] at lower
  have foundToo := List.getElem?_eq_getElem inside
  rw [Db.getBlockIdByHeight, foundToo] at skips
  exact Linked.same_below pins (NodeBuilt.reachable reached).1.built.linked
    (NodeBuilt.reachable reachedLater).1.built.linked found foundToo skips lower

variable (E) in
/-- For every transaction that the check of inputs accepts, the reported height is the highest
height of the blocks with the outputs it refers to exactly when no multisig input replaces a
height above all heights from there on. The blocks that the transaction depends on are then in
every later chain that still has the reported block. -/
theorem reportedHeight_iff :
    (∀ (chain : Chain) (tx : Transaction) (txId : Hash) (before reported : Nat),
      checkTxInputs E chain tx txId before = .ok () reported →
      (reported = highest (chain.db.dependencyHeights tx.toTransactionPrefix) ↔
        chain.db.NoneForgotten tx.toTransactionPrefix)) ∧
    (PinsPrevious E → ∀ node later : Node, (nodeSystem E anyBlock).Reachable node →
      (nodeSystem E anyBlock).Reachable later →
      ∀ (tx : Transaction) (txId blockId : Hash) (before reported : Nat),
      checkTxInputsWithBlock E node.chain tx txId before = .ok blockId reported →
      node.chain.db.NoneForgotten tx.toTransactionPrefix →
      reported < later.chain.db.getCurrentBlockchainSize →
      later.chain.db.getBlockIdByHeight E reported = blockId →
      ∀ height ∈ node.chain.db.dependencyHeights tx.toTransactionPrefix,
        ∃ bei kept, node.chain.db.blocks[height]? = some bei ∧
          later.chain.db.blocks[height]? = some kept ∧
          getBlockHash E kept.bl = getBlockHash E bei.bl) := by
  constructor
  · intro chain tx txId before reported accepted
    exact reported_eq_highest_iff accepted
  · intro pins node later reached reachedLater tx txId blockId before reported accepted none inside
      skips height depends
    exact kept_of_reported pins reached reachedLater accepted none inside skips depends

end Heights

/-! ## A multisig input after a key input -/

namespace OlderMultisig

/-- The id of a block determines the id of the block below. -/
def env : Env :=
  { Env.plain with
    blockBlobHash := fun header _ _ => ⟨header.prevId.val * 1000 + header.nonce % 1000⟩ }

/-- The ids of the mined blocks. -/
def blockId : Nat → Hash
  | 0 => ⟨1⟩
  | height + 1 => ⟨(blockId height).val * 1000 + (height + 2)⟩

def genesis : Block := .plain 1 0 premineAmount nullHash []

def mined (height fee : Nat) (txHashes : List Hash) : Block :=
  { Block.plain (height + 1) height (coin + fee) (blockId (height - 1)) txHashes with
    timestamp := 120 * height }

/-- A transaction that moves the coin with a global index to an output. -/
def move (id globalIndex : Nat) (target : TxoutTarget) : Transaction where
  version := id
  vin := [.toKey
    { amount := coin
      keyOffsets := [.index globalIndex]
      kImage := ⟨id⟩
      etcDetails := [] }]
  vout := [⟨coin - txMinimumFee, target⟩]
  extra := []
  signatures := [[⟨0⟩]]
  attachment := []

/-- The multisig output of the block at height 13. -/
def multisigInput : Txin :=
  .multisig ⟨coin - txMinimumFee, ⟨1000 + (coin - txMinimumFee)⟩, 1, []⟩

/-- The key output of the block at height 14. -/
def keyInput : Txin :=
  .toKey
    { amount := coin - txMinimumFee
      keyOffsets := [.byId ⟨⟨102⟩, 0⟩]
      kImage := ⟨103⟩
      etcDetails := [] }

def spend (vin : List Txin) : Transaction where
  version := 103
  vin
  vout := [⟨coin, .toKey ⟨⟨7⟩, 0⟩⟩]
  extra := []
  signatures := [[⟨0⟩], [⟨0⟩]]
  attachment := []

/-- A node with a multisig output at height 13 and a key output at height 14. -/
def node : Node :=
  (nodeSystem env anyBlock).after (addNewBlock env genesis (Node.fresh 1000000)).2
    (((List.range' 1 12).map fun height => Event.submitBlock (mined height 0 [])) ++
      [.incomingTx (move 101 0 (.multisig ⟨1, [⟨1⟩]⟩)) 100 false,
        .submitBlock (mined 13 txMinimumFee [⟨101⟩]),
        .incomingTx (move 102 1 (.toKey ⟨⟨1⟩, 0⟩)) 100 false,
        .submitBlock (mined 14 txMinimumFee [⟨102⟩])])

theorem node_reachable : (nodeSystem env anyBlock).Reachable node := by
  refine System.Reachable.after ?_ _
  exact .start ⟨genesis, 1000000, trivial, rfl, by decide, rfl⟩

theorem pins : PinsPrevious env := by
  intro a b same
  have parts : a.prevId.val * 1000 + a.nonce % 1000 = b.prevId.val * 1000 + b.nonce % 1000 :=
    congrArg Hash.val same
  have values : a.prevId.val = b.prevId.val := by omega
  cases ha : a.prevId
  cases hb : b.prevId
  rw [ha, hb] at values
  exact congrArg Hash.mk values

/-- What the checks of the spend answer in either order of its inputs, and the heights it depends
on. -/
structure ChecksEvaluated : Prop where
  heights : node.chain.db.dependencyHeights
    (spend [keyInput, multisigInput]).toTransactionPrefix = [14, 13]
  reported : answer ((do
    checkTxInputs env node.chain (spend [keyInput, multisigInput]) ⟨103⟩
    get : CheckM Nat) 0) = .ok 13
  answered : answer (checkTxInputsWithBlock env node.chain
    (spend [multisigInput, keyInput]) ⟨103⟩ 0) = .ok (blockId 14)
  ended : final (checkTxInputsWithBlock env node.chain
    (spend [multisigInput, keyInput]) ⟨103⟩ 0) = 14

theorem checks_evaluated : ChecksEvaluated := by
  refine ⟨?_, ?_, ?_, ?_⟩ <;> decide +kernel

/-- The check reports the height of the multisig output, and the key output is above it. -/
theorem reports_older : (nodeSystem env anyBlock).Reachable node ∧
    (∃ reported, checkTxInputs env node.chain (spend [keyInput, multisigInput]) ⟨103⟩ 0 =
      .ok () reported ∧ reported = 13) ∧
    highest (node.chain.db.dependencyHeights
      (spend [keyInput, multisigInput]).toTransactionPrefix) = 14 := by
  refine ⟨node_reachable, ?_, ?_⟩
  · obtain ⟨_, middle, checked, read⟩ := bind_ok.mp (ok_of_answer checks_evaluated.reported)
    obtain ⟨rfl, _⟩ := get_ok.mp read
    exact ⟨_, checked, rfl⟩
  · rw [checks_evaluated.heights]
    rfl

theorem newer_accepted : checkTxInputsWithBlock env node.chain (spend [multisigInput, keyInput])
    ⟨103⟩ 0 = .ok (blockId 14) 14 := by
  rw [ok_of_answer checks_evaluated.answered, checks_evaluated.ended]

theorem newer_noneForgotten :
    node.chain.db.NoneForgotten (spend [multisigInput, keyInput]).toTransactionPrefix := by
  intro earlier input later split
  have first : earlier = [] := by
    rcases earlier with _ | ⟨head, _ | ⟨second, tail⟩⟩
    · rfl
    · cases split
    · simp [spend] at split
  rw [first]
  exact Nat.zero_le _

/-- With the key input last the check reports its height, and the block is there. -/
theorem newer_reported : 14 = highest (node.chain.db.dependencyHeights
      (spend [multisigInput, keyInput]).toTransactionPrefix) ∧
    ∀ height ∈ node.chain.db.dependencyHeights
      (spend [multisigInput, keyInput]).toTransactionPrefix,
      ∃ bei kept, node.chain.db.blocks[height]? = some bei ∧
        node.chain.db.blocks[height]? = some kept ∧
        getBlockHash env kept.bl = getBlockHash env bei.bl := by
  constructor
  · have accepted := newer_accepted
    simp only [checkTxInputsWithBlock, bind_ok, get_ok, demand_ok, pure_ok] at accepted
    obtain ⟨_, _, checked, _, _, ⟨rfl, rfl⟩, _, _, ⟨_, rfl⟩, _, rfl⟩ := accepted
    exact ((reportedHeight_iff env).1 _ _ _ _ _ checked).mpr newer_noneForgotten
  · exact (reportedHeight_iff env).2 pins node node node_reachable node_reachable _ _ _ _ _
      newer_accepted newer_noneForgotten (by decide +kernel) (by decide +kernel)

end OlderMultisig
end Virie
