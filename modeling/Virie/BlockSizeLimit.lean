import Virie.Chainstate.Submissions

/-! # The block size limit

The stored limit for the size of the next block is computed when a block is connected, from
the sizes of the newest blocks. A submission either connects a block last or restores the
limit together with the chain. A truncation removes blocks and keeps the limit that was
computed with them, so that the limit belongs to another chain unless the removed blocks
made no difference to it. -/

open Foundation

namespace Virie

/-- Twice the larger of the full reward zone and the median size of the newest blocks. -/
def sizeLimit (blocks : List BlockExtendedInfo) : Nat :=
  2 * max currencyBlockGrantedFullRewardZone (median
    ((blocks.drop (blocks.length - currencyRewardBlocksWindow)).map
      BlockExtendedInfo.blockCumulativeSize))

/-- The stored limit is the one of the main chain. -/
def LimitFollowsChain (db : Db) : Prop := db.currentBlockCumulSzLimit = sizeLimit db.blocks

/-- The removed blocks of a truncation make no difference to the limit. -/
def KeepsSizeLimit (event : Event) (node : Node) : Prop :=
  match event with
  | .truncate toHeight =>
    sizeLimit (node.chain.db.blocks.take (max 1 toHeight)) = sizeLimit node.chain.db.blocks
  | _ => True

open Procedure

section SizeLimit

variable {E : Env} {good : TransactionPrefix → Prop} {known : Block → Prop} {J : Chain → Prop}
  {db : Db} {chain : Chain} {node node' : Node} {bl : Block}

/-! ## Connecting -/

theorem updateNextComulativeSizeLimit_follows (db : Db) :
    LimitFollowsChain db.updateNextComulativeSizeLimit := by
  simp only [LimitFollowsChain, Db.updateNextComulativeSizeLimit, Db.getLastNBlocksSizes, sizeLimit]
  rw [Nat.mul_comm, Nat.max_comm]

/-- A connected block leaves the limit of the chain that it is the top of. -/
theorem handleBlock_follows {id : Hash}
    (run : handleBlockToMainChain E bl id node = .ok () node') :
    LimitFollowsChain node'.chain.db := by
  obtain ⟨chain, added⟩ := handleBlock_added run
  rw [added]
  exact updateNextComulativeSizeLimit_follows chain.db

theorem connectBranch_follows {altChain : AltChain} (nonempty : altChain ≠ [])
    (run : connectBranch E altChain node = .ok [] node') : LimitFollowsChain node'.chain.db := by
  induction altChain generalizing node with
  | nil => exact absurd rfl nonempty
  | cons head rest ih =>
    obtain ⟨connected, middle, first, run⟩ := bind_ok.mp run
    cases connected with
    | false => cases (pure_ok.mp run).1
    | true =>
      obtain ⟨⟨⟩, first⟩ := attempt_true.mp first
      by_cases last : rest = []
      · subst last
        rw [← (pure_ok.mp run).2]
        exact handleBlock_follows first
      · exact ih last run

theorem booksFree_limit : BooksFree fun chain => LimitFollowsChain chain.db :=
  fun _ _ _ _ _ follows => follows

/-- A submission that is committed ends with the limit of its chain, any other one with the
database that it started from. -/
theorem addNewBlock_follows (bl : Block)
    (before : NodeBuilt E (fun _ => True) anyBlock AboveGenesis node) :
    (addNewBlock E bl node).2.chain.db = node.chain.db ∨
      LimitFollowsChain (addNewBlock E bl node).2.chain.db := by
  unfold addNewBlock
  cases run : submitBlock E bl node with
  | error reason after => exact .inl rfl
  | ok submission after =>
    dsimp only
    cases commits : submission.committed with
    | false => exact .inl rfl
    | true =>
      right
      change LimitFollowsChain after.chain.db
      rcases submitBlock_committed run commits with
        ⟨_, _, connected, linked, handled, finalized⟩ |
        ⟨altChain, offered, success, switched, linked, starts, switch, finalized⟩
      · rw [finalizeLinked_chain finalized]
        exact handleBlock_follows handled
      · rw [finalizeLinked_chain finalized]
        obtain ⟨_, position, accepted, lowered, raised, stored, prepared, chain, _, stages⟩ :=
          switchStages_of_starts before starts switch
        have nonempty : altChain ≠ [] := by
          rw [chain]
          exact List.append_ne_nil_of_right_ne_nil _ (List.cons_ne_nil _ _)
        have raisedFollows := connectBranch_follows nonempty stages.connects
        have storedFollows :=
          (keepsChain_storeDisconnected booksFree_limit _).of_ok stages.stores raisedFollows
        exact (keepsChain_eraseBranch booksFree_limit altChain).of_ok stages.erases storedFollows

/-! ## Disconnecting -/

section Disconnecting

variable {limit : Nat}

/-- Databases with the given limit. -/
def HasLimit (limit : Nat) (db : Db) : Prop := db.currentBlockCumulSzLimit = limit

theorem tablesFree_hasLimit : TablesFree (HasLimit limit) where
  tables _ _ _ _ _ _ same := same
  flags _ _ _ _ _ same := same

theorem keepsLimit_onDb {α : Type} {body : DbM α} (keeps : Preserves (HasLimit limit) body) :
    Preserves (fun node : Node => HasLimit limit node.chain.db) (onChain (onDb body)) :=
  preserves_within fun node same =>
    (preserves_within fun chain same => keeps chain.db same :
      Preserves (fun chain : Chain => HasLimit limit chain.db) (onDb body)) node.chain same

theorem keepsLimit_purgeTransaction (txId : Hash) (addToPool : Bool) :
    Preserves (fun node : Node => HasLimit limit node.chain.db)
      (purgeTransactionFromBlockchain E txId addToPool) := by
  have added : ∀ tx, Preserves (fun node : Node => HasLimit limit node.chain.db)
      (addTx E tx 0 true true) := fun tx =>
    @keepsChain_addTx E (fun chain => HasLimit limit chain.db) tx 0 true true
      (fun free => by cases free) (fun free => by cases free)
  refine preserves_get_bind fun node _ => ?_
  refine preserves_bind (preserves_demand _ _) fun entry => ?_
  refine preserves_bind
    (keepsLimit_onDb (preserves_purgeTransactionKeyimages tablesFree_hasLimit _ _)) fun _ => ?_
  refine preserves_bind
    (keepsLimit_onDb (preserves_unprocessBlockchainTxExtra tablesFree_hasLimit _)) fun _ => ?_
  refine preserves_bind (preserves_within fun _ same => same) fun _ => ?_
  refine preserves_bind
    (preserves_onlyIf (preserves_bind (added entry.tx) fun _ => preserves_pure _)) fun _ => ?_
  refine preserves_bind (preserves_attempt
    (keepsLimit_onDb (preserves_popOutputsFrom tablesFree_hasLimit _ _ _ _))) fun _ => ?_
  exact preserves_bind (keepsLimit_onDb (preserves_modify fun _ same => same)) fun _ =>
    preserves_require _

theorem keepsLimit_purgeTransactions (addToPool : Bool) (txIds : List Hash) :
    Preserves (fun node : Node => HasLimit limit node.chain.db)
      (purgeTransactionsFromBlockchain E addToPool txIds) := by
  induction txIds with
  | nil => exact preserves_pure true
  | cons txId rest ih =>
    exact preserves_bind (preserves_attempt (keepsLimit_purgeTransaction _ _)) fun _ =>
      preserves_bind ih fun _ => preserves_pure _

/-- Disconnecting a block does not compute the limit again. -/
theorem keepsLimit_popBlock (addTxsToPool : Bool) :
    Preserves (fun node : Node => HasLimit limit node.chain.db)
      (popBlockFromBlockchain E addTxsToPool) := by
  have purged : ∀ bl count, Preserves (fun node : Node => HasLimit limit node.chain.db)
      (purgeBlockDataFromBlockchain E bl count addTxsToPool) := fun bl count =>
    preserves_bind (preserves_require _) fun _ =>
      preserves_bind (keepsLimit_purgeTransactions _ _) fun _ =>
      preserves_bind (preserves_attempt (keepsLimit_purgeTransaction _ _)) fun _ =>
      preserves_require _
  refine preserves_get_bind fun node _ => ?_
  refine preserves_bind (preserves_require _) fun _ => ?_
  refine preserves_bind (preserves_demand _ _) fun bei => ?_
  refine preserves_bind (purged bei.bl _) fun _ => ?_
  exact preserves_bind (keepsLimit_onDb (preserves_modify fun _ same => same)) fun _ =>
    preserves_within fun _ same => same

end Disconnecting

/-- Popping blocks shortens the chain down to the genesis block at most. -/
theorem popBlocks_take {count : Nat} {success : Bool} (before : NodeBuilt E good known J node)
    (started : node.chain.db.blocks ≠ []) (run : popBlocks E count node = .ok success node') :
    node'.chain.db.blocks = node.chain.db.blocks.take (max 1 (node.chain.db.blocks.length - count)) ∧
      node'.chain.db.currentBlockCumulSzLimit = node.chain.db.currentBlockCumulSzLimit := by
  induction count generalizing node with
  | zero =>
    rw [← (pure_ok.mp run).2]
    exact ⟨(List.take_of_length_le (by omega)).symm, rfl⟩
  | succ count ih =>
    obtain ⟨popped, middle, attempted, run⟩ := bind_ok.mp run
    by_cases above : 1 < node.chain.db.blocks.length
    · obtain ⟨lowered, pop, built, blocks⟩ := before.pop above false
      cases (attempt_of_ok pop).symm.trans attempted
      have remains : middle.chain.db.blocks ≠ [] := by
        apply List.ne_nil_of_length_pos
        rw [blocks, List.length_dropLast]
        omega
      obtain ⟨shortened, same⟩ := ih built remains run
      have kept : HasLimit node.chain.db.currentBlockCumulSzLimit middle.chain.db :=
        (keepsLimit_popBlock false).of_ok pop rfl
      refine ⟨?_, same.trans kept⟩
      rw [shortened, blocks, List.length_dropLast, List.dropLast_eq_take, List.take_take]
      congr 1
      omega
    · have alone : node.chain.db.blocks.length = 1 := by
        have := List.length_pos_of_ne_nil started
        omega
      have refused : popBlockFromBlockchain E false node = .error .refused node := by
        rw [popBlockFromBlockchain, get_bind]
        exact bind_of_error (by rw [decide_eq_false above]; rfl)
      cases popped with
      | true =>
        obtain ⟨_, pop⟩ := attempt_true.mp attempted
        cases refused.symm.trans pop
      | false =>
        cases refused.symm.trans (attempt_false.mp attempted)
        rw [← (pure_ok.mp run).2]
        exact ⟨(List.take_of_length_le (by omega)).symm, rfl⟩

theorem truncateBlockchain_limit (before : NodeBuilt E good known J node)
    (started : node.chain.db.blocks ≠ []) (toHeight : Nat) :
    (truncateBlockchain E toHeight node).chain.db.blocks =
        node.chain.db.blocks.take (max 1 toHeight) ∧
      (truncateBlockchain E toHeight node).chain.db.currentBlockCumulSzLimit =
        node.chain.db.currentBlockCumulSzLimit := by
  obtain ⟨success, after, run, _⟩ :=
    popBlocks_runs (node.chain.db.blocks.length - toHeight) before started
  obtain ⟨shortened, same⟩ := popBlocks_take before started run
  rw [truncateBlockchain, run]
  refine ⟨shortened.trans ?_, same⟩
  rcases Nat.le_total toHeight node.chain.db.blocks.length with low | high
  · rw [Nat.sub_sub_self low]
  · have := List.length_pos_of_ne_nil started
    rw [List.take_of_length_le (by omega), List.take_of_length_le (by omega)]

/-- After a truncation the limit is the one of the chain exactly when the removed blocks made no
difference to it. -/
theorem truncate_follows_iff (before : NodeBuilt E good known J node)
    (started : node.chain.db.blocks ≠ []) (follows : LimitFollowsChain node.chain.db)
    (toHeight : Nat) : LimitFollowsChain (step E (.truncate toHeight) node).chain.db ↔
      KeepsSizeLimit (.truncate toHeight) node := by
  obtain ⟨shortened, same⟩ := truncateBlockchain_limit before started toHeight
  change (truncateBlockchain E toHeight node).chain.db.currentBlockCumulSzLimit =
    sizeLimit (truncateBlockchain E toHeight node).chain.db.blocks ↔ _
  rw [shortened, same, follows]
  exact eq_comm

/-! ## Runs -/

theorem step_follows (before : NodeBuilt E (fun _ => True) anyBlock AboveGenesis node)
    (started : node.chain.db.blocks ≠ []) (follows : LimitFollowsChain node.chain.db)
    {event : Event} (spared : KeepsSizeLimit event node) :
    LimitFollowsChain (step E event node).chain.db := by
  by_cases submits : ∃ bl, event = .submitBlock bl
  · obtain ⟨bl, rfl⟩ := submits
    rcases addNewBlock_follows bl before with same | committed
    · change LimitFollowsChain (addNewBlock E bl node).2.chain.db
      rwa [same]
    · exact committed
  by_cases truncates : ∃ toHeight, event = .truncate toHeight
  · obtain ⟨toHeight, rfl⟩ := truncates
    exact (truncate_follows_iff before started follows toHeight).mpr spared
  · rwa [step_db (fun bl same => submits ⟨bl, same⟩) fun height same => truncates ⟨height, same⟩]

/-- The genesis block is connected, and sets the first limit. -/
theorem start_follows (initial : Node.Started E anyBlock node) :
    LimitFollowsChain node.chain.db := by
  have started := (NodeBuilt.reachable (.start initial)).2
  obtain ⟨genesis, coreTime, _, _, _, rfl⟩ := initial
  rcases addNewBlock_follows genesis (.fresh coreTime) with same | follows
  · rw [same] at started
    exact absurd rfl started
  · exact follows

/-- In a run whose truncations remove only blocks that make no difference to it, the limit is the
one of the main chain. -/
theorem limitFollowsChain_of_run
    (reached : (nodeSystem E anyBlock).Reaches KeepsSizeLimit node) :
    LimitFollowsChain node.chain.db := by
  refine @Foundation.System.Reaches.invariant _ _ (nodeSystem E anyBlock) _ _
    (fun node => LimitFollowsChain node.chain.db) reached ?_ ?_
  · exact fun _ initial => start_follows initial
  · intro event node before spared follows
    obtain ⟨built, started⟩ := NodeBuilt.reachable before.reachable
    exact step_follows built started follows spared

end SizeLimit

/-! ## A limit that outlives its blocks -/

namespace StaleLimit

/-- An environment where a transaction takes a hundred bytes and the keys of its outputs. -/
def env : Env :=
  { Env.plain with
    prefixBlobsize tx := 100 + 32 * (tx.vout.map fun out =>
      match out.target with
      | .toKey _ => 1
      | .multisig keys => keys.keys.length).sum }

def genesis : Block := .plain 1 0 premineAmount nullHash []

/-- A block of some 150 thousand bytes, whose reward is lower for its size. -/
def wide (height : Nat) : Block :=
  let base := Block.plain (height + 1) height coin ⟨height⟩ []
  { base with
    minerTx := { base.minerTx with
      vout := [⟨95838400, .multisig ⟨1, List.replicate 4700 ⟨height⟩⟩⟩]
      extra := .publicKey ⟨height⟩ :: base.minerTx.extra } }

/-- The node that has connected nothing but its genesis block. -/
def started : Node := (addNewBlock env genesis (Node.fresh 100)).2

/-- Two wide blocks are connected and truncated again. -/
def truncated : Node :=
  (nodeSystem env anyBlock).after started
    [.submitBlock (wide 1), .submitBlock (wide 2), .truncate 1]

theorem started_reachable : (nodeSystem env anyBlock).Reachable started :=
  .start ⟨genesis, 100, trivial, rfl, by decide, rfl⟩

theorem started_reaches : (nodeSystem env anyBlock).Reaches KeepsSizeLimit started :=
  .start ⟨genesis, 100, trivial, rfl, by decide, rfl⟩

/-- The chain is the genesis block alone again, and the limit is the one of the wide blocks. -/
theorem truncated_limit : (nodeSystem env anyBlock).Reachable truncated ∧
    ¬ LimitFollowsChain truncated.chain.db := by
  refine ⟨started_reachable.after _, ?_⟩
  have stored : truncated.chain.db.currentBlockCumulSzLimit = 301000 := by decide +kernel
  have expected : sizeLimit truncated.chain.db.blocks = 250000 := by decide +kernel
  rw [LimitFollowsChain, stored, expected]
  decide

/-- Removing a small block from the top makes no difference to the limit. -/
theorem small_block_keeps : KeepsSizeLimit (.truncate 1)
    (step env (.submitBlock (.plain 2 1 coin ⟨1⟩ [])) started) := by
  change sizeLimit _ = sizeLimit _
  decide

/-- After the truncation of a small block the limit is the one of the chain that is left. -/
theorem small_truncation_follows : LimitFollowsChain
    ((nodeSystem env anyBlock).after started
      [.submitBlock (.plain 2 1 coin ⟨1⟩ []), .truncate 1]).chain.db :=
  limitFollowsChain_of_run (started_reaches.after
    (show System.Meets _ _ started [_, _] from ⟨trivial, small_block_keeps, trivial⟩))

end StaleLimit
end Virie
