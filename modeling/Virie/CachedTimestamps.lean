import Virie.Chainstate.Submissions

/-! # The cached timestamp medians

The storage remembers the medians of timestamps that it computed until a block is
connected or disconnected. A switch that is given up at a block of its branch whose
header was accepted has computed medians of the branch, and leaves them behind for the
main chain that is restored. In a run without such a switch every median, and with it
the expiration of every transaction, is judged by the main chain. -/

open Foundation

namespace Virie

/-- The timestamps of the last blocks above the genesis block. -/
def Db.lastTimestamps (db : Db) (n : Nat) : List Nat :=
  ((db.blocks.drop 1).drop (db.blocks.length - 1 - n)).map fun bei => bei.bl.timestamp

/-- The query for a median answers the median of the last timestamps of the main chain. -/
def ServesTimestampsMedian (chain : Chain) (n : Nat) : Prop :=
  Procedure.answer (getLastNBlocksTimestampsMedian n chain) =
    .ok (median (chain.db.lastTimestamps n))

/-- The expiration of a transaction is judged by the last timestamps of the main chain. -/
def JudgesExpiration (chain : Chain) (tx : TransactionPrefix) : Prop :=
  Procedure.answer (isTxExpired tx chain) =
    .ok (tx.isTxExpired (median (chain.db.lastTimestamps txExpirationTimestampCheckWindow)))

/-- A submission whose switch is given up at a block of the branch whose header is accepted. -/
def LeavesMedians (E : Env) (event : Event) (node : Node) : Prop :=
  match event with
  | .submitBlock bl => ∃ altChain offered reached entry rest checked headed,
      StartsSwitch E bl node altChain offered ∧
      SwitchRefuses E altChain offered reached entry rest ∧
      checkBlockHeader E entry.2.bl (getBlockHash E entry.2.bl) reached.chain = .ok checked headed
  | _ => False

/-- The remembered medians are the ones of a main chain. -/
def TimestampsCoherent (db : Db) (chain : Chain) : Prop :=
  ∀ n medianRes, chain.timestampsMedianCache.get n = some medianRes →
    medianRes = median (db.getLastNBlocksTimestamps n)

open Procedure

section CachedTimestamps

variable {E : Env} {good : TransactionPrefix → Prop} {known : Block → Prop} {J : Chain → Prop}
  {db : Db} {chain chain' : Chain} {node node' : Node} {bl : Block}

/-! ## The cache -/

theorem getLastNBlocksTimestamps_eq (db : Db) (n : Nat) :
    db.getLastNBlocksTimestamps n = db.lastTimestamps n := by
  have whole : db.blocks.take (db.blocks.length - 1 + 1) = db.blocks :=
    List.take_of_length_le (by omega)
  unfold Db.getLastNBlocksTimestamps Db.completeTimestampsVector Db.lastTimestamps
  rw [List.drop_drop, whole]
  by_cases none : n = 0
  · have past : db.blocks.drop (1 + (db.blocks.length - 1 - 0)) = [] :=
      List.drop_eq_nil_of_le (by omega)
    rw [none, past]
    rfl
  · have wanted : ¬ ([] : List Nat).length ≥ n := by
      rw [List.length_nil]
      omega
    rw [if_neg wanted]
    by_cases inside : db.blocks.length - 1 < db.blocks.length
    · have offset : (if db.blocks.length - 1 > n then db.blocks.length - 1 - n + 1 else 1) =
          1 + (db.blocks.length - 1 - n) := by
        split <;> omega
      dsimp only
      rw [decide_eq_true inside, List.length_nil, Nat.sub_zero, offset]
      rfl
    · have nil : db.blocks = [] := List.length_eq_zero_iff.mp (by omega)
      rw [decide_eq_false inside, nil, List.drop_nil]
      rfl

theorem timestampsCoherent_empty (cleared : chain.timestampsMedianCache = ∅) :
    TimestampsCoherent db chain := by
  intro n medianRes found
  rw [cleared, Container.get_empty] at found
  cases found

theorem servesTimestampsMedian_of_coherent (coherent : TimestampsCoherent chain.db chain) (n : Nat) :
    ServesTimestampsMedian chain n := by
  rw [ServesTimestampsMedian, ← getLastNBlocksTimestamps_eq, getLastNBlocksTimestampsMedian, get_bind]
  cases found : chain.timestampsMedianCache.get n with
  | none => rfl
  | some medianRes =>
    rw [coherent n medianRes found]
    rfl

theorem judgesExpiration_of_coherent (coherent : TimestampsCoherent chain.db chain)
    (tx : TransactionPrefix) : JudgesExpiration chain tx := by
  have served := servesTimestampsMedian_of_coherent coherent txExpirationTimestampCheckWindow
  rw [ServesTimestampsMedian] at served
  rw [JudgesExpiration, isTxExpired, getTxExpirationMedian]
  cases run : getLastNBlocksTimestampsMedian txExpirationTimestampCheckWindow chain with
  | error reason after =>
    rw [run] at served
    cases served
  | ok medianRes after =>
    rw [run] at served
    cases served
    rw [bind_of_ok run]
    rfl

/-- Storages of a main chain whose remembered medians are coherent. -/
def MediansReady (db : Db) (chain : Chain) : Prop := chain.db = db ∧ TimestampsCoherent db chain

theorem preserves_medians (n : Nat) :
    Preserves (MediansReady db) (getLastNBlocksTimestampsMedian n) := by
  refine preserves_get_bind fun chain ready => ?_
  cases found : chain.timestampsMedianCache.get n with
  | some medianRes => exact preserves_pure medianRes
  | none =>
    refine preserves_bind (preserves_set ⟨ready.1, fun m other present => ?_⟩) fun _ =>
      preserves_pure _
    change (chain.timestampsMedianCache.set n _).get m = some other at present
    rw [Container.get_set] at present
    split at present
    · next here =>
      cases present
      rw [here, ready.1]
    · exact ready.2 m other present

theorem preserves_getTxFeeMedian_medians : Preserves (MediansReady db) getTxFeeMedian := by
  refine preserves_get_bind fun chain _ => preserves_bind (preserves_onlyIf ?_) fun _ => ?_
  · exact preserves_bind (preserves_reading _) fun _ => preserves_modify fun _ ready => ready
  · exact preserves_bind (preserves_modify fun _ ready => ready) fun _ =>
      preserves_get_bind fun _ _ => preserves_pure _

theorem preserves_getNextDiffConditional_medians (pos : Bool) :
    Preserves (MediansReady db) (getNextDiffConditional pos) := by
  refine preserves_bind (preserves_reading _) fun _ =>
    preserves_bind (preserves_modify fun chain ready => ?_) fun _ => preserves_pure _
  split <;> exact ready

theorem booksFree_medians : BooksFree (MediansReady db) := fun _ _ _ _ _ ready => ready

theorem booksFree_timestampsCoherent : BooksFree (TimestampsCoherent db) :=
  fun _ _ _ _ _ coherent => coherent

/-! ## Connecting and disconnecting -/

/-- A connected block leaves no medians behind. -/
theorem handleBlock_clears {id : Hash} (run : handleBlockToMainChain E bl id node = .ok () node') :
    node'.chain.timestampsMedianCache = ∅ := by
  obtain ⟨chain, added⟩ := handleBlock_added run
  rw [added]
  rfl

theorem popBlock_clears {addTxsToPool : Bool}
    (run : popBlockFromBlockchain E addTxsToPool node = .ok () node') :
    node'.chain.timestampsMedianCache = ∅ := by
  simp only [popBlockFromBlockchain, bind_ok, onChain_ok, modify_ok] at run
  obtain ⟨_, _, _, _, _, _, _, _, _, _, _, _, _, _, _, _, rfl, rfl⟩ := run
  rfl

theorem disconnectBlocks_clears {count : Nat} {blocks : List Block}
    (run : disconnectBlocks E count node = .ok blocks node') :
    node' = node ∨ node'.chain.timestampsMedianCache = ∅ := by
  induction count generalizing node blocks with
  | zero => exact .inl (pure_ok.mp run).2.symm
  | succ count ih =>
    simp only [disconnectBlocks, bind_ok, get_ok, demand_ok, requirePrevLinks, require_ok,
      pure_ok] at run
    obtain ⟨_, _, _, _, _, _, _, popped, pop, _, _, ⟨_, _, ⟨rfl, rfl⟩, _, rfl⟩, older, _, rest, _,
      rfl⟩ := run
    rcases ih rest with same | cleared
    · rw [same]
      exact .inr (popBlock_clears pop)
    · exact .inr cleared

theorem connectBranch_clears {altChain : AltChain}
    (run : connectBranch E altChain node = .ok [] node') :
    altChain = [] ∧ node' = node ∨ node'.chain.timestampsMedianCache = ∅ := by
  induction altChain generalizing node with
  | nil => exact .inl ⟨rfl, (pure_ok.mp run).2.symm⟩
  | cons head rest ih =>
    obtain ⟨connected, middle, first, run⟩ := bind_ok.mp run
    cases connected with
    | false => cases (pure_ok.mp run).1
    | true =>
      obtain ⟨⟨⟩, first⟩ := attempt_true.mp first
      rcases ih run with ⟨_, rfl⟩ | cleared
      · exact .inr (handleBlock_clears first)
      · exact .inr cleared

/-- A block whose header is refused leaves the medians alone. -/
theorem handleBlock_of_header {id : Hash} (coherent : TimestampsCoherent db node.chain)
    (refused : ∀ checked headed, checkBlockHeader E bl id node.chain ≠ .ok checked headed) :
    TimestampsCoherent db (final (handleBlockToMainChain E bl id node)).chain := by
  have kept : Preserves (TimestampsCoherent db) (checkBlockHeader E bl id) :=
    preserves_get_bind fun chain coherent => preserves_bind (preserves_require _) fun _ =>
      preserves_bind (preserves_require _) fun _ => preserves_bind (preserves_set coherent) fun _ =>
      preserves_bind (preserves_require _) fun _ => preserves_bind (preserves_require _) fun _ =>
      preserves_bind (preserves_bind (preserves_reading _) fun _ =>
        preserves_bind (preserves_modify fun _ coherent => by split <;> exact coherent) fun _ =>
        preserves_pure _) fun _ =>
      preserves_bind (preserves_require _) fun _ => preserves_bind (preserves_reading _) fun _ =>
      preserves_bind (preserves_require _) fun _ => preserves_pure _
  have ended := kept node.chain coherent
  cases run : checkBlockHeader E bl id node.chain with
  | ok checked headed => exact absurd run (refused checked headed)
  | error reason headed =>
    have same : onChain (checkBlockHeader E bl id) node =
        .error reason { node with chain := headed } := by
      rw [onChain, within, run]
    rw [run] at ended
    rw [handleBlockToMainChain, bind_of_error same]
    exact ended

/-! ## Submissions -/

/-- A switch that is given up leaves the medians of the main chain it started from, unless it is
given up at a block whose header is accepted. -/
theorem abortedSwitch_medians {altChain : AltChain} {first : Hash × AltBlockExtendedInfo}
    {lowered raised : Node} {failing : AltChain} {disconnected : List Block} {result : SwitchResult}
    (coherent : TimestampsCoherent db node.chain) (head : altChain.head? = some first)
    (disconnect : disconnectBlocks E (node.chain.db.blocks.length - first.2.height) node =
      .ok disconnected lowered)
    (connect : connectBranch E altChain lowered = .ok failing raised)
    (finish : finishSwitch E altChain first.2.height disconnected failing raised = .ok result node')
    (spared : ∀ reached entry rest checked headed, SwitchRefuses E altChain node reached entry rest →
      checkBlockHeader E entry.2.bl (getBlockHash E entry.2.bl) reached.chain ≠
        .ok checked headed) :
    TimestampsCoherent db node'.chain := by
  have loweredCoherent : TimestampsCoherent db lowered.chain := by
    rcases disconnectBlocks_clears disconnect with rfl | cleared
    · exact coherent
    · exact timestampsCoherent_empty cleared
  have raisedCoherent : TimestampsCoherent db raised.chain := by
    rcases connectBranch_cases connect with
      ⟨_, whole⟩ | ⟨connected, entry, rest, reached, _, split, below, refused⟩
    · rcases connectBranch_clears whole with ⟨_, rfl⟩ | cleared
      · exact loweredCoherent
      · exact timestampsCoherent_empty cleared
    · have reachedCoherent : TimestampsCoherent db reached.chain := by
        rcases connectBranch_clears below with ⟨_, rfl⟩ | cleared
        · exact loweredCoherent
        · exact timestampsCoherent_empty cleared
      have ended := handleBlock_of_header reachedCoherent fun checked headed =>
        spared reached entry rest checked headed
          ⟨first, disconnected, lowered, connected, raised, head, split, disconnect, below, refused⟩
      rwa [refused] at ended
  exact (keepsChain_finishSwitch booksFree_timestampsCoherent altChain first.2.height
    disconnected failing).of_ok finish raisedCoherent

theorem addNewBlock_medians (before : NodeBuilt E (fun _ => True) anyBlock AboveGenesis node)
    (coherent : TimestampsCoherent node.chain.db node.chain)
    (spared : ¬ LeavesMedians E (.submitBlock bl) node) :
    TimestampsCoherent (addNewBlock E bl node).2.chain.db (addNewBlock E bl node).2.chain := by
  have way := submits (E := E) bl node
  unfold addNewBlock
  cases run : submitBlock E bl node with
  | error reason after => exact timestampsCoherent_empty rfl
  | ok submission after =>
    dsimp only
    cases commits : submission.committed with
    | true =>
      apply timestampsCoherent_empty
      change after.chain.timestampsMedianCache = ∅
      rcases submitBlock_committed run commits with
        ⟨_, _, connected, linked, handled, finalized⟩ |
        ⟨altChain, offered, success, switched, linked, starts, switch, finalized⟩
      · rw [finalizeLinked_chain finalized]
        exact handleBlock_clears handled
      · rw [finalizeLinked_chain finalized]
        obtain ⟨_, position, accepted, lowered, raised, stored, prepared, chain, _, stages⟩ :=
          switchStages_of_starts before starts switch
        have cleared : raised.chain.timestampsMedianCache = ∅ := by
          rcases connectBranch_clears stages.connects with ⟨none, _⟩ | cleared
          · simp [chain] at none
          · exact cleared
        have free : BooksFree fun chain : Chain => chain.timestampsMedianCache = ∅ :=
          fun _ _ _ _ _ cleared => cleared
        exact (keepsChain_eraseBranch free altChain).of_ok stages.erases
          ((keepsChain_storeDisconnected free _).of_ok stages.stores cleared)
    | false =>
      change TimestampsCoherent node.chain.db after.chain
      rw [run] at way
      generalize result : EStateM.Result.ok submission after = ended at way
      cases way with
      | known present =>
        cases result
        exact coherent
      | declined absent apart unplaced chain pool aborts unadded =>
        cases result
        rwa [chain]
      | stored absent apart prepared tip lighter =>
        cases result
        exact coherent
      | @switches altChain offered starts =>
        obtain ⟨position, accepted, first, prepared, chain, rfl, built, head, _, above, low⟩ :=
          branch_of_starts before starts
        obtain ⟨outcome, switched, switch, ends⟩ := bind_ok.mp result.symm
        obtain ⟨lowered, failing, raised, _, _, disconnect, connect, finish⟩ :=
          runSwitch_ok built head above low switch
        cases rolled : outcome.hadRollback with
        | true =>
          rw [rolled, if_pos rfl] at ends
          obtain ⟨_, rfl⟩ := pure_ok.mp ends
          have stored : TimestampsCoherent node.chain.db
              (node.storing (getBlockHash E bl) accepted).chain := coherent
          exact abortedSwitch_medians stored head disconnect
            connect finish fun reached entry rest checked headed refuses accepts =>
              spared ⟨altChain, _, reached, entry, rest, checked, headed, starts, refuses, accepts⟩
        | false =>
          rw [rolled, if_neg Bool.false_ne_true] at ends
          obtain ⟨_, _, _, ends⟩ := bind_ok.mp ends
          rw [(pure_ok.mp ends).1.symm] at commits
          cases commits
      | continues absent linked =>
        obtain ⟨connected, middle, attempted, ends⟩ := bind_ok.mp result.symm
        cases connected with
        | true =>
          obtain ⟨_, _, _, ends⟩ := bind_ok.mp ends
          rw [(pure_ok.mp ends).1.symm] at commits
          cases commits
        | false =>
          obtain ⟨_, _, _, ends⟩ := bind_ok.mp ends
          obtain ⟨_, _, aborted, ends⟩ := bind_ok.mp ends
          obtain ⟨_, cleared, rfl⟩ := onChain_ok.mp aborted
          rw [← (pure_ok.mp ends).2]
          exact timestampsCoherent_empty (by rw [modify_ok.mp cleared]; rfl)

/-! ## Runs -/

/-- Popping blocks leaves no medians behind, unless nothing is popped. -/
theorem popBlocks_clears {count : Nat} {success : Bool} (before : NodeBuilt E good known J node)
    (run : popBlocks E count node = .ok success node') :
    node' = node ∨ node'.chain.timestampsMedianCache = ∅ := by
  induction count generalizing node with
  | zero => exact .inl (pure_ok.mp run).2.symm
  | succ count ih =>
    obtain ⟨popped, middle, attempted, run⟩ := bind_ok.mp run
    by_cases above : 1 < node.chain.db.blocks.length
    · obtain ⟨lowered, pop, built, _⟩ := before.pop above false
      cases (attempt_of_ok pop).symm.trans attempted
      rcases ih built run with rfl | cleared
      · exact .inr (popBlock_clears pop)
      · exact .inr cleared
    · have refused : popBlockFromBlockchain E false node = .error .refused node := by
        rw [popBlockFromBlockchain, get_bind]
        exact bind_of_error (by rw [decide_eq_false above]; rfl)
      cases popped with
      | true =>
        obtain ⟨_, pop⟩ := attempt_true.mp attempted
        cases refused.symm.trans pop
      | false =>
        cases refused.symm.trans (attempt_false.mp attempted)
        exact .inl (pure_ok.mp run).2.symm

/-- A step keeps the medians coherent, unless it gives up a switch at a block whose header is
accepted. -/
theorem step_medians (before : NodeBuilt E (fun _ => True) anyBlock AboveGenesis node)
    (started : node.chain.db.blocks ≠ []) (coherent : TimestampsCoherent node.chain.db node.chain)
    {event : Event} (spared : ¬ LeavesMedians E event node) :
    TimestampsCoherent (step E event node).chain.db (step E event node).chain := by
  have ready : MediansReady node.chain.db node.chain := ⟨rfl, coherent⟩
  have ofReady : ∀ chain : Chain, MediansReady node.chain.db chain →
      TimestampsCoherent chain.db chain := by
    rintro chain ⟨same, coherent⟩
    rwa [same]
  by_cases submits : ∃ bl, event = .submitBlock bl
  · obtain ⟨bl, rfl⟩ := submits
    exact addNewBlock_medians before coherent spared
  by_cases truncates : ∃ toHeight, event = .truncate toHeight
  · obtain ⟨toHeight, rfl⟩ := truncates
    obtain ⟨success, after, run, _⟩ :=
      popBlocks_runs (node.chain.db.blocks.length - toHeight) before started
    rw [step, truncateBlockchain, run]
    rcases popBlocks_clears before run with rfl | cleared
    · exact coherent
    · exact timestampsCoherent_empty cleared
  by_cases aged : event = .pruneAged
  · rw [aged]
    exact ofReady _ (keepsChain_pruneAgedAltBlocks booksFree_medians ready)
  · refine ofReady _ (step_keepsChain preserves_medians preserves_getTxFeeMedian_medians ?_ ?_
      (fun bl same => submits ⟨bl, same⟩) (fun toHeight same => truncates ⟨toHeight, same⟩) aged ready)
    · exact fun pos => preserves_get_bind fun chain ready => preserves_bind (preserves_set ready)
        fun _ => preserves_ite (fun _ => preserves_pure _) fun _ =>
        preserves_getNextDiffConditional_medians _
    · exact fun _ _ ready => ready

end CachedTimestamps

/-! ## A median that a switch leaves behind -/

namespace StaleTimestamps

def genesis : Block := .plain 1 0 premineAmount nullHash []
def main1 : Block := .plain 2 1 coin ⟨1⟩ []
def alt1 : Block := { Block.plain 3 1 coin ⟨1⟩ [] with timestamp := 60 }

/-- A block whose coinbase pays too much, which only the main chain finds out. -/
def alt2 : Block := .plain 4 2 (2 * coin) ⟨3⟩ []

/-- The main chain of two blocks after a switch to two other ones was given up. -/
def restored : Node :=
  (nodeSystem .plain anyBlock).after (addNewBlock .plain genesis (Node.fresh 100)).2
    [.submitBlock main1, .submitBlock alt1, .submitBlock alt2]

end StaleTimestamps
end Virie
