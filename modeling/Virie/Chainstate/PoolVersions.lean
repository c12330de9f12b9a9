import Virie.Chainstate.PoolContents
import Virie.Chainstate.Running

/-! # The pool behind a block

Connecting a block takes the versions of its transactions that the pool holds and reads
nothing else from the pool. Two nodes with one storage whose pools hold the same versions
of the transactions of a block connect it alike. -/

open Foundation

namespace Virie

/-- A transaction as a block takes it from the pool: with its fee and size. -/
structure TxVersion where
  tx : Transaction
  fee : Nat
  blobSize : Nat
deriving DecidableEq

def TxDetails.version (details : TxDetails) : TxVersion where
  tx := details.tx
  fee := details.fee
  blobSize := details.blobSize

/-- The version of a transaction that the pool holds. -/
def Pool.version (pool : Pool) (id : Hash) : Option TxVersion :=
  (pool.transactions.get id).map TxDetails.version

/-- Two pools hold the same versions of some transactions. -/
def SameVersions (ids : List Hash) (pool other : Pool) : Prop :=
  ∀ id ∈ ids, pool.version id = other.version id

open Procedure

section PoolVersions

variable {E : Env} {node node' : Node} {other : Pool}

/-! ## Taking a transaction -/

theorem takeTx_runs {id : Hash} {pool : Pool} {details : TxDetails}
    (found : pool.transactions.get id = some details) :
    ∃ after, takeTx E id pool = .ok details after ∧
      after.transactions = pool.transactions.erase id :=
  ⟨_, takeTx_eq found, rfl⟩

theorem Pool.version_of_erase {pool after : Pool} {id : Hash}
    (erased : after.transactions = pool.transactions.erase id) (other : Hash) :
    after.version other = if other = id then none else pool.version other := by
  rw [Pool.version, erased, Container.get_erase, Pool.version]
  by_cases same : id = other
  · rw [if_pos same, if_pos same.symm]
    rfl
  · rw [if_neg same, if_neg (Ne.symm same)]

/-! ## Connecting with another pool -/

/-- A procedure of the storage runs alike beside any pool. -/
theorem onChain_transfers {α : Type} {body : ChainM α} {result : α}
    (run : onChain body node = .ok result node') (other : Pool) :
    onChain body { node with pool := other } = .ok result { node' with pool := other } ∧
      node'.pool = node.pool := by
  obtain ⟨chain, ran, rfl⟩ := onChain_ok.mp run
  exact ⟨onChain_ok.mpr ⟨chain, ran, rfl⟩, rfl⟩

/-- A transaction that is connected from one pool is connected from another that holds the same
version. -/
theorem connectTransaction_transfers {bl : Block} {id txId : Hash} {height : Nat}
    {totals next : BlockTotals}
    (run : connectTransaction E bl id height totals txId node = .ok next node')
    (same : node.pool.version txId = other.version txId) :
    ∃ after, connectTransaction E bl id height totals txId { node with pool := other } =
        .ok next { node' with pool := after } ∧
      node'.pool.transactions = node.pool.transactions.erase txId ∧
      after.transactions = other.transactions.erase txId := by
  obtain ⟨txe, found, rfl, _⟩ := connectTransaction_ok run
  obtain ⟨details, otherFound, version⟩ : ∃ details, other.transactions.get txId = some details ∧
      details.version = txe.version := by
    rw [Pool.version, Pool.version, found, Option.map_some, eq_comm, Option.map_eq_some_iff] at same
    exact same
  obtain ⟨sameTx, sameFee, sameSize⟩ := TxVersion.mk.inj version
  obtain ⟨taken, takes, erased⟩ := takeTx_runs (E := E) found
  obtain ⟨after, otherTakes, otherErased⟩ := takeTx_runs (E := E) otherFound
  have has : node.pool.transactions.has txId = true := (Container.has_iff _ _).mpr ⟨_, found⟩
  have otherHas : other.transactions.has txId = true :=
    (Container.has_iff _ _).mpr ⟨_, otherFound⟩
  simp only [connectTransaction, get_bind, has, Bool.not_true, Bool.false_eq_true, ↓reduceIte,
    bind_of_ok (onPool_ok.mpr ⟨taken, takes, rfl⟩)] at run
  have totalsSame : totals.addTransaction details = totals.addTransaction txe := by
    simp only [BlockTotals.addTransaction, sameTx, sameFee, sameSize]
  cases valid : txInputsValid E node.chain (pruneInZone node.chain txe.tx) txId with
  | error reason =>
    rw [valid] at run
    cases reason with
    | thrown => exact absurd run (by simp)
    | refused => simp only [bind_ok, throw_ok, and_false, exists_false] at run
  | ok value =>
    simp only [valid, bind_ok] at run
    obtain ⟨added, middle, adding, run⟩ := run
    cases added with
    | false =>
      simp only [Bool.not_false, ↓reduceIte, bind_ok, rejectBlock_ok, and_false,
        exists_false] at run
    | true =>
      simp only [attempt_true] at adding
      obtain ⟨_, adding⟩ := adding
      simp only [Bool.not_true, Bool.false_eq_true, ↓reduceIte, pure_ok] at run
      obtain ⟨_, rfl⟩ := run
      obtain ⟨otherAdding, kept⟩ := onChain_transfers adding after
      refine ⟨after, ?_, by rw [kept]; exact erased, otherErased⟩
      have takes : onPool (takeTx E txId) { node with pool := other } =
          .ok details { node with pool := after } :=
        onPool_ok.mpr ⟨after, otherTakes, rfl⟩
      simp only [connectTransaction, get_bind, otherHas, Bool.not_true, Bool.false_eq_true,
        ↓reduceIte, bind_of_ok takes, sameTx, valid, bind_ok]
      refine ⟨true, _, attempt_true.mpr ⟨_, otherAdding⟩, ?_⟩
      simp only [Bool.not_true, Bool.false_eq_true, ↓reduceIte, pure_ok]
      exact ⟨totalsSame, trivial⟩

theorem connectTransactions_transfers {bl : Block} {id : Hash} {height : Nat}
    {totals final : BlockTotals} {txIds : List Hash}
    (run : connectTransactions E bl id height totals txIds node = .ok final node')
    (same : SameVersions txIds node.pool other) :
    ∃ after, connectTransactions E bl id height totals txIds { node with pool := other } =
      .ok final { node' with pool := after } := by
  induction txIds generalizing totals node other with
  | nil =>
    obtain ⟨rfl, rfl⟩ := pure_ok.mp run
    exact ⟨other, rfl⟩
  | cons txId rest ih =>
    obtain ⟨next, middle, first, run⟩ := bind_ok.mp run
    obtain ⟨after, otherFirst, erased, otherErased⟩ :=
      connectTransaction_transfers first (same txId List.mem_cons_self)
    have remaining : SameVersions rest middle.pool after := by
      intro id member
      rw [Pool.version_of_erase erased, Pool.version_of_erase otherErased,
        same id (List.mem_cons_of_mem _ member)]
    obtain ⟨last, otherRest⟩ := ih run remaining
    exact ⟨last, bind_ok.mpr ⟨next, _, otherFirst, otherRest⟩⟩

/-- The checks after the transactions read nothing from the pool. -/
theorem finishBlock_transfers {bl : Block} {id proof : Hash} {aliasesCount diff : Nat}
    {totals : BlockTotals}
    (run : finishBlock E bl id aliasesCount diff proof totals node = .ok () node')
    (other : Pool) :
    finishBlock E bl id aliasesCount diff proof totals { node with pool := other } =
      .ok () { node' with pool := other } := by
  simp only [finishBlock, get_bind] at run ⊢
  split at run
  · exact absurd run rejectBlock_ok
  · next few =>
    rw [if_neg few]
    cases reward : validateMinerTransaction node.chain.db bl totals.cumulativeBlockSize
        totals.feeSummary with
    | none =>
      simp only [reward, rejectBlock_ok] at run
    | some baseReward =>
      simp only [reward, bind_ok, reading_ok] at run ⊢
      obtain ⟨difficulties, _, ⟨cumulative, rfl⟩, run⟩ := run
      refine ⟨difficulties, _, ⟨cumulative, rfl⟩, ?_⟩
      split at run
      · exact absurd run rejectBlock_ok
      · next fresh =>
        rw [if_neg fresh]
        simp only [bind_ok] at run ⊢
        obtain ⟨median, _, computed, _, _, pushed, added⟩ := run
        exact ⟨median, _, (onChain_transfers computed other).1, _, _,
          (onChain_transfers pushed other).1, (onChain_transfers added other).1⟩

/-- A block that connects with one pool connects with every pool that holds the same versions of
its transactions. -/
theorem handleBlock_transfers {bl : Block} {id : Hash}
    (run : handleBlockToMainChain E bl id node = .ok () node')
    (same : SameVersions bl.txHashes node.pool other) :
    ∃ after, handleBlockToMainChain E bl id { node with pool := other } =
      .ok () { node' with pool := after } := by
  simp only [handleBlockToMainChain, connectCheckedBlock, bind_ok, get_ok] at run ⊢
  obtain ⟨⟨diff, proof⟩, checked, check, _, _, ⟨rfl, rfl⟩, _, mined, miner, totals, connected,
    connect, finish⟩ := run
  obtain ⟨otherCheck, checkedPool⟩ := onChain_transfers check other
  obtain ⟨otherMiner, minedPool⟩ := onChain_transfers miner other
  have listed : SameVersions bl.txHashes mined.pool other := by
    rwa [minedPool, checkedPool]
  obtain ⟨after, otherConnect⟩ := connectTransactions_transfers connect listed
  exact ⟨after, ⟨diff, proof⟩, _, otherCheck, _, _, ⟨rfl, rfl⟩, _, _, otherMiner, totals, _,
    otherConnect, finishBlock_transfers finish after⟩

end PoolVersions
end Virie
