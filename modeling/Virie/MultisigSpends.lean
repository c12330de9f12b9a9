import Virie.Chainstate.Payments
import Virie.DependencyHeight

/-! # Multisig outputs are spent once

Every multisig input of a transaction is checked against the height at which its output was
spent, before the transaction is connected. A multisig output that an earlier transaction of the
chain spent is therefore refused. The inputs of one transaction are all checked before any of
them is connected, and nothing compares their multisig outputs with each other. So the outputs
that a main chain spends are all different exactly when those of each transaction are. -/

open Foundation

namespace Virie

/-- The transactions of the main chain, block by block, the coinbase of a block first. -/
def Db.chainTransactions (db : Db) : List TransactionPrefix :=
  db.blocks.flatMap fun bei => bei.bl.minerTx.toTransactionPrefix :: db.blockTransactions bei.bl

/-- The ids of the multisig outputs that the inputs of the main chain spend, input by input. -/
def Db.multisigSpends (db : Db) : List Hash :=
  db.chainTransactions.flatMap TransactionPrefix.multisigInputIds

/-- Multisig outputs are marked as spent. -/
def Db.Consumed (db : Db) (ids : List Hash) : Prop :=
  ∀ id ∈ ids, ∃ ms, db.multisigOuts.get id = some ms ∧ ms.spentHeight ≠ 0

section Spends

variable {E : Env} {height : Nat} {tx : Transaction} {txId : Hash} {before after db : Db}
  {txs : List (Hash × Transaction)} {ids : List Hash} {node : Node}

/-! ## Connecting transactions -/

/-- The multisig outputs of a checked transaction are stored and unspent. -/
theorem ConnectsTx.unspent (connects : ConnectsTx E height tx txId before after) {id : Hash}
    (member : id ∈ tx.multisigInputIds) :
    ∃ ms, before.multisigOuts.get id = some ms ∧ ms.spentHeight = 0 := by
  obtain ⟨input, inside, spends⟩ := List.mem_filterMap.mp member
  cases input with
  | gen number => cases spends
  | toKey input => cases spends
  | multisig input =>
    cases spends
    obtain ⟨ms, _, _, _, found, unspent, _⟩ := connects.resolved _ inside
    exact ⟨ms, found, unspent⟩

/-- A stored multisig output is not created again. -/
theorem ConnectsTx.old (connects : ConnectsTx E height tx txId before after) {id : Hash}
    {ms : MsOutputEntry} (found : before.multisigOuts.get id = some ms) :
    after.multisigOuts.get id =
      some (if id ∈ tx.multisigInputIds then { ms with spentHeight := height } else ms) := by
  rw [connects.effect.oldMultisig, found]
  · split <;> rfl
  · intro created
    obtain ⟨entry, member, same⟩ := List.mem_map.mp created
    have fresh := (connects.effect.newMultisig entry member).1
    rw [same, found] at fresh
    cases fresh

/-- A connected transaction spends none of the outputs spent before, and marks those it spends. -/
theorem ConnectsTx.consumed (connects : ConnectsTx E height tx txId before after)
    (low : height = 0 → tx.multisigInputIds = []) (consumed : before.Consumed ids) :
    after.Consumed (ids ++ tx.multisigInputIds) ∧ ∀ id ∈ ids, id ∉ tx.multisigInputIds := by
  constructor
  · intro id member
    by_cases own : id ∈ tx.multisigInputIds
    · obtain ⟨ms, found, _⟩ := connects.unspent own
      refine ⟨_, connects.old found, ?_⟩
      rw [if_pos own]
      intro none
      rw [low none] at own
      cases own
    · obtain ⟨ms, found, spent⟩ := consumed id ((List.mem_append.mp member).resolve_right own)
      refine ⟨_, connects.old found, ?_⟩
      rwa [if_neg own]
  · intro id member own
    obtain ⟨ms, found, spent⟩ := consumed id member
    obtain ⟨other, foundToo, unspent⟩ := connects.unspent own
    cases found.symm.trans foundToo
    exact spent unspent

/-- The outputs that transactions spend on top of others are all different exactly when those of
each transaction are. -/
theorem ConnectsTxs.consumed (connects : ConnectsTxs E height txs before after)
    (low : height = 0 → ∀ entry ∈ txs, entry.2.multisigInputIds = [])
    (consumed : before.Consumed ids) :
    after.Consumed (ids ++ txs.flatMap fun entry => entry.2.multisigInputIds) ∧
      ((ids ++ txs.flatMap fun entry => entry.2.multisigInputIds).Nodup ↔
        ids.Nodup ∧ ∀ entry ∈ txs, entry.2.multisigInputIds.Nodup) := by
  induction connects generalizing ids with
  | nil => simpa using consumed
  | @cons txId tx rest before middle after first others ih =>
    obtain ⟨marked, apart⟩ := first.consumed (fun none => low none _ (.head _)) consumed
    have later := ih (fun none entry member => low none entry (.tail _ member)) marked
    rw [List.flatMap_cons, ← List.append_assoc]
    refine ⟨later.1, later.2.trans ?_⟩
    rw [List.nodup_append]
    have distinct : ∀ a ∈ ids, ∀ b ∈ tx.multisigInputIds, a ≠ b := by
      intro a inside b own same
      exact apart a inside (same ▸ own)
    simp only [List.mem_cons, forall_eq_or_imp]
    constructor
    · rintro ⟨⟨earlier, own, _⟩, rest⟩
      exact ⟨earlier, own, rest⟩
    · rintro ⟨earlier, own, rest⟩
      exact ⟨⟨earlier, own, distinct⟩, rest⟩

/-! ## Chains -/

/-- The transactions of a chain without those of its top block. -/
theorem Connects.chainTransactions {bei : BlockExtendedInfo} (built : Built E before)
    (connects : Connects E before bei txs after) :
    after.chainTransactions = before.chainTransactions ++
      (blockTxs E bei.bl txs).map fun entry => entry.2.toTransactionPrefix := by
  obtain ⟨connected, connectsTxs, same⟩ := connects.transactions
  have kept : ∀ {id tx}, before.storedTx id = some tx → after.storedTx id = some tx :=
    fun stored => (same.storedTx _).trans (connectsTxs.keepsStored stored)
  have stores : ∀ entry ∈ txs, after.storedTx entry.1 = some entry.2 :=
    fun entry member => (same.storedTx _).trans
      (connectsTxs.stores entry (List.mem_cons_of_mem _ member))
  unfold Db.chainTransactions
  rw [connects.blocks, List.flatMap_append, List.flatMap_singleton]
  congr 1
  · apply List.flatMap_congr
    intro other member
    obtain ⟨i, found⟩ := List.mem_iff_getElem?.mp member
    refine congrArg (List.cons _) (congrArg (List.map _) (List.filterMap_congr fun id inside => ?_))
    obtain ⟨tx, stored⟩ := (built.pays i other found).1 id inside
    rw [stored, kept stored]
  · rw [Db.blockTransactions, ← connects.txIds, filterMap_storedTx stores, List.map_map]
    rfl

/-- The outputs that a built chain spends are marked, and they are all different exactly when
those of each transaction are. -/
theorem Built.multisigSpends (built : Built E db) : db.Consumed db.multisigSpends ∧
    (db.multisigSpends.Nodup ↔ ∀ tx ∈ db.chainTransactions, tx.multisigInputIds.Nodup) := by
  refine built.invariant (P := fun db => db.Consumed db.multisigSpends ∧
    (db.multisigSpends.Nodup ↔ ∀ tx ∈ db.chainTransactions, tx.multisigInputIds.Nodup)) ?_ ?_ ?_
  · refine ⟨fun id member => ?_, ?_⟩
    · cases member
    · simp [Db.multisigSpends, Db.chainTransactions]
  · intro a b same holds
    have stored : a.storedTx = b.storedTx := funext same.toSameContents.storedTx
    have chain : a.chainTransactions = b.chainTransactions := by
      unfold Db.chainTransactions Db.blockTransactions
      rw [same.blocks, stored]
    unfold Db.multisigSpends Db.Consumed
    rw [chain, same.multisigOuts]
    exact holds
  · intro before after bei txs below connects genesis holds
    obtain ⟨connected, connectsTxs, same⟩ := connects.transactions
    have low : bei.height = 0 →
        ∀ entry ∈ blockTxs E bei.bl txs, entry.2.multisigInputIds = [] := by
      intro none entry member
      rw [connects.height, List.length_eq_zero_iff] at none
      rw [genesis none, blockTxs, List.mem_singleton] at member
      rw [member]
      exact multisigInputIds_coinbase connects.coinbase
    obtain ⟨marked, distinct⟩ := connectsTxs.consumed low holds.1
    have spends : after.multisigSpends = before.multisigSpends ++
        (blockTxs E bei.bl txs).flatMap fun entry => entry.2.multisigInputIds := by
      rw [Db.multisigSpends, connects.chainTransactions below, List.flatMap_append,
        List.flatMap_map]
      rfl
    rw [spends, connects.chainTransactions below]
    constructor
    · unfold Db.Consumed
      rw [same.multisigOuts]
      exact marked
    · rw [distinct, holds.2]
      simp only [List.mem_append, List.mem_map, or_imp, forall_and, forall_exists_index, and_imp,
        forall_apply_eq_imp_iff₂]

/-- In every reachable state the multisig outputs that the inputs of the main chain spend are all
different exactly when no transaction of the chain spends one of them with two inputs. -/
theorem multisigSpends_nodup_iff (reached : (nodeSystem E anyBlock).Reachable node) :
    node.chain.db.multisigSpends.Nodup ↔
      ∀ tx ∈ node.chain.db.chainTransactions, tx.multisigInputIds.Nodup :=
  (NodeBuilt.reachable reached).1.built.multisigSpends.2

end Spends

/-! ## One output, two inputs -/

namespace DoubledInput

open OlderMultisig

/-- A transaction that spends a multisig output twice, and the next block with it. -/
def robbed : Node :=
  (nodeSystem env anyBlock).after node
    [.incomingTx (spend [multisigInput, multisigInput]) 100 false,
      .submitBlock (mined 15 (coin - 2 * txMinimumFee) [⟨103⟩])]

/-- A transaction that spends the output once, and the next block with it. -/
def spent : Node :=
  (nodeSystem env anyBlock).after node
    [.incomingTx (spend [multisigInput, keyInput]) 100 false,
      .submitBlock (mined 15 (coin - 2 * txMinimumFee) [⟨103⟩])]

/-- The main chain spends a multisig output with two inputs of one transaction. -/
theorem spends_twice : (nodeSystem env anyBlock).Reachable robbed ∧
    ¬ robbed.chain.db.multisigSpends.Nodup :=
  ⟨node_reachable.after _, by decide +kernel⟩

theorem spends_once : spent.chain.db.multisigSpends = [⟨1000 + (coin - txMinimumFee)⟩] ∧
    spent.chain.db.multisigSpends.Nodup := by
  have reached : (nodeSystem env anyBlock).Reachable spent := node_reachable.after _
  have spends : spent.chain.db.multisigSpends = [⟨1000 + (coin - txMinimumFee)⟩] := by
    decide +kernel
  have single : ∀ tx ∈ spent.chain.db.chainTransactions, tx.multisigInputIds.Nodup := by
    decide +kernel
  exact ⟨spends, (multisigSpends_nodup_iff reached).mpr single⟩

end DoubledInput
end Virie
