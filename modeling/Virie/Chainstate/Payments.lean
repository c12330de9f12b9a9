import Virie.Amounts
import Virie.Chainstate.History

/-! # What the blocks of a chain pay

The transactions of the blocks of a main chain stay stored, each left a fee when the pool
admitted it, and the coinbase of each block pays out the reward, the stake and the fees. All of
this is said in the arithmetic of the source here: sums of amounts are reduced to 64 bits. -/

open Foundation

namespace Virie

section Payments

variable {E : Env} {tx : TransactionPrefix} {before after db : Db} {bei : BlockExtendedInfo}

/-- The inputs of an admitted transaction cover its outputs, and the fee is the exact rest. -/
theorem fee_exact {fee : Nat} (words : tx.WordAmounts) (semantic : checkTxSemantic E tx = true)
    (admitted : validateTxAmounts tx = some fee) : tx.inputTotal = tx.outputTotal + fee := by
  obtain ⟨inputs, outputs⟩ := totals_lt words semantic
  unfold validateTxAmounts at admitted
  split at admitted
  · cases admitted
  · next amount sum =>
    have whole := (getInputsMoneyAmount_some sum).1
    rw [Nat.mod_eq_of_lt inputs] at whole
    split at admitted
    · cases admitted
    · split at admitted
      · cases admitted
      · next covered =>
        cases admitted
        rw [getOutsMoneyAmount_eq, Nat.mod_eq_of_lt outputs] at covered ⊢
        omega

/-- A transaction with a fee is no coinbase: the amount of its first input would be zero. -/
theorem not_isCoinbase_of_admitted {fee : Nat} (admitted : validateTxAmounts tx = some fee) :
    tx.isCoinbase = false := by
  rw [Bool.eq_false_iff]
  intro coinbase
  unfold validateTxAmounts at admitted
  split at admitted
  · cases admitted
  · next amount sum =>
    unfold TransactionPrefix.isCoinbase at coinbase
    split at coinbase
    · next height rest vin =>
      exact (getInputsMoneyAmount_some sum).2 (.gen height) (by rw [vin]; exact .head _) rfl
    · cases coinbase

/-! ## Stored transactions -/

/-- A stored transaction. -/
def Db.storedTx (db : Db) (id : Hash) : Option Transaction :=
  (db.transactions.get id).map TransactionChainEntry.tx

theorem SameContents.storedTx (same : SameContents before after) (id : Hash) :
    before.storedTx id = after.storedTx id := by
  have related := same.transactions id
  unfold Db.storedTx
  generalize before.transactions.get id = first at related ⊢
  generalize after.transactions.get id = second at related ⊢
  cases related with
  | none => rfl
  | some entries => exact congrArg some entries.tx

theorem ConnectsTx.storedTx {height : Nat} {tx : Transaction} {txId : Hash}
    (connects : ConnectsTx E height tx txId before after) (id : Hash) :
    after.storedTx id = if id = txId then some tx else before.storedTx id := by
  unfold Db.storedTx
  by_cases here : id = txId
  · obtain ⟨indexes, entered⟩ := connects.effect.entered
    rw [if_pos here, here, entered]
    rfl
  · rw [if_neg here, connects.effect.others id here, Option.map_map]
    cases before.transactions.get id with
    | none => rfl
    | some entry => exact congrArg some (TransactionChainEntry.markAll_tx _ _ _)

theorem ConnectsTx.fresh {height : Nat} {tx : Transaction} {txId : Hash}
    (connects : ConnectsTx E height tx txId before after) : before.storedTx txId = none := by
  rw [Db.storedTx, connects.effect.fresh]
  rfl

variable {height : Nat} {txs : List (Hash × Transaction)}

theorem ConnectsTx.keepsStoredTx {height : Nat} {tx : Transaction} {txId : Hash}
    (connects : ConnectsTx E height tx txId before after) {id : Hash} {other : Transaction}
    (stored : before.storedTx id = some other) : after.storedTx id = some other := by
  rw [connects.storedTx, if_neg, stored]
  rintro rfl
  rw [connects.fresh] at stored
  cases stored

/-- Connecting transactions keeps the stored ones. -/
theorem ConnectsTxs.keepsStored (connects : ConnectsTxs E height txs before after) {id : Hash}
    {tx : Transaction} (stored : before.storedTx id = some tx) : after.storedTx id = some tx := by
  induction connects with
  | nil => exact stored
  | cons first others ih => exact ih (first.keepsStoredTx stored)

/-- Connecting transactions stores them. -/
theorem ConnectsTxs.stores (connects : ConnectsTxs E height txs before after) :
    ∀ entry ∈ txs, after.storedTx entry.1 = some entry.2 := by
  induction connects with
  | nil =>
    intro entry member
    cases member
  | cons first others ih =>
    intro entry member
    rcases List.mem_cons.mp member with rfl | member
    · exact others.keepsStored (by rw [first.storedTx, if_pos rfl])
    · exact ih entry member

/-! ## Payments -/

/-- The transactions of a block as they are stored, without the coinbase. -/
def Db.blockTransactions (db : Db) (bl : Block) : List TransactionPrefix :=
  (bl.txHashes.filterMap db.storedTx).map Transaction.toTransactionPrefix

/-- A block has the required coinbase, pays out what its transactions leave as fees and records
their sizes and the median of the fees, of which those that are zero do not count. -/
structure Pays (E : Env) (below : List BlockExtendedInfo) (bei : BlockExtendedInfo)
    (txs : List TransactionPrefix) (fees : List Nat) : Prop where
  coinbase : prevalidateMinerTransaction bei.bl below.length (isPosBlock bei.bl) = true
  admitted : List.Forall₂ (fun tx fee => validateTxAmounts tx = some fee) txs fees
  paysOut : PaysOut { blocks := below } bei fees
  size : bei.blockCumulativeSize =
    coinbaseSizeContribution E bei.bl + (txs.map (getObjectBlobsize E)).sum
  feeMedian : bei.thisBlockTxFeeMedian = median (fees.filter (· ≠ 0))
  recalculated : below.length % aliasMedianRecalcInterwal = 0 → bei.effectiveTxFeeMedian =
    if below.length = 0 then 0 else recalculatedFeeMedian { blocks := below } below.length

theorem PaysOut.congr {other : Db} {fees : List Nat} (pays : PaysOut before bei fees)
    (same : before.blocks = other.blocks) : PaysOut other bei fees := by
  obtain ⟨baseReward, reward, coins⟩ := pays
  refine ⟨baseReward, ?_, ?_⟩
  · rw [← reward, validateMinerTransaction_congr same]
  · rw [coins, same]

theorem filterMap_storedTx (all : ∀ entry ∈ txs, db.storedTx entry.1 = some entry.2) :
    (txs.map Prod.fst).filterMap db.storedTx = txs.map Prod.snd := by
  rw [List.filterMap_map, ← List.filterMap_eq_map]
  exact List.filterMap_congr fun entry member => all entry member

/-- The transactions of the blocks of a chain stay stored, and each block pays. -/
theorem Built.pays (built : Built E db) : ∀ i bei, db.blocks[i]? = some bei →
    (∀ id ∈ bei.bl.txHashes, ∃ tx, db.storedTx id = some tx) ∧
      ∃ fees, Pays E (db.blocks.take i) bei (db.blockTransactions bei.bl) fees := by
  refine built.invariant (P := fun db => ∀ i bei, db.blocks[i]? = some bei →
    (∀ id ∈ bei.bl.txHashes, ∃ tx, db.storedTx id = some tx) ∧
      ∃ fees, Pays E (db.blocks.take i) bei (db.blockTransactions bei.bl) fees) ?_ ?_ ?_
  · intro i bei found
    simp at found
  · intro a b same all i bei found
    have stored : a.storedTx = b.storedTx := funext same.toSameContents.storedTx
    rw [same.blocks] at found ⊢
    rw [Db.blockTransactions, stored]
    exact all i bei found
  · intro before after bei txs _ connects _ all i other found
    obtain ⟨connected, connectsTxs, same⟩ := connects.transactions
    have kept : ∀ {id tx}, before.storedTx id = some tx → after.storedTx id = some tx :=
      fun stored => (same.storedTx _).trans (connectsTxs.keepsStored stored)
    rw [connects.blocks] at found ⊢
    rcases Nat.lt_or_ge i before.blocks.length with inside | outside
    · rw [List.getElem?_append_left inside] at found
      rw [List.take_append_of_le_length (Nat.le_of_lt inside)]
      obtain ⟨stored, fees, pays⟩ := all i other found
      have sameTxs : after.blockTransactions other.bl = before.blockTransactions other.bl := by
        refine congrArg (List.map _) (List.filterMap_congr fun id member => ?_)
        obtain ⟨tx, found⟩ := stored id member
        rw [found, kept found]
      rw [sameTxs]
      exact ⟨fun id member => (stored id member).imp fun _ => kept, fees, pays⟩
    · rw [List.getElem?_append_right outside, List.getElem?_singleton] at found
      split at found
      · next top =>
        cases found
        have here : i = before.blocks.length := by omega
        have stores : ∀ entry ∈ txs, after.storedTx entry.1 = some entry.2 :=
          fun entry member => (same.storedTx _).trans
            (connectsTxs.stores entry (List.mem_cons_of_mem _ member))
        have sameTxs : after.blockTransactions bei.bl =
            txs.map fun entry => entry.2.toTransactionPrefix := by
          rw [Db.blockTransactions, ← connects.txIds, filterMap_storedTx stores, List.map_map]
          rfl
        refine ⟨fun id member => ?_, ?_⟩
        · rw [← connects.txIds] at member
          obtain ⟨entry, inside, rfl⟩ := List.mem_map.mp member
          exact ⟨entry.2, stores entry inside⟩
        · obtain ⟨fees, admitted, paysOut, feeMedian⟩ := connects.paid
          have coinbase := connects.coinbase
          rw [connects.height] at coinbase
          rw [sameTxs, here, List.take_left]
          refine ⟨fees, coinbase, List.forall₂_map_left_iff.mpr admitted, paysOut.congr rfl, ?_,
            feeMedian, fun multiple => ?_⟩
          · rw [connects.size, List.map_map]
            rfl
          · rw [connects.recalculated (connects.height ▸ multiple), connects.height]
            rfl
      · cases found

end Payments
end Virie
