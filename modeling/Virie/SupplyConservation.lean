import Virie.Chainstate.Payments
import Virie.Chainstate.Running
import Virie.Foundation.Ledger

/-! # The money of a chain

The coinbase of a block pays out a reward, the stake and the fees of its transactions, and the
chain counts the rewards, all in 64-bit arithmetic. As long as the schedule of rewards stays below
the size of a word and inputs spend outputs of the amounts they declare, no output twice, none of
these sums wraps around, and the money in the chain is what its blocks generated. -/

open Foundation

namespace Virie

/-! ## Amounts of a chain -/

/-- A block height, the number of a transaction in the block, and a position in the transaction. -/
abbrev Place := Nat × Nat × Nat

/-- The amounts that key and multisig inputs declare, with their positions. -/
def TransactionPrefix.spentAmounts (tx : TransactionPrefix) : List (Nat × Nat) :=
  tx.vin.zipIdx.filterMap fun entry =>
    if entry.1.isGen then none else some (entry.2, entry.1.amount)

/-- The amounts of the outputs with their positions. -/
def TransactionPrefix.createdAmounts (tx : TransactionPrefix) : List (Nat × Nat) :=
  tx.vout.zipIdx.map fun (out, i) => (i, out.amount)

/-- All transactions of a block, the coinbase first. -/
def Db.allTransactions (db : Db) (bl : Block) : List TransactionPrefix :=
  bl.minerTx.toTransactionPrefix :: db.blockTransactions bl

/-- The amounts that the key, multisig and coinstake inputs of the main chain declare. -/
def Db.inputAmounts (db : Db) : List (Place × Nat) :=
  numbered (fun bei => numbered TransactionPrefix.spentAmounts (db.allTransactions bei.bl)) db.blocks

/-- The amounts of the outputs of the main chain. -/
def Db.outputAmounts (db : Db) : List (Place × Nat) :=
  numbered (fun bei => numbered TransactionPrefix.createdAmounts (db.allTransactions bei.bl))
    db.blocks

/-- Inputs declare the amounts of the outputs they spend, which are in their own block or below,
and no output is spent twice. -/
structure Db.SpendsTruly (db : Db) (spends : Place → Place) : Prop where
  declared : ∀ place amount, (place, amount) ∈ db.inputAmounts →
    (spends place, amount) ∈ db.outputAmounts ∧ (spends place).1 ≤ place.1
  once : ∀ place ∈ db.inputAmounts.map Prod.fst, ∀ other ∈ db.inputAmounts.map Prod.fst,
    spends place = spends other → place = other

/-- The rewards that the schedule has for the blocks of the main chain. -/
def Db.scheduledEmission (db : Db) : Nat :=
  (db.blocks.map fun bei => getBaseBlockReward (isPosBlock bei.bl) (getBlockHeight bei.bl)).sum

/-- The coins that a chain generated, as its top block records them. -/
def generatedCoins (blocks : List BlockExtendedInfo) : Nat :=
  (blocks.getLast?.map BlockExtendedInfo.alreadyGeneratedCoins).getD 0

/-- The reward of a block of its size above the blocks below it. -/
def blockReward (below : List BlockExtendedInfo) (bei : BlockExtendedInfo) : Option Nat :=
  getBlockReward (isPosBlock bei.bl)
    (median (({ blocks := below } : Db).getLastNBlocksSizes currencyRewardBlocksWindow))
    bei.blockCumulativeSize (getBlockHeight bei.bl)

/-- The amount of the stake of a block. -/
def posIncome (bl : Block) : Nat :=
  if isPosBlock bl then ((coinstakeInput bl).map TxinToKey.amount).getD 0 else 0

/-- The sums of a block, with its reward and the fees of its transactions: they are exact, and
none of them reaches the size of a word. -/
structure ExactSums (below : List BlockExtendedInfo) (bei : BlockExtendedInfo)
    (txs : List TransactionPrefix) (baseReward : Nat) (fees : List Nat) : Prop where
  reward : blockReward below bei = some baseReward
  amounts : ∀ tx ∈ bei.bl.minerTx.toTransactionPrefix :: txs,
    tx.inputTotal < 2 ^ 64 ∧ tx.outputTotal < 2 ^ 64
  exactFees : List.Forall₂ (fun tx fee => validateTxAmounts tx = some fee ∧
    tx.inputTotal = tx.outputTotal + fee) txs fees
  feeSummary : fees.sum < 2 ^ 64
  payout : baseReward + posIncome bei.bl + fees.sum < 2 ^ 64
  paidOut : bei.bl.minerTx.outputTotal = baseReward + posIncome bei.bl + fees.sum
  generated : generatedCoins below + baseReward < 2 ^ 64
  recorded : bei.alreadyGeneratedCoins = generatedCoins below + baseReward

/-- The amounts of the coinbase of a block are words. -/
def WordBlock (bl : Block) : Prop := bl.minerTx.WordAmounts

/-- The amounts that a node is sent are words. -/
def Event.Words : Event → Prop
  | .submitBlock bl => WordBlock bl
  | .incomingTx tx _ _ => tx.WordAmounts
  | _ => True

instance Event.Words.decidable (event : Event) : Decidable event.Words :=
  match event with
  | .submitBlock bl => inferInstanceAs (Decidable bl.minerTx.WordAmounts)
  | .incomingTx tx _ _ => inferInstanceAs (Decidable tx.WordAmounts)
  | .truncate _ | .pruneAged | .removeStuck | .purgePool | .queryDifficulty _
  | .queryTimestampsMedian _ | .queryFeeMedian | .tick _ => inferInstanceAs (Decidable True)

section Supply

variable {E : Env} {db : Db} {tx : TransactionPrefix} {bei : BlockExtendedInfo} {node : Node}
  {below : List BlockExtendedInfo} {txs : List TransactionPrefix} {fees : List Nat}

/-! ## Amounts of a transaction -/

theorem nodup_spentAmounts (tx : TransactionPrefix) : (tx.spentAmounts.map Prod.fst).Nodup := by
  have positions : (tx.spentAmounts.map Prod.fst).Sublist (tx.vin.zipIdx.map Prod.snd) := by
    unfold TransactionPrefix.spentAmounts
    induction tx.vin.zipIdx with
    | nil => exact .slnil
    | cons entry rest ih =>
      by_cases gen : entry.1.isGen = true
      · simp only [List.filterMap_cons, if_pos gen]
        exact ih.cons _
      · simp only [List.filterMap_cons, if_neg gen]
        exact ih.cons_cons _
  exact (List.nodup_zipIdx_map_snd tx.vin).sublist positions

theorem sum_spentAmounts (tx : TransactionPrefix) :
    (tx.spentAmounts.map Prod.snd).sum = tx.inputTotal := by
  have total : ∀ (inputs : List Txin) (n : Nat), (((inputs.zipIdx n).filterMap fun entry =>
      if entry.1.isGen then none else some (entry.2, entry.1.amount)).map Prod.snd).sum =
        (inputs.map Txin.amount).sum := by
    intro inputs
    induction inputs with
    | nil => exact fun _ => rfl
    | cons input rest ih =>
      intro n
      rw [List.zipIdx_cons, List.filterMap_cons, List.map_cons, List.sum_cons]
      cases input with
      | gen height => exact (ih (n + 1)).trans (Nat.zero_add _).symm
      | toKey input => exact congrArg (input.amount + ·) (ih (n + 1))
      | multisig input => exact congrArg (input.amount + ·) (ih (n + 1))
  exact total tx.vin 0

theorem sum_createdAmounts (tx : TransactionPrefix) :
    (tx.createdAmounts.map Prod.snd).sum = tx.outputTotal := by
  rw [TransactionPrefix.createdAmounts, List.map_map, TransactionPrefix.outputTotal]
  conv_rhs => rw [← List.zipIdx_map_fst 0 tx.vout, List.map_map]
  rfl

/-! ## The ledger of a chain -/

/-- What a block issues, spends and creates. -/
def Db.posting (db : Db) (below : List BlockExtendedInfo) (bei : BlockExtendedInfo) : Posting where
  issued := (blockReward below bei).getD 0
  spent := ((db.allTransactions bei.bl).map TransactionPrefix.inputTotal).sum
  created := ((db.allTransactions bei.bl).map TransactionPrefix.outputTotal).sum

/-- The postings of the blocks of the main chain. -/
def Db.ledger (db : Db) : List Posting :=
  db.blocks.zipIdx.map fun (bei, i) => db.posting (db.blocks.take i) bei

theorem mem_ledger {posting : Posting} : posting ∈ db.ledger ↔
    ∃ i bei, db.blocks[i]? = some bei ∧ posting = db.posting (db.blocks.take i) bei := by
  simp only [Db.ledger, List.mem_map, Prod.exists, List.mem_zipIdx_iff_getElem?]
  constructor
  · rintro ⟨bei, i, found, rfl⟩
    exact ⟨i, bei, found, rfl⟩
  · rintro ⟨i, bei, found, rfl⟩
    exact ⟨bei, i, found, rfl⟩

/-- A field of the postings that does not depend on the blocks below. -/
theorem map_ledger_take {field : Posting → Nat} {value : BlockExtendedInfo → Nat}
    (same : ∀ below bei, field (db.posting below bei) = value bei) (n : Nat) :
    (db.ledger.take n).map field = (db.blocks.take n).map value := by
  rw [Db.ledger, ← List.map_take, List.map_map, List.map_take, List.map_take,
    ← List.zipIdx_map_fst 0 db.blocks]
  conv_rhs => rw [List.map_map]
  rw [List.zipIdx_map_fst]
  exact congrArg (List.take n) (List.map_congr_left fun entry _ => same _ _)

theorem totalSpent_take (n : Nat) : Ledger.totalSpent (db.ledger.take n) =
    ((numbered (fun bei => numbered TransactionPrefix.spentAmounts (db.allTransactions bei.bl))
      (db.blocks.take n)).map Prod.snd).sum := by
  rw [sum_numbered, Ledger.totalSpent]
  refine congrArg List.sum (map_ledger_take (fun _ bei => ?_) n)
  rw [sum_numbered]
  exact congrArg List.sum (List.map_congr_left fun tx _ => (sum_spentAmounts tx).symm)

theorem totalCreated_take (n : Nat) : Ledger.totalCreated (db.ledger.take n) =
    ((numbered (fun bei => numbered TransactionPrefix.createdAmounts (db.allTransactions bei.bl))
      (db.blocks.take n)).map Prod.snd).sum := by
  rw [sum_numbered, Ledger.totalCreated]
  refine congrArg List.sum (map_ledger_take (fun _ bei => ?_) n)
  rw [sum_numbered]
  exact congrArg List.sum (List.map_congr_left fun tx _ => (sum_createdAmounts tx).symm)

/-- What a chain with true spends spends is covered by what it created. -/
theorem covered_of_spendsTruly {spends : Place → Place} (truly : db.SpendsTruly spends) :
    Ledger.Covered db.ledger := by
  intro n
  rw [totalSpent_take, totalCreated_take]
  have inside : ∀ {place : Place} {amount : Nat},
      (place, amount) ∈ numbered (fun bei => numbered TransactionPrefix.spentAmounts
        (db.allTransactions bei.bl)) (db.blocks.take n) →
      place.1 < n ∧ (place, amount) ∈ db.inputAmounts := fun member =>
    mem_numbered_take.mp member
  refine @sum_le_of_assignment _ _ _ _ spends ?_ ?_ ?_
  · exact nodup_numbered fun bei _ => nodup_numbered fun tx _ => nodup_spentAmounts tx
  · intro place amount member
    obtain ⟨low, spent⟩ := inside member
    obtain ⟨created, order⟩ := truly.declared place amount spent
    exact mem_numbered_take.mpr ⟨Nat.lt_of_le_of_lt order low, created⟩
  · intro place member other otherMember same
    obtain ⟨⟨_, amount⟩, spent, rfl⟩ := List.mem_map.mp member
    obtain ⟨⟨_, otherAmount⟩, otherSpent, rfl⟩ := List.mem_map.mp otherMember
    exact truly.once _ (List.mem_map.mpr ⟨_, (inside spent).2, rfl⟩) _
      (List.mem_map.mpr ⟨_, (inside otherSpent).2, rfl⟩) same

/-! ## One block -/

/-- A reward is at most the one of the schedule. -/
theorem getBlockReward_le {isPos : Bool} {medianSize size height reward : Nat}
    (paid : getBlockReward isPos medianSize size height = some reward) :
    reward ≤ getBaseBlockReward isPos height := by
  unfold getBlockReward at paid
  dsimp only at paid
  split at paid
  · cases paid
    exact Nat.le_refl _
  · split at paid
    · cases paid
    · split at paid
      · next smaller =>
        cases paid
        exact Nat.le_of_lt smaller.2
      · cases paid

/-- The only amount that a coinbase of the required form spends is its stake. -/
theorem inputTotal_coinbase {bl : Block} {height : Nat}
    (valid : prevalidateMinerTransaction bl height (isPosBlock bl) = true) :
    bl.minerTx.inputTotal = posIncome bl := by
  simp only [prevalidateMinerTransaction, Bool.and_eq_true] at valid
  have form := valid.1.1.1.1
  unfold posIncome
  cases pos : isPosBlock bl with
  | false =>
    rw [pos] at form
    rw [if_neg Bool.false_ne_true, TransactionPrefix.inputTotal, List.sum_eq_zero_iff]
    intro amount member
    obtain ⟨input, inside, rfl⟩ := List.mem_map.mp member
    have gen := isGen_of_isPowCoinbase form inside
    cases input with
    | gen number => rfl
    | toKey input => cases gen
    | multisig input => cases gen
  | true =>
    rw [pos] at form
    simp only [↓reduceIte, Transaction.isPosCoinbase, TransactionPrefix.isCoinbase,
      Bool.and_eq_true] at form
    obtain ⟨first, second⟩ := form
    split at second
    · next gen stake vin =>
      rw [vin] at first
      rw [if_pos rfl, TransactionPrefix.inputTotal, coinstakeInput, vin]
      cases gen with
      | gen number => exact Nat.zero_add _
      | toKey input => cases first
      | multisig input => cases first
    · cases second

theorem posIncome_lt {bl : Block} (words : bl.minerTx.WordAmounts) : posIncome bl < 2 ^ 64 := by
  unfold posIncome
  split
  · cases staked : coinstakeInput bl with
    | none => decide
    | some input =>
      unfold coinstakeInput at staked
      split at staked
      · next first second vin =>
        cases staked
        exact words.inputs (.toKey input) (by rw [vin]; exact .tail _ (.head _))
      · cases staked
  · decide

/-- The sums of a block as the chain computed them, reduced to words. -/
structure WordSums (below : List BlockExtendedInfo) (bei : BlockExtendedInfo)
    (txs : List TransactionPrefix) (baseReward : Nat) (fees : List Nat) : Prop where
  reward : blockReward below bei = some baseReward
  scheduled : baseReward ≤ getBaseBlockReward (isPosBlock bei.bl) (getBlockHeight bei.bl)
  stake : bei.bl.minerTx.inputTotal = posIncome bei.bl
  amounts : ∀ tx ∈ bei.bl.minerTx.toTransactionPrefix :: txs,
    tx.inputTotal < 2 ^ 64 ∧ tx.outputTotal < 2 ^ 64
  exactFees : List.Forall₂ (fun tx fee => validateTxAmounts tx = some fee ∧
    tx.inputTotal = tx.outputTotal + fee) txs fees
  paidOut : bei.bl.minerTx.outputTotal = (baseReward + posIncome bei.bl + fees.sum) % 2 ^ 64
  recorded : bei.alreadyGeneratedCoins = (generatedCoins below + baseReward) % 2 ^ 64

theorem validateMinerTransaction_some {bl : Block} {size fee baseReward : Nat}
    (valid : validateMinerTransaction db bl size fee = some baseReward) :
    getBlockReward (isPosBlock bl) (median (db.getLastNBlocksSizes currencyRewardBlocksWindow)) size
        (getBlockHeight bl) = some baseReward ∧
      bl.minerTx.getOutsMoneyAmount = addU64 (addU64 baseReward (posIncome bl)) fee := by
  unfold validateMinerTransaction at valid
  dsimp only at valid
  split at valid
  · next income reward stake rewarded =>
    split at valid
    · next paid =>
      cases valid
      refine ⟨rewarded, ?_⟩
      have same : posIncome bl = income := by
        unfold posIncome
        split at stake
        · next pos => rw [if_pos pos, stake, Option.getD_some]
        · next pos =>
          cases stake
          rw [if_neg pos]
      rw [same, paid]
    · cases valid
  · cases valid

/-- What a block pays in words. -/
theorem Pays.wordSums (pays : Pays E below bei txs fees) (coinbase : bei.bl.minerTx.WordAmounts)
    (words : ∀ tx ∈ txs, tx.WordAmounts ∧ checkTxSemantic E tx = true) :
    ∃ baseReward, WordSums below bei txs baseReward fees := by
  obtain ⟨baseReward, valid, coins⟩ := pays.paysOut
  obtain ⟨reward, paid⟩ := validateMinerTransaction_some valid
  have stake := inputTotal_coinbase pays.coinbase
  have form := pays.coinbase
  simp only [prevalidateMinerTransaction, Bool.and_eq_true] at form
  have outputs := outputTotal_lt coinbase form.1.2
  refine ⟨baseReward, reward, getBlockReward_le reward, stake, fun tx member => ?_, ?_, ?_, coins⟩
  · rcases List.mem_cons.mp member with rfl | member
    · exact ⟨stake ▸ posIncome_lt coinbase, outputs⟩
    · exact totals_lt (words tx member).1 (words tx member).2
  · have both := (List.forall₂_and_left _ _).mpr ⟨words, pays.admitted⟩
    exact both.imp fun tx fee facts => ⟨facts.2, fee_exact facts.1.1 facts.1.2 facts.2⟩
  · rw [getOutsMoneyAmount_eq, Nat.mod_eq_of_lt outputs, sumU64] at paid
    rw [paid, addU64, addU64, Nat.mod_add_mod, Nat.add_mod_mod]


theorem sum_fees (exactFees : List.Forall₂ (fun tx fee => validateTxAmounts tx = some fee ∧
    tx.inputTotal = tx.outputTotal + fee) txs fees) :
    (txs.map TransactionPrefix.inputTotal).sum =
      (txs.map TransactionPrefix.outputTotal).sum + fees.sum := by
  induction exactFees with
  | nil => rfl
  | cons first others ih =>
    simp only [List.map_cons, List.sum_cons]
    have exact_ := first.2
    omega

theorem exists_fee (admitted : List.Forall₂ (fun tx fee => validateTxAmounts tx = some fee) txs fees) :
    ∀ tx ∈ txs, ∃ fee, validateTxAmounts tx = some fee := by
  induction admitted with
  | nil =>
    intro tx member
    cases member
  | cons first others ih =>
    intro tx member
    rcases List.mem_cons.mp member with rfl | member
    · exact ⟨_, first⟩
    · exact ih tx member

section Posting

variable {baseReward : Nat} (sums : WordSums below bei (db.blockTransactions bei.bl) baseReward fees)

include sums

/-- The posting of a block in terms of what it pays. -/
theorem WordSums.posting : (db.posting below bei).issued = baseReward ∧
    (db.posting below bei).spent = posIncome bei.bl +
      (((db.blockTransactions bei.bl).map TransactionPrefix.outputTotal).sum + fees.sum) ∧
    (db.posting below bei).created = bei.bl.minerTx.outputTotal +
      ((db.blockTransactions bei.bl).map TransactionPrefix.outputTotal).sum := by
  refine ⟨?_, ?_, ?_⟩
  · rw [Db.posting, sums.reward, Option.getD_some]
  · rw [Db.posting, Db.allTransactions, List.map_cons, List.sum_cons, sums.stake,
      sum_fees sums.exactFees]
  · rw [Db.posting, Db.allTransactions, List.map_cons, List.map_cons, List.sum_cons,
      List.sum_cons]

/-- The posting of a block balances up to what the arithmetic of words loses. -/
theorem WordSums.balancesModulo : (db.posting below bei).BalancesModulo (2 ^ 64) := by
  obtain ⟨issued, spent, created⟩ := sums.posting
  have paidOut := sums.paidOut
  constructor
  · have lost := Nat.mod_le (baseReward + posIncome bei.bl + fees.sum) (2 ^ 64)
    omega
  · rw [issued, spent, created, paidOut]
    have regrouped : baseReward + (posIncome bei.bl +
        (((db.blockTransactions bei.bl).map TransactionPrefix.outputTotal).sum + fees.sum)) =
        baseReward + posIncome bei.bl + fees.sum +
          ((db.blockTransactions bei.bl).map TransactionPrefix.outputTotal).sum := by
      omega
    rw [regrouped]
    exact (Nat.mod_modEq _ _).add_right _

/-- A block whose posting balances pays exactly, and so do the sums on the way. -/
theorem WordSums.exactSums (balances : (db.posting below bei).Balances)
    (generated : generatedCoins below + baseReward < 2 ^ 64) :
    ExactSums below bei (db.blockTransactions bei.bl) baseReward fees := by
  obtain ⟨issued, spent, created⟩ := sums.posting
  unfold Posting.Balances at balances
  have payout := (sums.amounts _ (.head _)).2
  have paidOut : bei.bl.minerTx.outputTotal = baseReward + posIncome bei.bl + fees.sum := by
    omega
  exact ⟨sums.reward, sums.amounts, sums.exactFees, by omega, by omega, paidOut, generated,
    by rw [sums.recorded, Nat.mod_eq_of_lt generated]⟩

end Posting

/-! ## A whole chain -/

theorem generatedCoins_take_succ {i : Nat} (found : db.blocks[i]? = some bei) :
    generatedCoins (db.blocks.take (i + 1)) = bei.alreadyGeneratedCoins := by
  rw [generatedCoins, List.take_add_one, found, Option.toList_some, List.getLast?_concat,
    Option.map_some, Option.getD_some]

theorem totalIssued_take_succ {i : Nat} (found : db.blocks[i]? = some bei) :
    Ledger.totalIssued (db.ledger.take (i + 1)) = Ledger.totalIssued (db.ledger.take i) +
      (db.posting (db.blocks.take i) bei).issued := by
  have entry : db.ledger[i]? = some (db.posting (db.blocks.take i) bei) := by
    rw [Db.ledger, List.getElem?_map, List.getElem?_zipIdx, found, Nat.zero_add, Option.map_some,
      Option.map_some]
  rw [List.take_add_one, entry, Ledger.totalIssued_append]
  exact congrArg (_ + ·) (Nat.add_zero _)

/-- A chain whose blocks pay in words, with a schedule that stays below the size of a word and
covered spends, pays exactly and holds the money that it generated. -/
theorem exactSums_of_wordSums (emission : db.scheduledEmission < 2 ^ 64)
    (covered : Ledger.Covered db.ledger)
    (paid : ∀ i bei, db.blocks[i]? = some bei → ∃ baseReward fees,
      WordSums (db.blocks.take i) bei (db.blockTransactions bei.bl) baseReward fees) :
    Ledger.totalCreated db.ledger = generatedCoins db.blocks + Ledger.totalSpent db.ledger ∧
      ∀ i bei, db.blocks[i]? = some bei → ∃ baseReward fees,
        ExactSums (db.blocks.take i) bei (db.blockTransactions bei.bl) baseReward fees := by
  have scheduled : Ledger.totalIssued db.ledger ≤ db.scheduledEmission := by
    rw [Db.scheduledEmission, ← List.zipIdx_map_fst 0 db.blocks, List.map_map, Ledger.totalIssued,
      Db.ledger, List.map_map]
    refine List.sum_le_sum fun entry member => ?_
    obtain ⟨baseReward, fees, sums⟩ := paid entry.2 entry.1 (List.mem_zipIdx_iff_getElem?.mp member)
    exact (congrArg (·.getD 0) sums.reward).trans_le sums.scheduled
  have below : Ledger.totalIssued db.ledger < 2 ^ 64 := Nat.lt_of_le_of_lt scheduled emission
  have balances := Ledger.balances_of_modulo covered below fun posting member => by
    obtain ⟨i, bei, found, rfl⟩ := mem_ledger.mp member
    obtain ⟨baseReward, fees, sums⟩ := paid i bei found
    exact sums.balancesModulo
  have partly : ∀ i, Ledger.totalIssued (db.ledger.take i) < 2 ^ 64 := by
    intro i
    have whole : Ledger.totalIssued db.ledger = Ledger.totalIssued (db.ledger.take i) +
        Ledger.totalIssued (db.ledger.drop i) := by
      rw [← Ledger.totalIssued_append, List.take_append_drop]
    omega
  -- The recorded coins are the rewards issued so far, since these never reach a word.
  have recorded : ∀ i ≤ db.blocks.length,
      generatedCoins (db.blocks.take i) = Ledger.totalIssued (db.ledger.take i) := by
    intro i inside
    induction i with
    | zero => rfl
    | succ i ih =>
      have found := List.getElem?_eq_getElem (Nat.lt_of_succ_le inside)
      obtain ⟨baseReward, fees, sums⟩ := paid i _ found
      have word := partly (i + 1)
      rw [totalIssued_take_succ found, sums.posting.1] at word ⊢
      rw [generatedCoins_take_succ found, sums.recorded, ih (Nat.le_of_succ_le inside),
        Nat.mod_eq_of_lt word]
  have size : db.ledger.length = db.blocks.length := by
    rw [Db.ledger, List.length_map, List.length_zipIdx]
  refine ⟨?_, fun i bei found => ?_⟩
  · have top := recorded db.blocks.length le_rfl
    rw [List.take_length, ← size, List.take_length] at top
    rw [Ledger.totalCreated_eq balances, top]
  · obtain ⟨baseReward, fees, sums⟩ := paid i bei found
    have inside := (List.getElem?_eq_some_iff.mp found).1
    have word := partly (i + 1)
    rw [totalIssued_take_succ found, sums.posting.1, ← recorded i (Nat.le_of_lt inside)] at word
    exact ⟨baseReward, fees, sums.exactSums (balances _ (mem_ledger.mpr ⟨i, bei, found, rfl⟩)) word⟩

/-! ## Runs -/

theorem storeRule_words : StoreRule E TransactionPrefix.WordAmounts WordBlock (fun _ _ => True)
    fun _ entry => 1 ≤ entry.height ∧ WordBlock entry.bl where
  aboveGenesis _ _ stored := stored.1
  isKnown _ _ stored := stored.2
  stores node bl position accepted _ words _ prepared := by
    constructor
    · rw [(altAccepted_of_prepare prepared).entryHeight]
      exact (altPlaced_of_prepare prepared).height_pos
    · rw [(altAccepted_of_prepare prepared).entryBl]
      exact words

theorem goodSubmission_of_words {event : Event} (words : event.Words) :
    GoodSubmission E WordBlock (fun _ _ => True) event node := by
  cases event with
  | submitBlock bl =>
    exact ⟨words, fun _ _ => ⟨trivial, fun _ _ _ _ _ _ _ _ _ _ _ => offersMeet_trivial _ _⟩⟩
  | _ => trivial

theorem goodIncoming_of_words {event : Event} (words : event.Words) :
    GoodIncoming TransactionPrefix.WordAmounts event node := by
  cases event with
  | incomingTx tx blobSize keptByBlock => exact words
  | _ => trivial

/-- The blocks of every run pay in words. -/
theorem wordSums_of_run
    (reached : (nodeSystem E WordBlock).Reaches (fun event _ => event.Words) node) (i : Nat)
    (bei : BlockExtendedInfo) (found : node.chain.db.blocks[i]? = some bei) :
    ∃ baseReward fees, WordSums (node.chain.db.blocks.take i) bei
      (node.chain.db.blockTransactions bei.bl) baseReward fees := by
  have runs : NodeBuilt E TransactionPrefix.WordAmounts WordBlock
      (Stored fun _ entry => 1 ≤ entry.height ∧ WordBlock entry.bl) node ∧
        node.chain.db.blocks ≠ [] :=
    reached.invariant (fun _ initial => NodeBuilt.start initial) fun _ _ _ meets holds =>
      holds.1.step storeRule_words holds.2 (goodIncoming_of_words meets)
        (goodSubmission_of_words meets)
  obtain ⟨built, _⟩ := runs
  obtain ⟨stored, fees, pays⟩ := built.built.pays i bei found
  have words : ∀ tx ∈ node.chain.db.blockTransactions bei.bl,
      tx.WordAmounts ∧ checkTxSemantic E tx = true := by
    intro tx member
    obtain ⟨fee, admitted⟩ := exists_fee pays.admitted tx member
    obtain ⟨whole, inside, rfl⟩ := List.mem_map.mp member
    obtain ⟨id, _, present⟩ := List.mem_filterMap.mp inside
    obtain ⟨entry, found, rfl⟩ := Option.map_eq_some_iff.mp present
    rcases (built.keeps.txs id entry found).2 with coinbase | admissible
    · rw [not_isCoinbase_of_admitted admitted] at coinbase
      cases coinbase
    · exact ⟨admissible.good, admissible.semantic⟩
  obtain ⟨baseReward, sums⟩ := pays.wordSums (built.known bei (List.mem_of_getElem? found)) words
  exact ⟨baseReward, fees, sums⟩

/-- In every run the outputs of the main chain less its inputs are the coins that its top block
records as generated, and no sum of a block wraps around, as long as the scheduled rewards stay
below the size of a word, inputs declare the amounts of the outputs they spend, and no output is
spent twice. -/
theorem supply_conserved
    (reached : (nodeSystem E WordBlock).Reaches (fun event _ => event.Words) node)
    (emission : node.chain.db.scheduledEmission < 2 ^ 64) {spends : Place → Place}
    (truly : node.chain.db.SpendsTruly spends) :
    ((node.chain.db.outputAmounts.map Prod.snd).sum : ℤ) -
        (node.chain.db.inputAmounts.map Prod.snd).sum = generatedCoins node.chain.db.blocks ∧
      ∀ i bei, node.chain.db.blocks[i]? = some bei → ∃ baseReward fees,
        ExactSums (node.chain.db.blocks.take i) bei (node.chain.db.blockTransactions bei.bl)
          baseReward fees := by
  obtain ⟨balance, sums⟩ := exactSums_of_wordSums emission (covered_of_spendsTruly truly)
    (wordSums_of_run reached)
  refine ⟨?_, sums⟩
  have size : node.chain.db.ledger.length = node.chain.db.blocks.length := by
    rw [Db.ledger, List.length_map, List.length_zipIdx]
  have created := @totalCreated_take node.chain.db node.chain.db.blocks.length
  have spent := @totalSpent_take node.chain.db node.chain.db.blocks.length
  rw [List.take_length, ← size, List.take_length] at created spent
  change _ = (node.chain.db.outputAmounts.map Prod.snd).sum at created
  change _ = (node.chain.db.inputAmounts.map Prod.snd).sum at spent
  omega

end Supply

/-! ## A stake and a fee -/

namespace PaidFee

/-- Stakes are allowed from the second block on. -/
def env : Env := { Env.plain with posMinimumHeigh := 2, minCoinstakeAge := 1 }

def genesis : Block := .plain 1 0 premineAmount nullHash []

def mined (height : Nat) : Block :=
  { Block.plain (height + 1) height coin ⟨height⟩ [] with timestamp := 120 * height }

/-- An input that spends the coin with a global index. -/
def coinInput (globalIndex : Nat) : TxinToKey where
  amount := coin
  keyOffsets := [.index globalIndex]
  kImage := ⟨globalIndex⟩
  etcDetails := []

/-- A transaction that spends the second coin and leaves the least fee. -/
def spend : Transaction where
  version := 101
  vin := [.toKey (coinInput 1)]
  vout := [⟨coin - txMinimumFee, .toKey ⟨⟨7⟩, 0⟩⟩]
  extra := []
  signatures := [[⟨0⟩]]
  attachment := []

/-- A proof-of-stake block that stakes the first coin and takes the fee. -/
def staked : Block :=
  let base := Block.plain 14 13 (2 * coin + txMinimumFee) ⟨13⟩ [⟨101⟩]
  { base with
    timestamp := 1560
    flags := 1
    minerTx :=
      { base.minerTx with
        vin := [.gen 13, .toKey (coinInput 0)]
        signatures := [[⟨0⟩]] } }

def events : List Event :=
  ((List.range' 1 12).map fun height => Event.submitBlock (mined height)) ++
    [.incomingTx spend 100 false, .submitBlock staked]

def node : Node :=
  (nodeSystem env WordBlock).after (addNewBlock env genesis (Node.fresh 1000000)).2 events

theorem node_reached : (nodeSystem env WordBlock).Reaches (fun event _ => event.Words) node := by
  have words : ∀ event ∈ events, event.Words := by decide
  refine System.Reaches.after ?_ (System.meets_of_forall fun event member _ => words event member)
  refine .start ⟨genesis, 1000000, ?_, rfl, by decide, rfl⟩
  exact ⟨by decide, by decide⟩

/-- The stake spends the first coin, the transaction the second one. -/
def spends (place : Place) : Place := if place = (13, 0, 1) then (1, 0, 0) else (2, 0, 0)

/-- What the node spends and where it was created, with the length of its chain. -/
theorem node_facts : node.chain.db.inputAmounts = [((13, 0, 1), coin), ((13, 1, 0), coin)] ∧
    ((1, 0, 0), coin) ∈ node.chain.db.outputAmounts ∧
    ((2, 0, 0), coin) ∈ node.chain.db.outputAmounts ∧
    node.chain.db.scheduledEmission < 2 ^ 64 ∧ node.chain.db.blocks.length = 14 := by
  decide +kernel

theorem spendsTruly : node.chain.db.SpendsTruly spends := by
  obtain ⟨inputAmounts_eq, first_created, second_created, _, _⟩ := node_facts
  constructor
  · intro place amount member
    rw [inputAmounts_eq] at member
    rcases List.mem_cons.mp member with same | member
    · cases same
      exact ⟨first_created, by decide⟩
    · cases List.mem_singleton.mp member
      exact ⟨second_created, by decide⟩
  · rw [inputAmounts_eq]
    decide

end PaidFee

/-- The supply of a chain whose top block has a stake and a transaction with a fee. -/
theorem supply_conserved_paidFee : PaidFee.node.chain.db.blocks.length = 14 ∧
    ((PaidFee.node.chain.db.outputAmounts.map Prod.snd).sum : ℤ) -
        (PaidFee.node.chain.db.inputAmounts.map Prod.snd).sum =
      generatedCoins PaidFee.node.chain.db.blocks :=
  ⟨PaidFee.node_facts.2.2.2.2,
    (supply_conserved PaidFee.node_reached PaidFee.node_facts.2.2.2.1 PaidFee.spendsTruly).1⟩

end Virie
