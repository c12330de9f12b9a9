import Virie.Wallet.EntryAmounts
import Virie.Wallet.Likeness

/-! # Recorded amounts

The wallet takes the fee of a whole transaction off what it spent, whoever paid it. The amount of
an entry is then the exact change of its money, net of its own part of the fee, when the wallet
paid all of the fee or spent nothing. In a transaction of several wallets it is wrong for everybody
who paid less, and it wraps around where the fee exceeds what is left of the inputs after the
change. In the pool, an output with a known key image counts, which a block does not bring, and a
message to oneself is income. -/

open Foundation Foundation.Procedure

namespace Virie.Wallet

/-! ## Direction and amount -/

section Amounts

variable (W : WalletEnv)

/-- Whether the history entry of a transaction is an income, and its amount. -/
def historyAmount (tx : Transaction) (derivation : KeyDerivation) (spent got : Nat)
    (spentIndices : List Nat) : Option (Bool × Nat) :=
  if spent ≠ 0 then
    if got < spent then some (false, subU64 spent (addU64 got tx.getTxFee))
    else some (true, subU64 got (subU64 spent tx.getTxFee))
  else if got ≠ 0 then some (true, got)
  else if isDerivationUsedToEncrypt W tx derivation then some (true, 0)
  else if spentIndices ≠ [] then some (false, 0)
  else none

/-- A pool transaction is taken for income. -/
def comesIn (txExpirationTsMedian : Nat) (tx : Transaction) (derivation : KeyDerivation)
    (spent got : Nat) : Bool :=
  ((spent == 0 && got != 0) || isDerivationUsedToEncrypt W tx derivation) &&
    !tx.isTxExpired txExpirationTsMedian

/-- Whether the unconfirmed entry of a pool transaction is an income, and its amount. -/
def poolAmount (txExpirationTsMedian : Nat) (tx : Transaction) (own : AccOuts)
    (spends : PoolSpends) : Option (Bool × Nat) :=
  if comesIn W txExpirationTsMedian tx own.derivation spends.moneySpentInIns
      own.moneyTransfered then some (true, own.moneyTransfered)
  else if spends.moneySpentInIns ≠ 0 ∨ spends.newMultisigSpendDetected = true then
    some (false, if spends.newMultisigSpendDetected then 0
      else subU64 spends.moneySpentInIns (addU64 own.moneyTransfered tx.getTxFee))
  else none

/-- An unconfirmed entry as it is filled in. -/
def poolWti (coreTime : Nat) (tx : Transaction) (isIncome : Bool) (amount : Nat)
    (td : MoneyTransfer2Details) : WalletTransferInfo :=
  prepareWtiDecryptedAttachments W (decryptedFor W isIncome tx td)
    { emptyWti isIncome ([], []) with
      tx
      amount
      height := 0
      td := fillTransferDetails tx td ⟨[], []⟩
      timestamp := coreTime
      fee := tx.getTxFee
      unlockTime := tx.getTxUnlockTime }

/-- The recipients that an entry names: those of an unconfirmed entry, if it is no income. -/
def namedRecipients (isIncome : Bool) (recipients : List String × List String) :
    List String × List String :=
  if isIncome then ([], []) else recipients

theorem recordTransfer_eq (b : Block) (tx : Transaction) (derivation : KeyDerivation)
    (spent got : Nat) (mtd : MoneyTransfer2Details) (recipients : List String × List String) :
    recordTransfer W b tx derivation spent got mtd recipients =
      match historyAmount W tx derivation spent got mtd.spentIndices with
      | some (isIncome, amount) =>
        pushHistory W b tx amount mtd (emptyWti isIncome (namedRecipients isIncome recipients))
      | none => pure () := by
  unfold recordTransfer historyAmount
  split
  · split
    · rfl
    · rfl
  · split
    · rfl
    · split
      · rfl
      · split
        · rfl
        · rfl

theorem recordPoolSpends_eq (txExpirationTsMedian coreTime : Nat) (tx : Transaction)
    (own : AccOuts) (spends : PoolSpends) :
    recordPoolSpends W txExpirationTsMedian coreTime tx own spends =
      match poolAmount W txExpirationTsMedian tx own spends with
      | some (isIncome, amount) =>
        recordPoolTx W coreTime tx amount ⟨own.outs, spends.spentIndices⟩ isIncome
          (if isIncome then [] else spends.spendTransfers)
      | none => pure () := by
  unfold recordPoolSpends poolAmount comesIn
  dsimp only
  split
  · rfl
  · split
    · rfl
    · rfl

end Amounts

/-! ## Entries that a wallet puts down -/

/-- Processing a transaction puts an entry into the history. -/
inductive PutsInHistory (W : WalletEnv) (delivered : DeliveredTx) (height : Nat) (b : Block)
    (w : Wallet) : WalletTransferInfo → Prop
  | intro {w₁ w₂ w₃ : Wallet} {recipients : List String × List String} {extra : TxExtraInfo}
      {spends : SpendProgress} {own : AccOuts} {received : ReceiveProgress} {isIncome : Bool}
      {amount : Nat} (sent : processUnconfirmed W delivered.tx w = .ok recipients w₁)
      (parsed : delivered.tx.parseAndValidateTxExtra = some extra)
      (scanned : processInputs delivered.tx.isCoinbase height 0 delivered.tx.vin
        { isDerivedFromCoinbase := !delivered.tx.isPosCoinbase } w₁ = .ok spends w₂)
      (looked : lookupAccOuts W delivered.tx extra.txPubKey = some own)
      (taken : receiveAll W delivered height b.timestamp extra.txPubKey own
        spends.isDerivedFromCoinbase w₂ = .ok received w₃)
      (recorded : historyAmount W delivered.tx own.derivation spends.moneySpentInIns
        received.moneyGotInOuts spends.spentIndices = some (isIncome, amount)) :
    PutsInHistory W delivered height b w
      (filledWti W b delivered.tx amount ⟨received.receiveIndices, spends.spentIndices⟩
        (emptyWti isIncome (namedRecipients isIncome recipients))
        (decryptedFor W isIncome delivered.tx ⟨received.receiveIndices, spends.spentIndices⟩))

/-- Looking into a transaction of the pool makes it an unconfirmed entry. -/
inductive PutsUnconfirmed (W : WalletEnv) (txExpirationTsMedian coreTime : Nat)
    (fromTxPool : List Hash) (tx : Transaction) (w : Wallet) : WalletTransferInfo → Prop
  | intro {w₁ : Wallet} {extra : TxExtraInfo} {own : AccOuts} {spends : PoolSpends}
      {isIncome : Bool} {amount : Nat} (parsed : tx.parseAndValidateTxExtra = some extra)
      (looked : lookupAccOuts W tx extra.txPubKey = some own)
      (scanned : scanPoolInputs 0 tx.vin { fromTxPool } w = .ok spends w₁)
      (recorded : poolAmount W txExpirationTsMedian tx own spends = some (isIncome, amount))
      (fresh : w₁.unconfirmedTxs.has (getTransactionHash W.core tx.toTransactionPrefix) = false) :
    PutsUnconfirmed W txExpirationTsMedian coreTime fromTxPool tx w
      (poolWti W coreTime tx isIncome amount ⟨own.outs, spends.spentIndices⟩)

section Entries

variable {W : WalletEnv} {tx : Transaction} {w : Wallet} {paid : Nat} {e : WalletTransferInfo}
  {delivered : DeliveredTx} {height : Nat} {b : Block} {txExpirationTsMedian coreTime : Nat}
  {fromTxPool : List Hash}

/-- The run goes on from the history with the entry, and handles its escrow attachments. -/
theorem PutsInHistory.run (puts : PutsInHistory W delivered height b w e) :
    ∃ before att, processNewTransaction W delivered height b w =
      (processContractInfo W .lastOfHistory att att e >>= fun _ => pure ())
        (withHistory before e) := by
  cases puts with
  | @intro w₁ w₂ w₃ recipients extra spends own received isIncome amount sent parsed scanned looked
      taken recorded =>
    refine ⟨receivePayment W delivered.tx height spends.moneySpentInIns received.moneyGotInOuts w₃,
      decryptedFor W isIncome delivered.tx ⟨received.receiveIndices, spends.spentIndices⟩, ?_⟩
    unfold processNewTransaction
    rw [bind_of_ok sent, parsed, bind_of_ok (demandEx_ok.mpr ⟨rfl, rfl⟩), bind_of_ok scanned,
      looked, bind_of_ok (demandEx_ok.mpr ⟨rfl, rfl⟩), bind_of_ok taken,
      bind_of_ok (show (modify _ : Procedure Wallet PUnit) w₃ = .ok ⟨⟩ _ from rfl),
      recordTransfer_eq, recorded]
    exact pushHistory_eq W b delivered.tx _ _ _ _

/-- A transaction that is no unconfirmed entry becomes one; its escrow attachments are handled and
the transfers that it spends are marked. -/
theorem recordPoolTx_of_new {amount : Nat} {td : MoneyTransfer2Details} {isIncome : Bool}
    {transfers : List TransferIndex}
    (fresh : w.unconfirmedTxs.has (getTransactionHash W.core tx.toTransactionPrefix) = false) :
    recordPoolTx W coreTime tx amount td isIncome transfers w =
      ((processContractInfo W
          (.unconfirmed (getTransactionHash W.core tx.toTransactionPrefix))
          (decryptedFor W isIncome tx td) (decryptedFor W isIncome tx td)
          (poolWti W coreTime tx isIncome amount td) >>= fun _ => pure ()) >>= fun _ =>
        forEach (markSpentByUnconfirmed (getTransactionHash W.core tx.toTransactionPrefix))
          transfers)
      (setWti (.unconfirmed (getTransactionHash W.core tx.toTransactionPrefix))
        (poolWti W coreTime tx isIncome amount td)
        { w with
          unconfirmedInTransfers := w.unconfirmedInTransfers.set
            (getTransactionHash W.core tx.toTransactionPrefix) tx }) := by
  unfold recordPoolTx
  rw [bind_of_ok (show (modify _ : Procedure Wallet PUnit) w = .ok ⟨⟩ _ from rfl), get_bind,
    if_neg (by rw [fresh]; exact Bool.false_ne_true)]
  rfl

/-- The run goes on from the wallet with the unconfirmed entry. -/
theorem PutsUnconfirmed.run
    (puts : PutsUnconfirmed W txExpirationTsMedian coreTime fromTxPool tx w e) :
    ∃ before att transfers found,
      scanNewPoolTx W txExpirationTsMedian coreTime fromTxPool tx w =
        (((processContractInfo W
            (.unconfirmed (getTransactionHash W.core tx.toTransactionPrefix)) att att e >>=
            fun _ => pure ()) >>= fun _ =>
          forEach (markSpentByUnconfirmed (getTransactionHash W.core tx.toTransactionPrefix))
            transfers) >>= fun _ => pure found)
        (setWti (.unconfirmed (getTransactionHash W.core tx.toTransactionPrefix)) e before) := by
  cases puts with
  | @intro w₁ extra own spends isIncome amount parsed looked scanned recorded fresh =>
    refine ⟨{ w₁ with
        unconfirmedInTransfers := w₁.unconfirmedInTransfers.set
          (getTransactionHash W.core tx.toTransactionPrefix) tx },
      decryptedFor W isIncome tx ⟨own.outs, spends.spentIndices⟩,
      if isIncome then [] else spends.spendTransfers, spends.fromTxPool, ?_⟩
    unfold scanNewPoolTx
    rw [parsed, bind_of_ok (demandEx_ok.mpr ⟨rfl, rfl⟩), looked,
      bind_of_ok (demandEx_ok.mpr ⟨rfl, rfl⟩), bind_of_ok scanned, recordPoolSpends_eq, recorded]
    dsimp only
    have entered := @recordPoolTx_of_new W tx w₁ coreTime amount ⟨own.outs, spends.spentIndices⟩
      isIncome (if isIncome then [] else spends.spendTransfers) fresh
    change EStateM.bind _ _ _ = EStateM.bind _ _ _
    rw [EStateM.bind, EStateM.bind, entered]

/-! ## Exactness -/

/-- An amount is exact: the wallet that had `spent` taken and `got` brought, and paid a part of the
fee, received or sent the amount besides. -/
def ExactAmount (spent got paid : Nat) (isIncome : Bool) (amount : Nat) : Prop :=
  if isIncome then got + paid = spent + amount else spent = got + paid + amount

theorem historyAmount_exact_iff {derivation : KeyDerivation} {spent got amount : Nat}
    {spentIndices : List Nat} {isIncome : Bool} (word : spent < 2 ^ 64)
    (fits : got + tx.getTxFee < 2 ^ 64) (share : paid ≤ tx.getTxFee) (own : paid ≤ spent)
    (recorded : historyAmount W tx derivation spent got spentIndices = some (isIncome, amount)) :
    ExactAmount spent got paid isIncome amount ↔
      spent = 0 ∨ paid = tx.getTxFee ∧ (got < spent → got + tx.getTxFee ≤ spent) := by
  unfold historyAmount at recorded
  unfold ExactAmount
  have sum : addU64 got tx.getTxFee = got + tx.getTxFee := Nat.mod_eq_of_lt fits
  rw [sum] at recorded
  generalize tx.getTxFee = fee at *
  split at recorded
  · next spends =>
    split at recorded
    · next more =>
      obtain ⟨rfl, rfl⟩ := Prod.mk.inj (Option.some.inj recorded)
      rw [if_neg Bool.false_ne_true, or_iff_right spends, subU64]
      omega
    · next less =>
      obtain ⟨rfl, rfl⟩ := Prod.mk.inj (Option.some.inj recorded)
      rw [if_pos rfl, or_iff_right spends, subU64, subU64]
      omega
  · next nothing =>
    have none_ : spent = 0 := not_not.mp nothing
    rw [iff_true_right (.inl none_)]
    split at recorded
    · obtain ⟨rfl, rfl⟩ := Prod.mk.inj (Option.some.inj recorded)
      rw [if_pos rfl]
      omega
    · split at recorded
      · obtain ⟨rfl, rfl⟩ := Prod.mk.inj (Option.some.inj recorded)
        rw [if_pos rfl]
        omega
      · split at recorded
        · obtain ⟨rfl, rfl⟩ := Prod.mk.inj (Option.some.inj recorded)
          rw [if_neg Bool.false_ne_true]
          omega
        · cases recorded

theorem poolAmount_exact_iff {own : AccOuts} {spends : PoolSpends} {got amount : Nat}
    {isIncome : Bool} (word : spends.moneySpentInIns < 2 ^ 64)
    (fits : own.moneyTransfered + tx.getTxFee < 2 ^ 64) (fewer : got ≤ own.moneyTransfered)
    (share : paid ≤ tx.getTxFee) (most : paid ≤ spends.moneySpentInIns)
    (recorded : poolAmount W txExpirationTsMedian tx own spends = some (isIncome, amount)) :
    ExactAmount spends.moneySpentInIns got paid isIncome amount ↔
      if comesIn W txExpirationTsMedian tx own.derivation spends.moneySpentInIns
          own.moneyTransfered = true then
        got = own.moneyTransfered ∧ paid = spends.moneySpentInIns
      else if spends.newMultisigSpendDetected = true then
        spends.moneySpentInIns = got + paid
      else got = own.moneyTransfered ∧ paid = tx.getTxFee ∧
        got + tx.getTxFee ≤ spends.moneySpentInIns := by
  unfold poolAmount at recorded
  unfold ExactAmount
  have sum : addU64 own.moneyTransfered tx.getTxFee = own.moneyTransfered + tx.getTxFee :=
    Nat.mod_eq_of_lt fits
  rw [sum] at recorded
  split at recorded
  · next income =>
    obtain ⟨rfl, rfl⟩ := Prod.mk.inj (Option.some.inj recorded)
    rw [if_pos rfl, if_pos income]
    omega
  · next outgoing =>
    rw [if_neg outgoing]
    split at recorded
    · obtain ⟨rfl, rfl⟩ := Prod.mk.inj (Option.some.inj recorded)
      rw [if_neg Bool.false_ne_true]
      split
      · omega
      · rw [subU64]
        omega
    · cases recorded

theorem processUnconfirmed_tables {recipients : List String × List String} {w' : Wallet}
    (run : processUnconfirmed W tx w = .ok recipients w') :
    w'.keyImages = w.keyImages ∧ w'.pendingKeyImages = w.pendingKeyImages := by
  rw [processUnconfirmed, get_bind] at run
  cases found : w.unconfirmedTxs.get (getTransactionHash W.core tx.toTransactionPrefix) with
  | none =>
    rw [found] at run
    obtain ⟨_, rfl⟩ := pure_ok.mp run
    exact ⟨rfl, rfl⟩
  | some wti =>
    rw [found] at run
    obtain ⟨_, _, stored, ended⟩ := bind_ok.mp run
    obtain rfl := set_ok.mp stored
    obtain ⟨_, rfl⟩ := pure_ok.mp ended
    exact ⟨rfl, rfl⟩

/-- The sums of a transaction in a block. -/
theorem sums_of_block {w₁ w₂ w₃ : Wallet} {recipients : List String × List String}
    {extra : TxExtraInfo} {coinBaseTx derived derivedToo : Bool} {spends : SpendProgress}
    {own : AccOuts} {received : ReceiveProgress} {timestamp : Nat}
    (inputs : delivered.tx.inputTotal < 2 ^ 64) (outputs : delivered.tx.outputTotal < 2 ^ 64)
    (sent : processUnconfirmed W delivered.tx w = .ok recipients w₁)
    (parsed : delivered.tx.parseAndValidateTxExtra = some extra)
    (scanned : processInputs coinBaseTx height 0 delivered.tx.vin
      { isDerivedFromCoinbase := derived } w₁ = .ok spends w₂)
    (looked : lookupAccOuts W delivered.tx extra.txPubKey = some own)
    (taken : receiveAll W delivered height timestamp extra.txPubKey own derivedToo w₂ =
      .ok received w₃) :
    spends.moneySpentInIns = w.spentMoney delivered.tx.toTransactionPrefix ∧
      received.moneyGotInOuts = receivedMoney W w delivered.tx := by
  have early := processUnconfirmed_tables sent
  have same := knownSpend_congr early.1
  have word := Nat.lt_of_le_of_lt (spentMoney_le w delivered.tx.toTransactionPrefix) inputs
  obtain ⟨tables, spent⟩ := processInputs_money (by
    rw [same, Nat.zero_add]
    exact word) scanned
  rw [same, Nat.zero_add] at spent
  have since : SeenSince w [] w₂ := by
    refine ⟨tables.2.trans early.2, fun ki _ => ?_⟩
    simp only [tables.1, early.1, List.not_mem_nil, or_false]
  refine ⟨spent, ?_⟩
  rw [receiveAll_money since (lookupAccOuts_money outputs looked).1 taken, receivedMoney,
    ownOutputs, parsed, Option.bind_some, looked]
  rfl

/-- The received money fits in a word together with the fee. -/
theorem receivedMoney_add_fee (inputs : tx.inputTotal < 2 ^ 64)
    (outputs : tx.outputTotal < 2 ^ 64) : receivedMoney W w tx + tx.getTxFee < 2 ^ 64 := by
  have fee := getTxFee_add_outputTotal inputs outputs
  unfold receivedMoney ownOutputs
  cases parsed : tx.parseAndValidateTxExtra with
  | none =>
    dsimp only [Option.bind_none]
    omega
  | some extra =>
    dsimp only [Option.bind_some]
    cases looked : lookupAccOuts W tx extra.txPubKey with
    | none =>
      dsimp only [Option.map_none]
      omega
    | some own =>
      dsimp only [Option.map_some]
      have sum := lookupAccOuts_money outputs looked
      have fewer := @freshOuts_money_le W tx w extra.txPubKey [] own.outs
      omega

/-- The wallet takes nothing from its money, or it pays the whole fee, and what it pays is left of
its inputs after the change. -/
def PaysInBlock (W : WalletEnv) (w : Wallet) (tx : Transaction) (paid : Nat) : Prop :=
  w.spentMoney tx.toTransactionPrefix = 0 ∨
    paid = tx.getTxFee ∧
      (receivedMoney W w tx < w.spentMoney tx.toTransactionPrefix →
        receivedMoney W w tx + tx.getTxFee ≤ w.spentMoney tx.toTransactionPrefix)

theorem PutsInHistory.exact_iff (inputs : delivered.tx.inputTotal < 2 ^ 64)
    (outputs : delivered.tx.outputTotal < 2 ^ 64) (share : paid ≤ delivered.tx.getTxFee)
    (most : paid ≤ w.spentMoney delivered.tx.toTransactionPrefix)
    (puts : PutsInHistory W delivered height b w e) :
    ExactAmount (w.spentMoney delivered.tx.toTransactionPrefix) (receivedMoney W w delivered.tx)
        paid e.isIncome e.amount ↔
      PaysInBlock W w delivered.tx paid := by
  cases puts with
  | intro sent parsed scanned looked taken recorded =>
    obtain ⟨spent, got⟩ := sums_of_block inputs outputs sent parsed scanned looked taken
    rw [spent, got] at recorded
    have word := Nat.lt_of_le_of_lt (spentMoney_le w delivered.tx.toTransactionPrefix) inputs
    exact historyAmount_exact_iff word (receivedMoney_add_fee inputs outputs) share most recorded

/-- The wallet only receives and every own output is new; or the transaction is taken for income
though it spends, and all of that is fee; or it spends a new multisig output, and nothing but the
fee of the money of the wallet; or it pays the whole fee out of what is left after the change. -/
def PaysInPool (W : WalletEnv) (w : Wallet) (txExpirationTsMedian : Nat) (tx : Transaction)
    (paid : Nat) : Prop :=
  match ownOutputs W tx with
  | some (_, own) =>
    if comesIn W txExpirationTsMedian tx own.derivation (w.spentMoney tx.toTransactionPrefix)
        own.moneyTransfered = true then
      receivedMoney W w tx = own.moneyTransfered ∧
        paid = w.spentMoney tx.toTransactionPrefix
    else if tx.vin.any w.newMultisigSpend = true then
      w.spentMoney tx.toTransactionPrefix = receivedMoney W w tx + paid
    else
      receivedMoney W w tx = own.moneyTransfered ∧ paid = tx.getTxFee ∧
        receivedMoney W w tx + tx.getTxFee ≤ w.spentMoney tx.toTransactionPrefix
  | none => True

theorem PutsUnconfirmed.exact_iff (inputs : tx.inputTotal < 2 ^ 64)
    (outputs : tx.outputTotal < 2 ^ 64) (share : paid ≤ tx.getTxFee)
    (most : paid ≤ w.spentMoney tx.toTransactionPrefix)
    (puts : PutsUnconfirmed W txExpirationTsMedian coreTime fromTxPool tx w e) :
    ExactAmount (w.spentMoney tx.toTransactionPrefix) (receivedMoney W w tx) paid e.isIncome
        e.amount ↔
      PaysInPool W w txExpirationTsMedian tx paid := by
  cases puts with
  | @intro w₁ extra own spends isIncome amount parsed looked scanned recorded fresh =>
    have word := Nat.lt_of_le_of_lt (spentMoney_le w tx.toTransactionPrefix) inputs
    obtain ⟨-, spent, detected⟩ := scanPoolInputs_money (by
      rw [Nat.zero_add]
      exact word) scanned
    rw [Nat.zero_add] at spent
    rw [Bool.false_or] at detected
    have named : ownOutputs W tx = some (extra.txPubKey, own) := by
      rw [ownOutputs, parsed, Option.bind_some, looked, Option.map_some]
    have sum := lookupAccOuts_money outputs looked
    have fewer : receivedMoney W w tx ≤ own.moneyTransfered := by
      rw [receivedMoney, named, sum.1]
      exact freshOuts_money_le w extra.txPubKey [] own.outs
    have fee := getTxFee_add_outputTotal inputs outputs
    have exactly := poolAmount_exact_iff (by rw [spent]; exact word) (by omega) fewer share
      (by rw [spent]; exact most) recorded
    rw [spent, detected] at exactly
    rw [PaysInPool, named]
    exact exactly

/-- The buyer of an accepted contract gets the fee back into the amount. A buyer who spent, and
paid nothing of the fee, ends up with the exact amount. -/
theorem PutsInHistory.exact_of_contract (inputs : delivered.tx.inputTotal < 2 ^ 64)
    (outputs : delivered.tx.outputTotal < 2 ^ 64)
    (more : receivedMoney W w delivered.tx < w.spentMoney delivered.tx.toTransactionPrefix)
    (puts : PutsInHistory W delivered height b w e) :
    ExactAmount (w.spentMoney delivered.tx.toTransactionPrefix) (receivedMoney W w delivered.tx) 0
      e.isIncome (addU64 e.amount e.fee) := by
  cases puts with
  | @intro w₁ w₂ w₃ recipients extra spends own received isIncome amount sent parsed scanned looked
      taken recorded =>
    obtain ⟨spent, got⟩ := sums_of_block inputs outputs sent parsed scanned looked taken
    rw [spent, got, historyAmount, if_pos (Nat.ne_of_gt (Nat.zero_lt_of_lt more)),
      if_pos more] at recorded
    obtain ⟨rfl, rfl⟩ := Prod.mk.inj (Option.some.inj recorded)
    have word := Nat.lt_of_le_of_lt (spentMoney_le w delivered.tx.toTransactionPrefix) inputs
    have fits := @receivedMoney_add_fee W delivered.tx w inputs outputs
    have sum : addU64 (receivedMoney W w delivered.tx) delivered.tx.getTxFee =
        receivedMoney W w delivered.tx + delivered.tx.getTxFee := Nat.mod_eq_of_lt fits
    change w.spentMoney delivered.tx.toTransactionPrefix = receivedMoney W w delivered.tx + 0 +
      addU64 (subU64 (w.spentMoney delivered.tx.toTransactionPrefix)
        (addU64 (receivedMoney W w delivered.tx) delivered.tx.getTxFee)) delivered.tx.getTxFee
    rw [sum, subU64, addU64]
    omega

/-- A transaction that takes money from the wallet gets an entry when it is processed. -/
theorem exists_putsInHistory {result : Unit} {w' : Wallet}
    (inputs : delivered.tx.inputTotal < 2 ^ 64) (outputs : delivered.tx.outputTotal < 2 ^ 64)
    (spends : w.spentMoney delivered.tx.toTransactionPrefix ≠ 0)
    (run : processNewTransaction W delivered height b w = .ok result w') :
    ∃ e, PutsInHistory W delivered height b w e := by
  obtain ⟨recipients, w₁, sent, run⟩ := bind_ok.mp run
  obtain ⟨extra, _, demanded, run⟩ := bind_ok.mp run
  obtain ⟨parsed, rfl⟩ := demandEx_ok.mp demanded
  obtain ⟨progress, w₂, scanned, run⟩ := bind_ok.mp run
  obtain ⟨own, _, demanded, run⟩ := bind_ok.mp run
  obtain ⟨looked, rfl⟩ := demandEx_ok.mp demanded
  obtain ⟨received, w₃, taken, run⟩ := bind_ok.mp run
  obtain ⟨spent, -⟩ := sums_of_block inputs outputs sent parsed scanned looked taken
  rw [← spent] at spends
  by_cases more : received.moneyGotInOuts < progress.moneySpentInIns
  · exact ⟨_, .intro sent parsed scanned looked taken (by
      rw [historyAmount, if_pos spends, if_pos more])⟩
  · exact ⟨_, .intro sent parsed scanned looked taken (by
      rw [historyAmount, if_pos spends, if_neg more])⟩

/-- A transaction that takes money from the wallet and is no unconfirmed entry gets one when the
pool is scanned. -/
theorem exists_putsUnconfirmed {result : List Hash} {w' : Wallet}
    (inputs : tx.inputTotal < 2 ^ 64) (spends : w.spentMoney tx.toTransactionPrefix ≠ 0)
    (fresh : w.unconfirmedTxs.has (getTransactionHash W.core tx.toTransactionPrefix) = false)
    (run : scanNewPoolTx W txExpirationTsMedian coreTime fromTxPool tx w = .ok result w') :
    ∃ e, PutsUnconfirmed W txExpirationTsMedian coreTime fromTxPool tx w e := by
  obtain ⟨extra, _, demanded, run⟩ := bind_ok.mp run
  obtain ⟨parsed, rfl⟩ := demandEx_ok.mp demanded
  obtain ⟨own, _, demanded, run⟩ := bind_ok.mp run
  obtain ⟨looked, rfl⟩ := demandEx_ok.mp demanded
  obtain ⟨found, w₁, scanned, _⟩ := bind_ok.mp run
  have word := Nat.lt_of_le_of_lt (spentMoney_le w tx.toTransactionPrefix) inputs
  obtain ⟨same, spent, -⟩ := scanPoolInputs_money (by
    rw [Nat.zero_add]
    exact word) scanned
  rw [Nat.zero_add] at spent
  have spendsToo : found.moneySpentInIns ≠ 0 := by
    rw [spent]
    exact spends
  rw [← same.entries] at fresh
  by_cases income : comesIn W txExpirationTsMedian tx own.derivation found.moneySpentInIns
      own.moneyTransfered = true
  · exact ⟨_, .intro parsed looked scanned (by rw [poolAmount, if_pos income]) fresh⟩
  · exact ⟨_, .intro parsed looked scanned
      (by rw [poolAmount, if_neg income, if_pos (.inl spendsToo)]) fresh⟩

end Entries

/-! ## A transaction of two wallets -/

namespace Shared

/-- A deposit of 5 coins. -/
def deposit : Transaction where
  version := 10
  vin := [.toKey { amount := 5, keyOffsets := [.index 0], kImage := ⟨80⟩, etcDetails := [] }]
  vout := [⟨5, .toKey ⟨⟨20⟩, 0⟩⟩]
  extra := [.publicKey ⟨20⟩]
  signatures := []
  attachment := []

/-- The wallet and another one spend 15 coins together and pay a fee of 4. The wallet gets 3 of its
5 coins back. -/
def joint : Transaction where
  version := 11
  vin :=
    [.toKey { amount := 5, keyOffsets := [.index 0], kImage := ⟨21⟩, etcDetails := [] },
      .toKey { amount := 10, keyOffsets := [.index 0], kImage := ⟨90⟩, etcDetails := [] }]
  vout := [⟨3, .toKey ⟨⟨30⟩, 0⟩⟩, ⟨8, .toKey ⟨⟨70⟩, 0⟩⟩]
  extra := [.publicKey ⟨30⟩]
  signatures := []
  attachment := []

/-- The wallet spends its coins alone and pays a fee of 1. -/
def alone : Transaction where
  version := 12
  vin := [.toKey { amount := 5, keyOffsets := [.index 0], kImage := ⟨21⟩, etcDetails := [] }]
  vout := [⟨3, .toKey ⟨⟨30⟩, 0⟩⟩, ⟨1, .toKey ⟨⟨70⟩, 0⟩⟩]
  extra := [.publicKey ⟨30⟩]
  signatures := []
  attachment := []

def block (height : Nat) : Block := Block.plain (height + 1) height 0 nullHash []

/-- A wallet that received the deposit. -/
def wallet : Wallet :=
  final (processNewTransaction .plain ⟨deposit, .ok [0]⟩ 0 (block 0) Wallet.new)

end Shared

end Virie.Wallet
