import Virie.Amounts
import Virie.Wallet.PoolScan

/-! # The amounts of history entries

A wallet computes the amount of an entry from three sums: what the inputs of the transaction take
from outputs that the wallet knows, what its outputs bring, and the fee of the whole transaction.
The sums are taken in 64-bit words. Below they are the exact ones of the transaction, as long as
the sums of all its amounts are words, and the amount is a function of them. -/

open Foundation Foundation.Procedure

namespace Virie.Wallet

/-! ## The money of a wallet in a transaction -/

/-- The amount of an input that spends an output with a known key image. -/
def knownSpend (wallet : Wallet) : Txin → Option Nat
  | .toKey input => if wallet.keyImages.has input.kImage then some input.amount else none
  | _ => none

/-- What a transaction takes from the wallet. -/
def spentMoney (wallet : Wallet) (tx : TransactionPrefix) : Nat :=
  (tx.vin.filterMap wallet.knownSpend).sum

/-- The money of outputs to keys, by their numbers. -/
def outputMoney (tx : TransactionPrefix) (outs : List Nat) : Nat :=
  (outs.filterMap fun ri => tx.vout[ri]?.bind receivedKeyAmount).sum

/-- The key image that a wallet assigns to an output. -/
def imageOf (W : WalletEnv) (wallet : Wallet) (txPubKey : PublicKey) (o : Nat) (otk : TxoutToKey) :
    KeyImage :=
  if W.watchOnly then (wallet.pendingKeyImages.get otk.key).getD nullKi
  else (W.generateKeyImageHelper txPubKey o).2

/-- The outputs to keys among own outputs, without those whose key image is known already. -/
def freshOuts (W : WalletEnv) (wallet : Wallet) (tx : TransactionPrefix) (txPubKey : PublicKey) :
    List KeyImage → List Nat → List Nat
  | _, [] => []
  | seen, o :: rest =>
    match tx.vout[o]?.map TxOut.target with
    | some (.toKey otk) =>
      let ki := imageOf W wallet txPubKey o otk
      if ki ≠ nullKi ∧ (wallet.keyImages.has ki = true ∨ ki ∈ seen) then
        freshOuts W wallet tx txPubKey seen rest
      else o :: freshOuts W wallet tx txPubKey (ki :: seen) rest
    | _ => freshOuts W wallet tx txPubKey seen rest

/-- The key and the own outputs of a transaction. -/
def ownOutputs (W : WalletEnv) (tx : Transaction) : Option (PublicKey × AccOuts) :=
  tx.parseAndValidateTxExtra.bind fun extra =>
    (lookupAccOuts W tx extra.txPubKey).map fun own => (extra.txPubKey, own)

/-- What a transaction brings to the wallet: the outputs that it can spend later. -/
def receivedMoney (W : WalletEnv) (wallet : Wallet) (tx : Transaction) : Nat :=
  match ownOutputs W tx with
  | some (txPubKey, own) =>
    outputMoney tx.toTransactionPrefix
      (freshOuts W wallet tx.toTransactionPrefix txPubKey [] own.outs)
  | none => 0

section Sums

variable {W : WalletEnv} {tx : Transaction} {w w₀ w' : Wallet}

theorem outputMoney_append (outs others : List Nat) :
    outputMoney tx.toTransactionPrefix (outs ++ others) =
      outputMoney tx.toTransactionPrefix outs + outputMoney tx.toTransactionPrefix others := by
  rw [outputMoney, List.filterMap_append, List.sum_append]
  rfl

theorem outputMoney_cons (o : Nat) (outs : List Nat) :
    outputMoney tx.toTransactionPrefix (o :: outs) =
      outputMoney tx.toTransactionPrefix [o] + outputMoney tx.toTransactionPrefix outs :=
  outputMoney_append [o] outs

theorem outputMoney_toKey {o amount : Nat} {otk : TxoutToKey}
    (present : tx.vout[o]? = some ⟨amount, .toKey otk⟩) :
    outputMoney tx.toTransactionPrefix [o] = amount := by
  simp only [outputMoney, List.filterMap_cons, present, Option.bind_some, receivedKeyAmount,
    List.filterMap_nil, List.sum_cons, List.sum_nil, Nat.add_zero]

theorem outputMoney_multisig {o amount : Nat} {target : TxoutMultisig}
    (present : tx.vout[o]? = some ⟨amount, .multisig target⟩) :
    outputMoney tx.toTransactionPrefix [o] = 0 := by
  simp only [outputMoney, List.filterMap_cons, present, Option.bind_some, receivedKeyAmount,
    List.filterMap_nil, List.sum_nil]

theorem spentMoney_le (w : Wallet) (tx : TransactionPrefix) : w.spentMoney tx ≤ tx.inputTotal := by
  unfold spentMoney TransactionPrefix.inputTotal
  induction tx.vin with
  | nil => exact Nat.le_refl 0
  | cons input rest ih =>
    cases known : w.knownSpend input with
    | none =>
      rw [List.filterMap_cons_none known, List.map_cons, List.sum_cons]
      exact Nat.le_add_left_of_le ih
    | some amount =>
      have named : amount = input.amount := by
        cases input with
        | gen height => cases known
        | multisig input => cases known
        | toKey input =>
          simp only [knownSpend] at known
          split at known
          · exact (Option.some.inj known).symm
          · cases known
      rw [List.filterMap_cons_some known, List.map_cons, List.sum_cons, List.sum_cons, named]
      exact Nat.add_le_add_left ih _

theorem freshOuts_money_le (w : Wallet) (txPubKey : PublicKey) (seen : List KeyImage)
    (outs : List Nat) :
    outputMoney tx.toTransactionPrefix (freshOuts W w tx.toTransactionPrefix txPubKey seen outs) ≤
      outputMoney tx.toTransactionPrefix outs := by
  induction outs generalizing seen with
  | nil => exact Nat.le_refl 0
  | cons o rest ih =>
    unfold freshOuts
    rw [outputMoney_cons o rest]
    split
    · dsimp only
      split
      · exact Nat.le_add_left_of_le (ih seen)
      · rw [outputMoney_cons]
        exact Nat.add_le_add_left (ih _) _
    · exact Nat.le_add_left_of_le (ih seen)

/-- The fee and the outputs of a transaction fit in a word together. -/
theorem getTxFee_add_outputTotal (inputs : tx.inputTotal < 2 ^ 64)
    (outputs : tx.outputTotal < 2 ^ 64) : tx.getTxFee + tx.outputTotal < 2 ^ 64 := by
  have amountIn :
      tx.vin.foldl (fun money input => addU64 money input.amount) 0 = tx.inputTotal := by
    rw [← Nat.mod_eq_of_lt inputs, TransactionPrefix.inputTotal, ← sumU64, List.foldl_map]
  have amountOut : tx.getOutsMoneyAmount = tx.outputTotal := by
    rw [getOutsMoneyAmount_eq, Nat.mod_eq_of_lt outputs]
  unfold TransactionPrefix.getTxFee
  rw [amountIn, amountOut]
  split
  · rwa [Nat.zero_add]
  · dsimp only
    split
    · omega
    · rwa [Nat.zero_add]

/-! ## Own outputs -/

/-- The sum that the search for own outputs computes is that of the outputs to keys. -/
theorem ownOuts_money {derivation : KeyDerivation} {i : Nat} {outs : List TxOut}
    {found result : List Nat × Nat} (behind : tx.vout.drop i = outs)
    (sum : found.2 = outputMoney tx.toTransactionPrefix found.1)
    (word : found.2 + (outs.map TxOut.amount).sum < 2 ^ 64)
    (searched : ownOuts W derivation i outs found = result) :
    result.2 = outputMoney tx.toTransactionPrefix result.1 ∧
      result.2 ≤ found.2 + (outs.map TxOut.amount).sum := by
  induction outs generalizing i found with
  | nil =>
    cases searched
    exact ⟨sum, Nat.le_add_right _ _⟩
  | cons out rest ih =>
    obtain ⟨known, money⟩ := found
    have present : tx.vout[i]? = some out := by
      rw [← List.head?_drop, behind]
      rfl
    have further : tx.vout.drop (i + 1) = rest := by
      rw [← List.tail_drop, behind]
      rfl
    simp only [List.map_cons, List.sum_cons] at word
    unfold ownOuts at searched
    dsimp only at searched sum
    rw [List.map_cons, List.sum_cons]
    obtain ⟨amount, target⟩ := out
    dsimp only at word searched ⊢
    split at searched
    · cases target with
      | toKey otk =>
        have exact64 : addU64 money amount = money + amount := Nat.mod_eq_of_lt (by omega)
        have step := ih further (by
          dsimp only
          rw [exact64, outputMoney_append, outputMoney_toKey present, ← sum]) (by
          dsimp only
          rw [exact64]
          omega) searched
        dsimp only at step
        rw [exact64] at step
        exact ⟨step.1, by omega⟩
      | multisig keys =>
        have step := ih further (by
          dsimp only
          rw [outputMoney_append, outputMoney_multisig present, ← sum, Nat.add_zero]) (by
          dsimp only
          omega) searched
        dsimp only at step
        exact ⟨step.1, by omega⟩
    · have step := ih further sum (by dsimp only; omega) searched
      dsimp only at step
      exact ⟨step.1, by omega⟩

/-- The money that the lookup reports is that of the own outputs to keys. -/
theorem lookupAccOuts_money {txPubKey : PublicKey} {own : AccOuts}
    (outputs : tx.outputTotal < 2 ^ 64) (looked : lookupAccOuts W tx txPubKey = some own) :
    own.moneyTransfered = outputMoney tx.toTransactionPrefix own.outs ∧
      own.moneyTransfered ≤ tx.outputTotal := by
  unfold lookupAccOuts at looked
  obtain ⟨derivation, -, looked⟩ := Option.bind_eq_some_iff.mp looked
  split at looked
  · unfold lookupAccOutsGenesis at looked
    split at looked
    · cases looked
      exact ⟨rfl, Nat.zero_le _⟩
    · next offset _ =>
      split at looked
      · next amount out present =>
        have listed : amount ≤ tx.outputTotal := by
          have member : (⟨amount, .toKey out⟩ : TxOut) ∈ tx.vout := List.mem_of_getElem? present
          exact List.le_sum_of_mem (List.mem_map.mpr ⟨_, member, rfl⟩)
        split at looked
        · cases looked
          exact ⟨(outputMoney_toKey present).symm, listed⟩
        · cases looked
          exact ⟨rfl, Nat.zero_le _⟩
      · cases looked
  · split at looked
    · cases looked
      exact ⟨rfl, Nat.zero_le _⟩
    · cases looked
      have found := @ownOuts_money W tx derivation 0 tx.vout ([], 0) _ rfl rfl (by
        rwa [Nat.zero_add]) rfl
      rw [Nat.zero_add] at found
      exact found

/-! ## The sums of a scan -/

theorem keyImages_removeTransferFromExpirationList {index : Nat} {result : Unit}
    (run : removeTransferFromExpirationList index w = .ok result w') :
    w'.keyImages = w.keyImages ∧ w'.pendingKeyImages = w.pendingKeyImages := by
  obtain ⟨_, _, passed, settled⟩ := bind_ok.mp ((get_bind _ _).symm.trans run)
  obtain ⟨-, rfl⟩ := throwIf_ok.mp passed
  obtain rfl := set_ok.mp settled
  exact ⟨rfl, rfl⟩

theorem knownSpend_of_unknown {input : TxinToKey} (unknown : w.keyImages.get input.kImage = none) :
    w.knownSpend (.toKey input) = none := by
  simp only [knownSpend, Container.has, unknown, Option.isSome_none, Bool.false_eq_true,
    ↓reduceIte]

theorem knownSpend_of_known {input : TxinToKey} {stored : TransferIndex}
    (known : w.keyImages.get input.kImage = some stored) :
    w.knownSpend (.toKey input) = some input.amount := by
  simp only [knownSpend, Container.has, known, Option.isSome_some, ↓reduceIte]

theorem knownSpend_congr (same : w'.keyImages = w.keyImages) : w'.knownSpend = w.knownSpend := by
  funext input
  cases input with
  | gen height => rfl
  | toKey input => simp only [knownSpend, same]
  | multisig input => rfl

theorem sum_filterMap_cons (input : Txin) (rest : List Txin) :
    ((input :: rest).filterMap w.knownSpend).sum =
      (w.knownSpend input).getD 0 + (rest.filterMap w.knownSpend).sum := by
  cases known : w.knownSpend input with
  | none => rw [List.filterMap_cons_none known, Option.getD_none, Nat.zero_add]
  | some amount => rw [List.filterMap_cons_some known, Option.getD_some, List.sum_cons]

/-- What one input adds to the sum. -/
theorem processInput_money {coinBaseTx : Bool} {height i : Nat} {progress result : SpendProgress}
    {input : Txin} (word : progress.moneySpentInIns + (w.knownSpend input).getD 0 < 2 ^ 64)
    (run : processInput coinBaseTx height i progress input w = .ok result w') :
    (w'.keyImages = w.keyImages ∧ w'.pendingKeyImages = w.pendingKeyImages) ∧
      result.moneySpentInIns = progress.moneySpentInIns + (w.knownSpend input).getD 0 := by
  cases input with
  | gen height =>
    obtain ⟨rfl, rfl⟩ := pure_ok.mp run
    exact ⟨⟨rfl, rfl⟩, rfl⟩
  | toKey input =>
    rw [processInput, get_bind] at run
    cases found : w.keyImages.get input.kImage with
    | none =>
      rw [found] at run
      obtain ⟨rfl, rfl⟩ := pure_ok.mp run
      rw [knownSpend_of_unknown found]
      exact ⟨⟨rfl, rfl⟩, rfl⟩
    | some stored =>
      rw [found] at run
      rw [knownSpend_of_known found] at word ⊢
      obtain ⟨td, _, demanded, run⟩ := bind_ok.mp run
      obtain ⟨-, rfl⟩ := demand_ok.mp demanded
      rw [set_bind] at run
      obtain ⟨_, _, removed, ended⟩ := bind_ok.mp run
      obtain ⟨rfl, rfl⟩ := pure_ok.mp ended
      have kept := keyImages_removeTransferFromExpirationList removed
      exact ⟨⟨kept.1, kept.2⟩, Nat.mod_eq_of_lt word⟩
  | multisig input =>
    rw [processInput, get_bind] at run
    cases found : w.multisigTransfers.get input.multisigOutId with
    | none =>
      rw [found] at run
      obtain ⟨rfl, rfl⟩ := pure_ok.mp run
      exact ⟨⟨rfl, rfl⟩, rfl⟩
    | some td =>
      rw [found] at run
      obtain ⟨_, _, stored, ended⟩ := bind_ok.mp run
      obtain rfl := set_ok.mp stored
      obtain ⟨rfl, rfl⟩ := pure_ok.mp ended
      exact ⟨⟨rfl, rfl⟩, rfl⟩

/-- The scan of the inputs of a transaction sums up what it takes from the wallet. -/
theorem processInputs_money {coinBaseTx : Bool} {height i : Nat} {inputs : List Txin}
    {progress result : SpendProgress}
    (word : progress.moneySpentInIns + (inputs.filterMap w.knownSpend).sum < 2 ^ 64)
    (run : processInputs coinBaseTx height i inputs progress w = .ok result w') :
    (w'.keyImages = w.keyImages ∧ w'.pendingKeyImages = w.pendingKeyImages) ∧
      result.moneySpentInIns =
        progress.moneySpentInIns + (inputs.filterMap w.knownSpend).sum := by
  induction inputs generalizing i progress w with
  | nil =>
    obtain ⟨rfl, rfl⟩ := pure_ok.mp run
    exact ⟨⟨rfl, rfl⟩, rfl⟩
  | cons input rest ih =>
    rw [sum_filterMap_cons] at word ⊢
    obtain ⟨middle, between, first, run⟩ := bind_ok.mp run
    obtain ⟨images, money⟩ := processInput_money (by omega) first
    have same := knownSpend_congr images.1
    obtain ⟨others, total⟩ := ih (by rw [same]; omega) run
    rw [same] at total
    exact ⟨⟨others.1.trans images.1, others.2.trans images.2⟩, by omega⟩

/-! ## The outputs of a block -/

/-- The key images of a wallet are those of an earlier state and those of the outputs that were
received since. -/
structure SeenSince (w₀ : Wallet) (seen : List KeyImage) (w : Wallet) : Prop where
  pending : w.pendingKeyImages = w₀.pendingKeyImages
  images : ∀ ki, ki ≠ nullKi →
    (w.keyImages.has ki = true ↔ w₀.keyImages.has ki = true ∨ ki ∈ seen)

theorem SeenSince.refl (w : Wallet) : SeenSince w [] w where
  pending := rfl
  images ki _ := by simp only [List.not_mem_nil, or_false]

theorem SeenSince.push {seen : List KeyImage} {td : TransferDetails} {image : KeyImage}
    (since : SeenSince w₀ seen w) (named : td.keyImage = image) :
    SeenSince w₀ (image :: seen) (w.pushTransfer td) where
  pending := since.pending
  images ki known := by
    subst named
    have stored : (w.pushTransfer td).keyImages =
        if td.keyImage = nullKi then w.keyImages
        else w.keyImages.set td.keyImage
          (({ w with transfers := w.transfers ++ [td] } : Wallet).indexed w.transfers.length) := rfl
    rw [stored, List.mem_cons, or_left_comm, ← since.images ki known]
    split
    · next null => rw [null, or_iff_right known]
    · simp only [Container.has, Container.get_set]
      split
      · next same => simp only [same, Option.isSome_some, true_or]
      · next apart => rw [or_iff_right fun same => apart same.symm]

variable {info : TransactionWalletInfo} {oIndexes : List Nat} {mined : Bool} {o amount : Nat}
  {progress result : ReceiveProgress} {txPubKey : PublicKey} {seen : List KeyImage}

theorem ownKeyImage_ok {otk : TxoutToKey} {ki : KeyImage} (since : SeenSince w₀ seen w)
    (run : ownKeyImage W txPubKey o otk w = .ok ki w') :
    ki = imageOf W w₀ txPubKey o otk ∧ w' = w := by
  unfold ownKeyImage at run
  unfold imageOf
  split at run
  · next watches =>
    rw [get_bind] at run
    obtain ⟨rfl, rfl⟩ := pure_ok.mp run
    rw [if_pos watches, since.pending]
    exact ⟨rfl, rfl⟩
  · next full =>
    obtain ⟨_, _, matched, ended⟩ := bind_ok.mp run
    obtain ⟨-, rfl⟩ := throwIf_ok.mp matched
    obtain ⟨rfl, rfl⟩ := pure_ok.mp ended
    rw [if_neg full]
    exact ⟨rfl, rfl⟩

theorem receiveToKey_money {ki : KeyImage} (since : SeenSince w₀ seen w)
    (run : receiveToKey info oIndexes ki mined o amount progress w = .ok result w') :
    if ki ≠ nullKi ∧ (w₀.keyImages.has ki = true ∨ ki ∈ seen) then
      SeenSince w₀ seen w' ∧ result.receiveIndices = progress.receiveIndices ∧
        result.moneyGotInOuts + amount = progress.moneyGotInOuts
    else
      SeenSince w₀ (ki :: seen) w' ∧ result.receiveIndices = progress.receiveIndices ++ [o] ∧
        result.moneyGotInOuts = progress.moneyGotInOuts := by
  unfold receiveToKey at run
  rw [get_bind] at run
  cases found : (if ki = nullKi then none else w.keyImages.get ki) with
  | some stored =>
    rw [found] at run
    have known : ki ≠ nullKi := by
      rintro rfl
      rw [if_pos rfl] at found
      cases found
    rw [if_neg known] at found
    have seenBefore : w₀.keyImages.has ki = true ∨ ki ∈ seen := by
      rw [← since.images ki known, Container.has, found]
      rfl
    obtain ⟨_, _, first, run⟩ := bind_ok.mp run
    obtain ⟨-, rfl⟩ := throwIf_ok.mp first
    obtain ⟨_, _, second, ended⟩ := bind_ok.mp run
    obtain ⟨enough, rfl⟩ := throwIf_ok.mp second
    obtain ⟨rfl, rfl⟩ := pure_ok.mp ended
    rw [if_pos ⟨known, seenBefore⟩]
    rw [decide_eq_false_iff_not, Nat.not_lt] at enough
    exact ⟨since, rfl, Nat.sub_add_cancel enough⟩
  | none =>
    rw [found] at run
    obtain ⟨_, _, pushed, ended⟩ := bind_ok.mp run
    obtain rfl := set_ok.mp pushed
    obtain ⟨rfl, rfl⟩ := pure_ok.mp ended
    have fresh : ¬ (ki ≠ nullKi ∧ (w₀.keyImages.has ki = true ∨ ki ∈ seen)) := by
      rintro ⟨known, seenBefore⟩
      rw [if_neg known] at found
      rw [← since.images ki known, Container.has, found] at seenBefore
      cases seenBefore
    rw [if_neg fresh]
    exact ⟨since.push rfl, rfl, rfl⟩

/-- The received outputs are the fresh ones, and the others are taken off the sum. -/
theorem receiveOutputs_money {coinBaseTx derived : Bool} {outs : List Nat}
    (since : SeenSince w₀ seen w)
    (run : receiveOutputs W info txPubKey oIndexes coinBaseTx derived outs progress w =
      .ok result w') :
    result.receiveIndices = progress.receiveIndices ++
        freshOuts W w₀ info.tx.toTransactionPrefix txPubKey seen outs ∧
      result.moneyGotInOuts + outputMoney info.tx.toTransactionPrefix outs =
        progress.moneyGotInOuts + outputMoney info.tx.toTransactionPrefix
          (freshOuts W w₀ info.tx.toTransactionPrefix txPubKey seen outs) := by
  induction outs generalizing w seen progress with
  | nil =>
    obtain ⟨rfl, rfl⟩ := pure_ok.mp run
    exact ⟨(List.append_nil _).symm, rfl⟩
  | cons o rest ih =>
    obtain ⟨middle, between, one, others⟩ := bind_ok.mp run
    unfold receiveOutput at one
    obtain ⟨⟨amount, target⟩, _, demanded, one⟩ := bind_ok.mp one
    obtain ⟨present, rfl⟩ := demandEx_ok.mp demanded
    rw [outputMoney_cons o rest, freshOuts, present, Option.map_some]
    cases target with
    | toKey otk =>
      obtain ⟨ki, _, image, received⟩ := bind_ok.mp one
      obtain ⟨rfl, rfl⟩ := ownKeyImage_ok since image
      have step := receiveToKey_money since received
      rw [outputMoney_toKey present]
      dsimp only at step ⊢
      split at step
      · next known =>
        obtain ⟨next, indices, money⟩ := step
        obtain ⟨rests, sums⟩ := ih next others
        rw [if_pos known]
        exact ⟨by rw [rests, indices], by omega⟩
      · next fresh =>
        obtain ⟨next, indices, money⟩ := step
        obtain ⟨rests, sums⟩ := ih next others
        rw [if_neg fresh, outputMoney_cons o, outputMoney_toKey present]
        exact ⟨by rw [rests, indices, List.append_assoc]; rfl, by omega⟩
    | multisig target =>
      obtain ⟨_, _, stored, ended⟩ := bind_ok.mp one
      obtain rfl := modify_ok.mp stored
      obtain ⟨rfl, rfl⟩ := pure_ok.mp ended
      rw [outputMoney_multisig present, Nat.zero_add]
      have next : SeenSince w₀ seen (receiveMultisig W info o w) := ⟨since.pending, since.images⟩
      exact ih next others

/-- The sum that a block counts as received. -/
theorem receiveAll_money {delivered : DeliveredTx} {height timestamp : Nat} {own : AccOuts}
    {derived : Bool} (since : SeenSince w₀ [] w)
    (sum : own.moneyTransfered = outputMoney delivered.tx.toTransactionPrefix own.outs)
    (run : receiveAll W delivered height timestamp txPubKey own derived w = .ok result w') :
    result.moneyGotInOuts = outputMoney delivered.tx.toTransactionPrefix
      (freshOuts W w₀ delivered.tx.toTransactionPrefix txPubKey [] own.outs) := by
  unfold receiveAll at run
  split at run
  · next none_ =>
    obtain ⟨rfl, rfl⟩ := pure_ok.mp run
    rw [List.isEmpty_iff.mp none_] at sum ⊢
    exact sum
  · obtain ⟨oIndexes, between, replied, received⟩ := bind_ok.mp run
    have same : between = w := by
      cases reply : delivered.reply with
      | noConnection =>
        rw [reply] at replied
        cases throw_ok.mp replied
      | busy =>
        rw [reply] at replied
        cases throw_ok.mp replied
      | failed =>
        rw [reply] at replied
        obtain ⟨_, _, passed, _⟩ := bind_ok.mp replied
        cases (throwIf_ok.mp passed).1
      | ok indexes =>
        rw [reply] at replied
        obtain ⟨_, _, passed, ended⟩ := bind_ok.mp replied
        obtain ⟨-, rfl⟩ := throwIf_ok.mp passed
        exact (pure_ok.mp ended).2.symm
    subst same
    obtain ⟨-, money⟩ := receiveOutputs_money since received
    dsimp only at money
    omega

/-! ## The pool -/

/-- A transaction spends a multisig output that the last scans of the pool did not find spent. -/
def newMultisigSpend (wallet : Wallet) : Txin → Bool
  | .multisig input => wallet.multisigTransfers.has input.multisigOutId &&
      !wallet.unconfirmedMultisigTransfers.contains input.multisigOutId
  | _ => false

/-- The scan of the inputs of a pool transaction changes neither the key images, nor which multisig
outputs are listed, nor what is unconfirmed. -/
structure SameTables (w w' : Wallet) : Prop where
  images : w'.keyImages = w.keyImages
  multisigs : ∀ id, w'.multisigTransfers.has id = w.multisigTransfers.has id
  unconfirmed : w'.unconfirmedMultisigTransfers = w.unconfirmedMultisigTransfers
  entries : w'.unconfirmedTxs = w.unconfirmedTxs

theorem SameTables.refl (w : Wallet) : SameTables w w := ⟨rfl, fun _ => rfl, rfl, rfl⟩

theorem SameTables.trans {between : Wallet} (first : SameTables w between)
    (second : SameTables between w') : SameTables w w' where
  images := second.images.trans first.images
  multisigs id := (second.multisigs id).trans (first.multisigs id)
  unconfirmed := second.unconfirmed.trans first.unconfirmed
  entries := second.entries.trans first.entries

theorem SameTables.newMultisigSpend (same : SameTables w w') :
    w'.newMultisigSpend = w.newMultisigSpend := by
  funext input
  cases input with
  | gen height => rfl
  | toKey input => rfl
  | multisig input =>
    simp only [Wallet.newMultisigSpend, same.multisigs, same.unconfirmed]

theorem scanPoolInput_money {i : Nat} {spends found : PoolSpends} {input : Txin}
    (word : spends.moneySpentInIns + (w.knownSpend input).getD 0 < 2 ^ 64)
    (run : scanPoolInput i spends input w = .ok found w') :
    SameTables w w' ∧
      found.moneySpentInIns = spends.moneySpentInIns + (w.knownSpend input).getD 0 ∧
      found.newMultisigSpendDetected =
        (spends.newMultisigSpendDetected || w.newMultisigSpend input) := by
  cases input with
  | gen height =>
    obtain ⟨rfl, rfl⟩ := pure_ok.mp run
    exact ⟨.refl w, rfl, (Bool.or_false _).symm⟩
  | toKey input =>
    rw [scanPoolInput, get_bind] at run
    cases known : w.keyImages.get input.kImage with
    | none =>
      rw [known] at run
      obtain ⟨rfl, rfl⟩ := pure_ok.mp run
      rw [knownSpend_of_unknown known]
      exact ⟨.refl w, rfl, (Bool.or_false _).symm⟩
    | some stored =>
      rw [known] at run
      obtain ⟨rfl, rfl⟩ := pure_ok.mp run
      rw [knownSpend_of_known known] at word ⊢
      exact ⟨.refl w, Nat.mod_eq_of_lt word, (Bool.or_false _).symm⟩
  | multisig input =>
    rw [scanPoolInput, get_bind] at run
    cases known : w.multisigTransfers.get input.multisigOutId with
    | none =>
      rw [known] at run
      obtain ⟨rfl, rfl⟩ := pure_ok.mp run
      refine ⟨.refl w, rfl, ?_⟩
      simp only [newMultisigSpend, Container.has, known, Option.isSome_none, Bool.false_and,
        Bool.or_false]
    | some td =>
      rw [known] at run
      dsimp only at run
      split at run
      · next before =>
        obtain ⟨rfl, rfl⟩ := pure_ok.mp run
        refine ⟨.refl w, rfl, ?_⟩
        simp only [newMultisigSpend, before, Bool.not_true, Bool.and_false, Bool.or_false]
      · next fresh =>
        obtain ⟨_, _, stored, ended⟩ := bind_ok.mp run
        obtain rfl := set_ok.mp stored
        obtain ⟨rfl, rfl⟩ := pure_ok.mp ended
        refine ⟨⟨rfl, fun id => ?_, rfl, rfl⟩, rfl, ?_⟩
        · simp only [Container.has, Container.get_set]
          split
          · next same => rw [← same, known, Option.isSome_some, Option.isSome_some]
          · rfl
        · rw [Bool.not_eq_true] at fresh
          simp only [newMultisigSpend, Container.has, known, Option.isSome_some, fresh,
            Bool.not_false, Bool.and_true, Bool.or_true]

/-- What the scan of the inputs of a pool transaction finds. -/
theorem scanPoolInputs_money {i : Nat} {inputs : List Txin} {spends found : PoolSpends}
    (word : spends.moneySpentInIns + (inputs.filterMap w.knownSpend).sum < 2 ^ 64)
    (run : scanPoolInputs i inputs spends w = .ok found w') :
    SameTables w w' ∧
      found.moneySpentInIns = spends.moneySpentInIns + (inputs.filterMap w.knownSpend).sum ∧
      found.newMultisigSpendDetected =
        (spends.newMultisigSpendDetected || inputs.any w.newMultisigSpend) := by
  induction inputs generalizing i spends w with
  | nil =>
    obtain ⟨rfl, rfl⟩ := pure_ok.mp run
    exact ⟨.refl w, rfl, (Bool.or_false _).symm⟩
  | cons input rest ih =>
    rw [sum_filterMap_cons] at word ⊢
    obtain ⟨middle, between, first, run⟩ := bind_ok.mp run
    obtain ⟨same, money, detected⟩ := scanPoolInput_money (by omega) first
    have sameSpends := knownSpend_congr same.images
    obtain ⟨others, total, any⟩ := ih (by rw [sameSpends]; omega) run
    rw [sameSpends] at total
    rw [same.newMultisigSpend] at any
    refine ⟨same.trans others, by omega, ?_⟩
    rw [any, detected, List.any_cons, Bool.or_assoc]

end Sums

end Virie.Wallet
