import Virie.Wallet.Likeness

/-! # What a block adds to a wallet

A transaction marks the outputs whose key images it spends and appends outputs, payments and
history entries that carry the height of its block. A block does the same with the key
images of all its transactions, and its id goes on top. Cutting a wallet back to a height
at or below that of the block removes all of this again, as long as the block spends no
output that was spent before. -/

open Foundation

namespace Virie.Wallet

/-! ## Ids of multisig outputs -/

/-- The multisig outputs a transaction gives to the account. -/
def receivedIds (W : WalletEnv) (tx : Transaction) : List Hash :=
  ((tx.parseAndValidateTxExtra.bind fun extra => lookupAccOuts W tx extra.txPubKey).map
    fun own => own.outs.filterMap (multisigIdAt W tx)).getD []

theorem receivedIds_eq {W : WalletEnv} {tx : Transaction} {extra : TxExtraInfo} {own : AccOuts}
    (parsed : tx.parseAndValidateTxExtra = some extra)
    (looked : lookupAccOuts W tx extra.txPubKey = some own) :
    receivedIds W tx = own.outs.filterMap (multisigIdAt W tx) := by
  unfold receivedIds
  rw [parsed, Option.bind_some, looked, Option.map_some, Option.getD_some]

/-- The multisig outputs that the transactions of a block give to the account. -/
def BlockEntry.receivedIds (W : WalletEnv) (height : Nat) (entry : BlockEntry) : List Hash :=
  if entry.isScanned W height then
    entry.delivered.flatMap fun delivered => Wallet.receivedIds W delivered.tx
  else []

/-- The multisig outputs that the blocks of a chain give to the account. -/
def ownMultisigIds (W : WalletEnv) (chain : List BlockEntry) : List Hash :=
  (chain.mapIdx (BlockEntry.receivedIds W)).flatten

theorem ownMultisigIds_concat (W : WalletEnv) (chain : List BlockEntry) (entry : BlockEntry) :
    ownMultisigIds W (chain ++ [entry]) =
      ownMultisigIds W chain ++ entry.receivedIds W chain.length := by
  simp only [ownMultisigIds, List.mapIdx_concat, List.flatten_append, List.flatten_cons,
    List.flatten_nil, List.append_nil]

/-- The key images that the transactions of a block spend. -/
def BlockEntry.keyImages (entry : BlockEntry) : List KeyImage :=
  entry.delivered.flatMap fun delivered => delivered.tx.keyImages

/-! ## Growth -/

/-- An output recorded at a height, where some key images were spent. -/
structure BornAt (height : Nat) (images : List KeyImage) (td : TransferDetails) : Prop where
  isAt : td.ptxWalletInfo.blockHeight = height
  spent : td.flags.spent = true → td.keyImage ∈ images
  spentHeight : td.spentHeight = if td.flags.spent then height else 0

/-- What transactions of a block at a height that spend some key images do. -/
structure Grown (height : Nat) (images : List KeyImage) (c d : ChainDerived) : Prop where
  blockchain : d.blockchain = c.blockchain
  outputs : ∃ new, d.outputs = c.outputs.map (spendImage height images) ++ new ∧
    ∀ td ∈ new, BornAt height images td
  payments : ∃ new, d.payments = c.payments ++ new ∧ ∀ payment ∈ new, payment.2.blockHeight = height
  history : ∃ new, d.history = c.history ++ new ∧ ∀ part ∈ new, part.2.1 = height
  indexed : d.Indexed

theorem BornAt.spendImage {height : Nat} {images more : List KeyImage} {td : TransferDetails}
    (born : BornAt height images td) :
    BornAt height (images ++ more) (spendImage height more td) := by
  by_cases spends : td.keyImage ∈ more
  · rw [spendImage_of_mem spends]
    refine ⟨born.isAt, fun _ => List.mem_append.mpr (.inr spends), ?_⟩
    have spent : (spendAt height td).flags.spent = true := by
      simp [spendAt, TransferFlags.add, TransferFlags.flagSpent]
    rw [spent]
    rfl
  · rw [spendImage_of_not_mem spends]
    exact ⟨born.isAt, fun spent => List.mem_append.mpr (.inl (born.spent spent)),
      born.spentHeight⟩

theorem Grown.refl {height : Nat} {c : ChainDerived} (indexed : c.Indexed) :
    Grown height [] c c := by
  refine ⟨rfl, ⟨[], ?_, fun _ member => by cases member⟩,
    ⟨[], (List.append_nil _).symm, fun _ member => by cases member⟩,
    ⟨[], (List.append_nil _).symm, fun _ member => by cases member⟩, indexed⟩
  rw [spendImage_nil, List.map_id, List.append_nil]

theorem Grown.trans {height : Nat} {images more : List KeyImage} {c d e : ChainDerived}
    (first : Grown height images c d) (second : Grown height more d e) :
    Grown height (images ++ more) c e := by
  obtain ⟨new, outputs, born⟩ := first.outputs
  obtain ⟨newToo, outputsToo, bornToo⟩ := second.outputs
  obtain ⟨paid, payments, paidAt⟩ := first.payments
  obtain ⟨paidToo, paymentsToo, paidAtToo⟩ := second.payments
  obtain ⟨parts, history, partsAt⟩ := first.history
  obtain ⟨partsToo, historyToo, partsAtToo⟩ := second.history
  refine ⟨second.blockchain.trans first.blockchain,
    ⟨new.map (spendImage height more) ++ newToo, ?_, ?_⟩, ⟨paid ++ paidToo, ?_, ?_⟩,
    ⟨parts ++ partsToo, ?_, ?_⟩, second.indexed⟩
  · rw [outputsToo, outputs, List.map_append, List.map_map, spendImage_append, List.append_assoc]
  · intro td member
    rcases List.mem_append.mp member with early | late
    · obtain ⟨old, oldMember, rfl⟩ := List.mem_map.mp early
      exact (born old oldMember).spendImage
    · have later := bornToo td late
      exact ⟨later.isAt, fun spent => List.mem_append.mpr (.inr (later.spent spent)),
        later.spentHeight⟩
  · rw [paymentsToo, payments, List.append_assoc]
  · intro payment member
    exact (List.mem_append.mp member).elim (paidAt payment) (paidAtToo payment)
  · rw [historyToo, history, List.append_assoc]
  · intro part member
    exact (List.mem_append.mp member).elim (partsAt part) (partsAtToo part)

theorem Grown.of_received {info : TransactionWalletInfo} {c d : ChainDerived}
    (received : Received info c d) : Grown info.blockHeight [] c d := by
  obtain ⟨new, outputs, fresh⟩ := received.outputs
  refine ⟨received.blockchain, ⟨new, ?_, fun td member => ?_⟩,
    ⟨[], ?_, fun _ member => by cases member⟩, ⟨[], ?_, fun _ member => by cases member⟩,
    received.indexed⟩
  · rw [spendImage_nil, List.map_id, outputs]
  · have isNew := fresh td member
    refine ⟨by rw [isNew.info], fun spent => ?_, ?_⟩
    · rw [isNew.unspent] at spent
      cases spent
    · rw [isNew.unspent, isNew.height]
      rfl
  · rw [received.payments, List.append_nil]
  · rw [received.history, List.append_nil]

theorem Grown.of_spend {height : Nat} {images : List KeyImage} {c : ChainDerived}
    (indexed : c.Indexed) : Grown height images c (c.spend height images) :=
  ⟨rfl, ⟨[], (List.append_nil _).symm, fun _ member => by cases member⟩,
    ⟨[], (List.append_nil _).symm, fun _ member => by cases member⟩,
    ⟨[], (List.append_nil _).symm, fun _ member => by cases member⟩, indexed.spend⟩

/-! ## Transactions -/

section Transactions

open Procedure

variable {W : WalletEnv} {w w' : Wallet} {delivered : DeliveredTx} {height : Nat} {b : Block}
  {result : Unit}

theorem processUnconfirmed_keeps (tx : Transaction) {c : ChainDerived}
    {m : Container Hash TransferDetailsBase} :
    Preserves (ChainIs c m) (processUnconfirmed W tx) := by
  refine preserves_get_bind fun w holds => ?_
  dsimp only
  split
  · exact preserves_bind (preserves_set holds) fun _ => preserves_pure _
  · exact preserves_pure _

theorem globalOutputIndexes_keeps (tx : Transaction) (reply : OIndexesReply) {c : ChainDerived}
    {m : Container Hash TransferDetailsBase} :
    Preserves (ChainIs c m) (globalOutputIndexes tx reply) := by
  unfold globalOutputIndexes
  split
  · exact preserves_throw _
  · exact preserves_throw _
  · exact preserves_bind (preserves_throwIf chainIs_exceptionHandler _) fun _ => preserves_pure _
  · exact preserves_bind (preserves_throwIf chainIs_exceptionHandler _) fun _ => preserves_pure _

theorem receiveAll_ok (full : W.Full) {timestamp : Nat} {txPubKey : PublicKey} {own : AccOuts}
    {derived : Bool} {progress : ReceiveProgress} (indexed : w.chainDerived.Indexed)
    (ran : receiveAll W delivered height timestamp txPubKey own derived w = .ok progress w') :
    Received ⟨height, timestamp, delivered.tx⟩ w.chainDerived w'.chainDerived ∧
      ∀ id, w'.lists id ↔ w.lists id ∨ id ∈ own.outs.filterMap (multisigIdAt W delivered.tx) := by
  unfold receiveAll at ran
  cases none : own.outs.isEmpty with
  | true =>
    rw [if_pos none] at ran
    obtain ⟨_, rfl⟩ := pure_ok.mp ran
    refine ⟨.refl indexed, fun id => ?_⟩
    rw [List.isEmpty_iff.mp none, List.filterMap_nil]
    simp only [List.not_mem_nil, or_false]
  | false =>
    rw [if_neg (by rw [none]; exact Bool.false_ne_true)] at ran
    obtain ⟨oIndexes, middle, asked, received⟩ := bind_ok.mp ran
    obtain ⟨derived, kept⟩ := (globalOutputIndexes_keeps _ _).of_ok asked ⟨rfl, rfl⟩
    obtain ⟨records, listed⟩ := receiveOutputs_ok full (by rw [derived]; exact indexed) received
    rw [derived] at records
    refine ⟨records, fun id => (listed id).trans ?_⟩
    rw [lists, kept]
    exact Iff.rfl

theorem receivePayment_grown {tx : Transaction} {spent got : Nat}
    (indexed : w.chainDerived.Indexed) :
    Grown height [] w.chainDerived (receivePayment W tx height spent got w).chainDerived ∧
      (receivePayment W tx height spent got w).multisigTransfers = w.multisigTransfers := by
  unfold receivePayment
  split
  · dsimp only
    split
    · refine ⟨⟨rfl, ⟨[], ?_, fun _ member => by cases member⟩,
        ⟨_, rfl, fun payment member => by rw [List.mem_singleton.mp member]⟩,
        ⟨[], (List.append_nil _).symm, fun _ member => by cases member⟩, indexed⟩, rfl⟩
      rw [spendImage_nil, List.map_id, List.append_nil]
      rfl
    · exact ⟨.refl indexed, rfl⟩
  · exact ⟨.refl indexed, rfl⟩

theorem historyParts_height {tx : Transaction} {derivation : KeyDerivation} {spent got : Nat}
    {mtd : MoneyTransfer2Details} :
    ∀ part ∈ historyParts W b tx derivation spent got mtd, part.2.1 = getBlockHeight b := by
  intro part member
  unfold historyParts at member
  split at member
  · rw [List.mem_singleton.mp member]
  · split at member
    · rw [List.mem_singleton.mp member]
    · split at member
      · rw [List.mem_singleton.mp member]
      · cases member

theorem recordTransfer_grown {tx : Transaction} {derivation : KeyDerivation} {spent got : Nat}
    {mtd : MoneyTransfer2Details} {recipients : List String × List String}
    (atHeight : getBlockHeight b = height) (indexed : w.chainDerived.Indexed)
    (ran : recordTransfer W b tx derivation spent got mtd recipients w = .ok result w') :
    Grown height [] w.chainDerived w'.chainDerived ∧
      w'.multisigTransfers = w.multisigTransfers := by
  obtain ⟨derived, kept⟩ := recordTransfer_ok ran
  refine ⟨?_, kept⟩
  rw [derived]
  refine ⟨rfl, ⟨[], ?_, fun _ member => by cases member⟩,
    ⟨[], (List.append_nil _).symm, fun _ member => by cases member⟩,
    ⟨_, rfl, fun part member => (historyParts_height part member).trans atHeight⟩, indexed⟩
  rw [spendImage_nil, List.map_id, List.append_nil]

/-- A transaction spends its key images, and what it adds is of its height. -/
theorem processNewTransaction_ok (full : W.Full) (atHeight : getBlockHeight b = height)
    (indexed : w.chainDerived.Indexed)
    (ran : processNewTransaction W delivered height b w = .ok result w') :
    Grown height delivered.tx.keyImages w.chainDerived w'.chainDerived ∧
      ∀ id, w'.lists id ↔ w.lists id ∨ id ∈ receivedIds W delivered.tx := by
  obtain ⟨recipients, first, unconfirmed, ran⟩ := bind_ok.mp ran
  obtain ⟨derived, kept⟩ := (processUnconfirmed_keeps _).of_ok unconfirmed ⟨rfl, rfl⟩
  obtain ⟨extra, _, demanded, ran⟩ := bind_ok.mp ran
  obtain ⟨parsed, rfl⟩ := demandEx_ok.mp demanded
  obtain ⟨spends, second, spending, ran⟩ := bind_ok.mp ran
  obtain ⟨spent, listedFirst⟩ := processInputs_ok (by rw [derived]; exact indexed) spending
  rw [derived] at spent
  change second.chainDerived = w.chainDerived.spend height delivered.tx.keyImages at spent
  obtain ⟨own, _, demanded, ran⟩ := bind_ok.mp ran
  obtain ⟨looked, rfl⟩ := demandEx_ok.mp demanded
  obtain ⟨received, third, receiving, ran⟩ := bind_ok.mp ran
  obtain ⟨records, listedSecond⟩ :=
    receiveAll_ok full (by rw [spent]; exact indexed.spend) receiving
  obtain ⟨_, fourth, paying, recording⟩ := bind_ok.mp ran
  obtain rfl := modify_ok.mp paying
  obtain ⟨paid, keptPaying⟩ : Grown height [] third.chainDerived (receivePayment W delivered.tx
      height spends.moneySpentInIns received.moneyGotInOuts third).chainDerived ∧ _ :=
    receivePayment_grown records.indexed
  obtain ⟨recorded, keptRecording⟩ := recordTransfer_grown atHeight paid.indexed recording
  refine ⟨?_, fun id => ?_⟩
  · have spending : Grown height delivered.tx.keyImages w.chainDerived _ := .of_spend indexed
    have whole := (spending.trans (by rw [← spent]; exact .of_received records)).trans
      (paid.trans recorded)
    rw [List.append_nil, List.append_nil, List.append_nil] at whole
    exact whole
  · rw [lists, keptRecording, keptPaying]
    change third.lists id ↔ _
    rw [listedSecond id, listedFirst id, receivedIds_eq parsed looked]
    change _ ↔ w.multisigTransfers.has id = true ∨ _
    rw [← kept]
    rfl

/-- The transactions of a block one after the other. -/
theorem processTransactions_ok (full : W.Full) (atHeight : getBlockHeight b = height)
    {items : List DeliveredTx} (indexed : w.chainDerived.Indexed)
    (ran : Procedure.forEach (fun delivered => processNewTransaction W delivered height b) items w =
      .ok result w') :
    Grown height (items.flatMap fun delivered => delivered.tx.keyImages) w.chainDerived
        w'.chainDerived ∧
      ∀ id, w'.lists id ↔ w.lists id ∨
        id ∈ items.flatMap fun delivered => receivedIds W delivered.tx := by
  induction items generalizing w with
  | nil =>
    obtain ⟨_, rfl⟩ := pure_ok.mp ran
    exact ⟨.refl indexed, fun id => by simp only [List.flatMap_nil, List.not_mem_nil, or_false]⟩
  | cons item rest ih =>
    obtain ⟨_, middle, one, others⟩ := bind_ok.mp ran
    obtain ⟨grown, listed⟩ := processNewTransaction_ok full atHeight indexed one
    obtain ⟨grownToo, listedToo⟩ := ih grown.indexed others
    refine ⟨?_, fun id => ?_⟩
    · rw [List.flatMap_cons]
      exact grown.trans grownToo
    · rw [listedToo id, listed id, or_assoc, List.flatMap_cons, List.mem_append]

/-- A block grows the wallet by its transactions, where it is looked into, and by its id. -/
theorem addBlock_ok (full : W.Full) {entry : BlockEntry}
    (atHeight : getBlockHeight entry.bl = height) (indexed : w.chainDerived.Indexed)
    (ran : addBlock W entry height w = .ok result w') :
    height = w.blockchain.length ∧
    (∃ images grown, images ⊆ entry.keyImages ∧ Grown height images w.chainDerived grown ∧
      w'.chainDerived = { grown with blockchain := w.blockchain ++ [entry.blId W] }) ∧
      ∀ id, w'.lists id ↔ w.lists id ∨ id ∈ entry.receivedIds W height := by
  obtain ⟨_, processed, processing, counting⟩ := bind_ok.mp ran
  obtain rfl := modify_ok.mp counting
  obtain ⟨_, _, passed, processing⟩ := bind_ok.mp ((get_bind _ _).symm.trans processing)
  obtain ⟨next, rfl⟩ := throwIf_ok.mp passed
  have next : height = w.blockchain.length := by simpa using next
  obtain ⟨_, middle, scanned, pushing⟩ := bind_ok.mp processing
  obtain rfl := modify_ok.mp pushing
  refine ⟨next, ?_⟩
  unfold BlockEntry.receivedIds
  cases scans : entry.isScanned W height with
  | true =>
    rw [scans] at scanned
    obtain ⟨grown, listed⟩ := processTransactions_ok full atHeight indexed scanned
    refine ⟨⟨_, middle.chainDerived, fun _ member => member, grown, ?_⟩, listed⟩
    rw [← show middle.blockchain = w.blockchain from grown.blockchain]
    rfl
  | false =>
    rw [scans] at scanned
    obtain ⟨_, rfl⟩ := pure_ok.mp scanned
    refine ⟨⟨[], w.chainDerived, List.nil_subset _, .refl indexed, rfl⟩, fun id => ?_⟩
    rw [if_neg Bool.false_ne_true]
    simp only [List.not_mem_nil, or_false]
    rfl

end Transactions

end Virie.Wallet
