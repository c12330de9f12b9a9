import Virie.Wallet.Cutting

/-! # Wallets that agree stay in agreement

Two wallets that agree on what the chain determines process a transaction alike: the second one
processes what the first one processes, and both agree again. The one exception is an input that
spends a multisig output which only the first wallet lists. It leaves a history entry that the
second wallet has no reason for. -/

open Foundation Foundation.Procedure

namespace Virie.Wallet

/-- The multisig outputs that transactions spend, and that a wallet lists, are among given ones,
or earlier ones of the transactions gave them. -/
def SpendsGiven (W : WalletEnv) (listed : Hash → Prop) : List Hash → List DeliveredTx → Prop
  | _, [] => True
  | given, delivered :: rest =>
    (∀ id ∈ delivered.tx.multisigInputIds, listed id → id ∈ given) ∧
      SpendsGiven W listed (given ++ receivedIds W delivered.tx) rest

theorem SpendsGiven.mono {W : WalletEnv} {listed more : Hash → Prop} {given : List Hash}
    {items : List DeliveredTx} (spends : SpendsGiven W more given items)
    (fewer : ∀ id, listed id → more id) : SpendsGiven W listed given items := by
  induction items generalizing given with
  | nil => trivial
  | cons delivered rest ih =>
    exact ⟨fun id member there => spends.1 id member (fewer id there), ih spends.2⟩

instance SpendsGiven.decidable (W : WalletEnv) (listed : Hash → Prop) [DecidablePred listed] :
    ∀ given items, Decidable (SpendsGiven W listed given items)
  | _, [] => .isTrue trivial
  | given, delivered :: rest =>
    have := SpendsGiven.decidable W listed (given ++ receivedIds W delivered.tx) rest
    inferInstanceAs (Decidable (_ ∧ _))

section Agreement

variable {W : WalletEnv} {s t : Wallet} {info : TransactionWalletInfo} {oIndexes : List Nat}
  {coinBaseTx mined : Bool} {height i o amount : Nat} {delivered : DeliveredTx} {b : Block}

theorem length_transfers (same : s.chainDerived = t.chainDerived) :
    s.transfers.length = t.transfers.length := by
  have lengths := congrArg (fun c => c.outputs.length) same
  simpa only [chainDerived, List.length_map] using lengths

theorem mimics_throwIf (condition : Bool) :
    Mimics (throwIf condition) (throwIf condition) s t fun _ _ s' t' => s' = s ∧ t' = t := by
  intro result s' ran
  obtain ⟨passed, rfl⟩ := throwIf_ok.mp ran
  exact ⟨(), t, throwIf_ok.mpr ⟨passed, rfl⟩, rfl, rfl⟩

theorem mimics_demandEx {α : Type} (option : Option α) :
    Mimics (demandEx option) (demandEx option) s t fun value answer s' t' =>
      option = some value ∧ answer = value ∧ s' = s ∧ t' = t := by
  intro result s' ran
  obtain ⟨present, rfl⟩ := demandEx_ok.mp ran
  exact ⟨result, t, demandEx_ok.mpr ⟨present, rfl⟩, present, rfl, rfl, rfl⟩

/-! ## Inputs -/

theorem removeTransferFromExpirationList_mimics (j : Nat)
    (length : s.transfers.length = t.transfers.length) :
    Mimics (removeTransferFromExpirationList j) (removeTransferFromExpirationList j) s t
      fun _ _ _ _ => True := by
  refine mimics_get_bind ?_
  rw [length]
  exact mimics_bind (mimics_throwIf _) fun _ _ _ _ _ => mimics_set trivial

/-- The transfers at one place are the same as far as the chain determines them. -/
theorem getElem?_transfers (same : s.chainDerived = t.chainDerived) {j : Nat}
    {td : TransferDetails} (found : s.transfers[j]? = some td) :
    ∃ other, t.transfers[j]? = some other ∧ other.chainPart = td.chainPart := by
  have outputs : s.transfers.map TransferDetails.chainPart =
      t.transfers.map TransferDetails.chainPart := congrArg ChainDerived.outputs same
  have there := congrArg (fun outputs => outputs[j]?) outputs
  simp only [List.getElem?_map, found, Option.map_some] at there
  exact Option.map_eq_some_iff.mp there.symm

/-- An input is processed alike, unless it spends a multisig output that only one of the wallets
lists. -/
theorem processInput_mimics (same : s.chainDerived = t.chainDerived) (progress : SpendProgress)
    {input : Txin} (listed : ∀ id, input.spentMultisigId = some id → (s.lists id ↔ t.lists id)) :
    Mimics (processInput coinBaseTx height i progress input)
      (processInput coinBaseTx height i progress input) s t
        fun value answer _ _ => value = answer := by
  cases input with
  | gen number => exact mimics_pure rfl
  | toKey input =>
    have images : s.keyImages = t.keyImages := congrArg ChainDerived.keyImages same
    refine mimics_get_bind ?_
    rw [images]
    cases t.keyImages.get input.kImage with
    | none => exact mimics_pure rfl
    | some stored =>
      refine mimics_bind (Q := fun value answer s' t' => s' = s ∧ t' = t ∧
        value.flags.minedTransfer = answer.flags.minedTransfer) ?_ ?_
      · intro td s' demanded
        obtain ⟨present, rfl⟩ := demand_ok.mp demanded
        obtain ⟨other, presentToo, parts⟩ := getElem?_transfers same present
        refine ⟨other, t, demand_ok.mpr ⟨presentToo, rfl⟩, rfl, rfl, ?_⟩
        exact (congrArg (fun td => td.flags.minedTransfer) parts).symm
      · rintro td other _ _ ⟨rfl, rfl, mined⟩
        refine mimics_bind (mimics_set (Q := fun _ _ s' t' =>
          s'.transfers.length = t'.transfers.length) ?_) fun _ _ s' t' length => ?_
        · rw [updateTransfer, List.length_modify, updateTransfer, List.length_modify]
          exact length_transfers same
        · refine mimics_bind (removeTransferFromExpirationList_mimics _ length)
            fun _ _ _ _ _ => mimics_pure ?_
          rw [mined]
  | multisig input =>
    have lists := listed input.multisigOutId rfl
    simp only [Wallet.lists, Container.has] at lists
    refine mimics_get_bind ?_
    cases here : s.multisigTransfers.get input.multisigOutId with
    | none =>
      rw [here] at lists
      cases there : t.multisigTransfers.get input.multisigOutId with
      | none => exact mimics_pure rfl
      | some other =>
        rw [there] at lists
        exact absurd (lists.mpr rfl) Bool.false_ne_true
    | some td =>
      rw [here] at lists
      cases there : t.multisigTransfers.get input.multisigOutId with
      | none =>
        rw [there] at lists
        exact absurd (lists.mp rfl) Bool.false_ne_true
      | some other =>
        exact mimics_bind (Q := fun _ _ _ _ => True) (mimics_set trivial)
          fun _ _ _ _ _ => mimics_pure rfl

theorem processInputs_mimics (indexed : s.chainDerived.Indexed)
    (same : s.chainDerived = t.chainDerived) (progress : SpendProgress) {inputs : List Txin}
    (listed : ∀ id ∈ inputs.filterMap Txin.spentMultisigId, (s.lists id ↔ t.lists id)) :
    Mimics (processInputs coinBaseTx height i inputs progress)
      (processInputs coinBaseTx height i inputs progress) s t
        fun value answer s' t' => value = answer ∧ s'.chainDerived = t'.chainDerived := by
  induction inputs generalizing s t i progress with
  | nil => exact mimics_pure ⟨rfl, same⟩
  | cons input rest ih =>
    intro value final ran
    obtain ⟨next, s', here, later⟩ := bind_ok.mp ran
    obtain ⟨_, t', there, rfl⟩ := processInput_mimics same progress
      (fun id spends => listed id (List.mem_filterMap.mpr ⟨input, .head _, spends⟩)) _ _ here
    obtain ⟨derived, kept⟩ := processInput_ok indexed here
    obtain ⟨derivedToo, keptToo⟩ := processInput_ok (same ▸ indexed) there
    have agree : s'.chainDerived = t'.chainDerived := by rw [derived, derivedToo, same]
    obtain ⟨answer, t'', others, related⟩ := ih (by rw [derived]; exact indexed.spend) agree next
      (fun id spends => by
        rw [kept, keptToo]
        obtain ⟨other, inside, named⟩ := List.mem_filterMap.mp spends
        exact listed id (List.mem_filterMap.mpr ⟨other, .tail _ inside, named⟩)) _ _ later
    exact ⟨answer, t'', by rw [processInputs, bind_of_ok there, others], related⟩

/-! ## Outputs -/

theorem receiveToKey_mimics {ki : KeyImage} (image : ki ≠ nullKi)
    (same : s.chainDerived = t.chainDerived) (progress : ReceiveProgress) :
    Mimics (receiveToKey info oIndexes ki mined o amount progress)
      (receiveToKey info oIndexes ki mined o amount progress) s t
        fun value answer s' t' => value = answer ∧ s'.chainDerived = t'.chainDerived := by
  have images : s.keyImages = t.keyImages := congrArg ChainDerived.keyImages same
  unfold receiveToKey
  refine mimics_get_bind ?_
  rw [images, if_neg image]
  cases t.keyImages.get ki with
  | some stored =>
    rw [length_transfers same]
    refine mimics_bind (mimics_throwIf _) ?_
    rintro _ _ _ _ ⟨rfl, rfl⟩
    refine mimics_bind (mimics_throwIf _) ?_
    rintro _ _ _ _ ⟨rfl, rfl⟩
    exact mimics_pure ⟨rfl, same⟩
  | none =>
    refine mimics_bind (mimics_set (Q := fun _ _ s' t' => s'.chainDerived = t'.chainDerived) ?_)
      fun _ _ _ _ agree => mimics_pure ⟨rfl, agree⟩
    rw [chainDerived_pushTransfer image, chainDerived_pushTransfer image, same]

theorem ownKeyImage_mimics (full : W.Full) (same : s.chainDerived = t.chainDerived)
    (txPubKey : PublicKey) (otk : TxoutToKey) :
    Mimics (ownKeyImage W txPubKey o otk) (ownKeyImage W txPubKey o otk) s t
      fun value answer s' t' =>
        value = answer ∧ value ≠ nullKi ∧ s'.chainDerived = t'.chainDerived := by
  unfold ownKeyImage
  rw [if_neg (by rw [full.signs]; exact Bool.false_ne_true)]
  refine mimics_bind (mimics_throwIf _) ?_
  rintro _ _ _ _ ⟨rfl, rfl⟩
  exact mimics_pure ⟨rfl, full.image_ne txPubKey o, same⟩

theorem receiveOutput_mimics (full : W.Full) (same : s.chainDerived = t.chainDerived)
    (txPubKey : PublicKey) (progress : ReceiveProgress) :
    Mimics (receiveOutput W info txPubKey oIndexes mined o progress)
      (receiveOutput W info txPubKey oIndexes mined o progress) s t
        fun value answer s' t' => value = answer ∧ s'.chainDerived = t'.chainDerived := by
  refine mimics_bind (mimics_demandEx _) ?_
  rintro _ out _ _ ⟨_, rfl, rfl, rfl⟩
  cases target : out.target with
  | toKey otk =>
    refine mimics_bind (ownKeyImage_mimics full same txPubKey otk) ?_
    rintro ki _ s' t' ⟨rfl, image, agree⟩
    exact receiveToKey_mimics image agree progress
  | multisig keys =>
    exact mimics_bind (mimics_modify (Q := fun _ _ s' t' => s'.chainDerived = t'.chainDerived) same)
      fun _ _ _ _ agree => mimics_pure ⟨rfl, agree⟩

theorem receiveOutputs_mimics (full : W.Full) (same : s.chainDerived = t.chainDerived)
    (txPubKey : PublicKey) {derived : Bool} {outs : List Nat} (progress : ReceiveProgress) :
    Mimics (receiveOutputs W info txPubKey oIndexes coinBaseTx derived outs progress)
      (receiveOutputs W info txPubKey oIndexes coinBaseTx derived outs progress) s t
        fun value answer s' t' => value = answer ∧ s'.chainDerived = t'.chainDerived := by
  induction outs generalizing s t progress with
  | nil => exact mimics_pure ⟨rfl, same⟩
  | cons o rest ih =>
    refine mimics_bind (receiveOutput_mimics full same txPubKey progress) ?_
    rintro next _ s' t' ⟨rfl, agree⟩
    exact ih agree next

theorem receiveAll_mimics (full : W.Full) (same : s.chainDerived = t.chainDerived)
    (timestamp : Nat) (txPubKey : PublicKey) (own : AccOuts) (derived : Bool) :
    Mimics (receiveAll W delivered height timestamp txPubKey own derived)
      (receiveAll W delivered height timestamp txPubKey own derived) s t
        fun value answer s' t' => value = answer ∧ s'.chainDerived = t'.chainDerived := by
  unfold receiveAll
  split
  · exact mimics_pure ⟨rfl, same⟩
  · refine mimics_bind (Q := fun value answer s' t' => value = answer ∧
      s'.chainDerived = t'.chainDerived) ?_ ?_
    · unfold globalOutputIndexes
      split
      · intro _ _ ran
        cases ran
      · intro _ _ ran
        cases ran
      · refine mimics_bind (mimics_throwIf _) ?_
        rintro _ _ _ _ ⟨rfl, rfl⟩
        exact mimics_pure ⟨rfl, same⟩
      · refine mimics_bind (mimics_throwIf _) ?_
        rintro _ _ _ _ ⟨rfl, rfl⟩
        exact mimics_pure ⟨rfl, same⟩
    · rintro indexes _ s' t' ⟨rfl, agree⟩
      exact receiveOutputs_mimics full agree txPubKey _

/-! ## Transactions -/

theorem processUnconfirmed_mimics (tx : Transaction) (same : s.chainDerived = t.chainDerived) :
    Mimics (processUnconfirmed W tx) (processUnconfirmed W tx) s t fun _ _ s' t' =>
      s'.chainDerived = t'.chainDerived ∧ ChainIs s.chainDerived s.multisigTransfers s' ∧
        ChainIs t.chainDerived t.multisigTransfers t' := by
  have total : Total (processUnconfirmed W tx) := by
    refine total_get_bind fun w => ?_
    dsimp only
    split
    · exact total_set_bind (total_pure _)
    · exact total_pure _
  intro value s' ran
  obtain ⟨answer, t', there⟩ := total t
  have kept : ChainIs s.chainDerived s.multisigTransfers s' :=
    (processUnconfirmed_keeps tx).of_ok ran ⟨rfl, rfl⟩
  have keptToo : ChainIs t.chainDerived t.multisigTransfers t' :=
    (processUnconfirmed_keeps tx).of_ok there ⟨rfl, rfl⟩
  exact ⟨answer, t', there, kept.1.trans (same.trans keptToo.1.symm), kept, keptToo⟩

theorem receivePayment_agree (same : s.chainDerived = t.chainDerived) (tx : Transaction)
    (spent got : Nat) : (receivePayment W tx height spent got s).chainDerived =
      (receivePayment W tx height spent got t).chainDerived := by
  have payments : s.payments = t.payments := congrArg ChainDerived.payments same
  unfold receivePayment
  split
  · dsimp only
    split
    · have add : ∀ (w : Wallet) (more : String × PaymentDetails),
          ({ w with payments := w.payments ++ [more] } : Wallet).chainDerived =
            { w.chainDerived with payments := w.chainDerived.payments ++ [more] } :=
        fun _ _ => rfl
      rw [add, add, same]
    · exact same
  · exact same

theorem recordTransfer_agree (indexed : s.chainDerived.Indexed)
    (same : s.chainDerived = t.chainDerived) (tx : Transaction) (derivation : KeyDerivation)
    (spent got : Nat) (mtd : MoneyTransfer2Details)
    (recipients recipients' : List String × List String) :
    Mimics (recordTransfer W b tx derivation spent got mtd recipients)
      (recordTransfer W b tx derivation spent got mtd recipients') s t
        fun _ _ s' t' => s'.chainDerived = t'.chainDerived := by
  intro value s' ran
  obtain ⟨answer, t', there, _⟩ :=
    recordTransfer_mimics (t := t) recipients recipients' (same ▸ indexed) value s' ran
  obtain ⟨derived, _⟩ := recordTransfer_ok ran
  obtain ⟨derivedToo, _⟩ := recordTransfer_ok there
  refine ⟨answer, t', there, derived.trans (Eq.trans ?_ derivedToo.symm)⟩
  rw [same]

/-- A transaction is processed alike, unless it spends a multisig output that only one of the
wallets lists. -/
theorem processNewTransaction_mimics (full : W.Full) (indexed : s.chainDerived.Indexed)
    (same : s.chainDerived = t.chainDerived)
    (listed : ∀ id ∈ delivered.tx.multisigInputIds, (s.lists id ↔ t.lists id)) :
    Mimics (processNewTransaction W delivered height b) (processNewTransaction W delivered height b)
      s t fun _ _ s' t' => s'.chainDerived = t'.chainDerived := by
  refine mimics_bind (processUnconfirmed_mimics delivered.tx same) ?_
  rintro recipients recipients' s₁ t₁ ⟨agree, ⟨derived, kept⟩, ⟨_, keptToo⟩⟩
  have indexed₁ : s₁.chainDerived.Indexed := by
    rw [derived]
    exact indexed
  have listed₁ : ∀ id ∈ delivered.tx.multisigInputIds, (s₁.lists id ↔ t₁.lists id) := by
    intro id member
    rw [lists, lists, kept, keptToo]
    exact listed id member
  refine mimics_bind (mimics_demandEx _) ?_
  rintro _ extra _ _ ⟨_, rfl, rfl, rfl⟩
  refine mimics_bind ((processInputs_mimics indexed₁ agree _ listed₁).and_ran) ?_
  rintro spends _ s₂ t₂ ⟨⟨rfl, agree₂⟩, spending⟩
  have indexed₂ : s₂.chainDerived.Indexed := by
    rw [(processInputs_ok indexed₁ spending).1]
    exact indexed₁.spend
  refine mimics_bind (mimics_demandEx _) ?_
  rintro _ own _ _ ⟨_, rfl, rfl, rfl⟩
  refine mimics_bind ((receiveAll_mimics full agree₂ _ _ _ _).and_ran) ?_
  rintro received _ s₃ t₃ ⟨⟨rfl, agree₃⟩, receiving⟩
  have indexed₃ : s₃.chainDerived.Indexed := (receiveAll_ok full indexed₂ receiving).1.indexed
  refine mimics_bind (mimics_modify (Q := fun _ _ s' t' => s'.chainDerived.Indexed ∧
    s'.chainDerived = t'.chainDerived) ?_) ?_
  · exact ⟨(receivePayment_grown indexed₃).1.indexed, receivePayment_agree agree₃ _ _ _⟩
  · rintro _ _ s₄ t₄ ⟨indexed₄, agree₄⟩
    exact recordTransfer_agree indexed₄ agree₄ _ _ _ _ _ _ _

/-- The transactions of a block are processed alike, where the multisig outputs that they spend
are given, and all outputs that the second wallet lists are listed by the first one. -/
theorem processTransactions_mimics (full : W.Full) (atHeight : getBlockHeight b = height)
    {given : List Hash} {items : List DeliveredTx} (indexed : s.chainDerived.Indexed)
    (same : s.chainDerived = t.chainDerived) (listed : ∀ id, t.lists id ↔ id ∈ given)
    (more : ∀ id ∈ given, s.lists id) {stale : Hash → Prop}
    (known : ∀ id, s.lists id → stale id ∨ id ∈ given)
    (spends : SpendsGiven W stale given items) :
    Mimics (Procedure.forEach (fun delivered => processNewTransaction W delivered height b) items)
      (Procedure.forEach (fun delivered => processNewTransaction W delivered height b) items) s t
        fun _ _ s' t' => s'.chainDerived = t'.chainDerived := by
  induction items generalizing s t given with
  | nil => exact mimics_pure same
  | cons item rest ih =>
    obtain ⟨own, later⟩ := spends
    have lists : ∀ id ∈ item.tx.multisigInputIds, (s.lists id ↔ t.lists id) := by
      intro id member
      rw [listed]
      exact ⟨fun here => (known id here).elim (own id member) fun inside => inside, more id⟩
    intro value final ran
    obtain ⟨_, s', here, others⟩ := bind_ok.mp ran
    obtain ⟨_, t', there, agree⟩ := processNewTransaction_mimics full indexed same lists _ _ here
    obtain ⟨grown, gained⟩ := processNewTransaction_ok full atHeight indexed here
    obtain ⟨_, gainedToo⟩ := processNewTransaction_ok full atHeight (same ▸ indexed) there
    obtain ⟨answer, t'', ended, related⟩ := ih grown.indexed agree
      (fun id => by rw [gainedToo, listed, List.mem_append])
      (fun id member => by
        rw [gained]
        exact (List.mem_append.mp member).imp_left (more id))
      (fun id here => by
        rcases (gained id).mp here with before | fresh
        · exact (known id before).imp_right (List.mem_append_left _)
        · exact .inr (List.mem_append_right _ fresh)) later _ _ others
    exact ⟨answer, t'', by rw [Procedure.forEach, bind_of_ok there, ended], related⟩

/-! ## Blocks -/

/-- A block is processed alike, where its transactions spend no multisig output that only the
first wallet lists. -/
theorem addBlock_mimics (full : W.Full) {entry : BlockEntry}
    (atHeight : getBlockHeight entry.bl = height) (indexed : s.chainDerived.Indexed)
    (same : s.chainDerived = t.chainDerived) {given : List Hash}
    (listed : ∀ id, t.lists id ↔ id ∈ given) (more : ∀ id ∈ given, s.lists id)
    (spends : entry.isScanned W height = true → SpendsGiven W s.lists given entry.delivered) :
    Mimics (addBlock W entry height) (addBlock W entry height) s t fun _ _ s' t' =>
      s'.chainDerived = t'.chainDerived := by
  have blockchains : s.blockchain = t.blockchain := congrArg ChainDerived.blockchain same
  have pushed : ∀ w : Wallet, ({ w with blockchain := w.blockchain ++ [entry.blId W] } :
      Wallet).chainDerived =
        { w.chainDerived with blockchain := w.chainDerived.blockchain ++ [entry.blId W] } :=
    fun _ => rfl
  refine mimics_bind (Q := fun _ _ s' t' => s'.chainDerived = t'.chainDerived) ?_
    fun _ _ _ _ agree => mimics_modify agree
  refine mimics_get_bind ?_
  rw [blockchains]
  refine mimics_bind (mimics_throwIf _) ?_
  rintro _ _ _ _ ⟨rfl, rfl⟩
  refine mimics_bind (Q := fun _ _ s' t' => s'.chainDerived = t'.chainDerived) ?_ ?_
  · cases scans : entry.isScanned W height with
    | true =>
      exact processTransactions_mimics full atHeight indexed same listed more
        (fun _ here => .inl here) (spends scans)
    | false => exact mimics_pure same
  · intro _ _ _ _ agree
    exact mimics_modify (by rw [pushed, pushed, agree])

end Agreement

end Virie.Wallet
