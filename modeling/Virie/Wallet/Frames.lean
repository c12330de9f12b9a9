import Virie.Wallet.Growth

/-! # What processing leaves alone

A property of the contracts, of the multisig outputs and of what the last pool held is kept by
most of what a transaction does to a wallet. Only the escrow attachments, the multisig inputs and
the multisig outputs of a transaction have to be looked at. -/

open Foundation Foundation.Procedure

namespace Virie.Wallet

/-- The contracts, the multisig outputs, and what was found in the pool. -/
structure EscrowPart where
  contracts : Container Hash EscrowContractDetails
  multisigTransfers : Container Hash TransferDetailsBase
  unconfirmedMultisigTransfers : List Hash
  unconfirmedInTransfers : Container Hash Transaction

def escrowPart (w : Wallet) : EscrowPart where
  contracts := w.contracts
  multisigTransfers := w.multisigTransfers
  unconfirmedMultisigTransfers := w.unconfirmedMultisigTransfers
  unconfirmedInTransfers := w.unconfirmedInTransfers

theorem mem_multisigInputIds {tx : TransactionPrefix} {input : TxinMultisig}
    (member : Txin.multisig input ∈ tx.vin) : input.multisigOutId ∈ tx.multisigInputIds :=
  List.mem_filterMap.mpr ⟨_, member, rfl⟩

/-- A property that looks only at the escrow part of a wallet. -/
def OfEscrowPart (I : Wallet → Prop) : Prop :=
  ∀ ⦃w w' : Wallet⦄, I w → w'.escrowPart = w.escrowPart → I w'

section Untouched

variable {W : WalletEnv} {I : Wallet → Prop} (only : OfEscrowPart I)

include only

theorem OfEscrowPart.exceptionHandler (w : Wallet) (holds : I w) : I w.exceptionHandler :=
  only holds rfl

theorem OfEscrowPart.setWti (place : WtiPlace) (wti : WalletTransferInfo) (w : Wallet)
    (holds : I w) : I (setWti place wti w) := by
  refine only holds ?_
  cases place with
  | lastOfHistory => rfl
  | unconfirmed txHash => rfl

theorem OfEscrowPart.throwIf (condition : Bool) : Preserves I (throwIf condition) :=
  preserves_throwIf only.exceptionHandler condition

theorem OfEscrowPart.demandEx {α : Type} (option : Option α) : Preserves I (demandEx option) :=
  preserves_demandEx only.exceptionHandler option

/-- What follows a demanded value may use where the value is from. -/
theorem OfEscrowPart.demandEx_bind {α β : Type} {option : Option α}
    {next : α → Procedure Wallet β}
    (rest : ∀ value, option = some value → Preserves I (next value)) :
    Preserves I (Wallet.demandEx option >>= next) := by
  refine preserves_bind_of (only.demandEx option) fun w value after holds demanded => ?_
  obtain ⟨present, rfl⟩ := demandEx_ok.mp demanded
  exact rest value present w holds

theorem OfEscrowPart.addTransfersToExpirationList (selected : List Nat)
    (expiration change : Nat) (related : Hash) :
    Preserves I (addTransfersToExpirationList selected expiration change related) := by
  refine preserves_get_bind fun w _ => ?_
  refine preserves_ite (fun _ => preserves_pure ()) fun _ => ?_
  refine preserves_bind (preserves_modify fun _ holds => only holds rfl) fun _ => ?_
  refine preserves_forEach fun i _ => preserves_get_bind fun wallet holds => ?_
  exact preserves_bind (only.throwIf _) fun _ => preserves_set (only holds rfl)

theorem OfEscrowPart.removeTransferFromExpirationList (transferIndex : Nat) :
    Preserves I (removeTransferFromExpirationList transferIndex) := by
  refine preserves_get_bind fun w holds => ?_
  exact preserves_bind (only.throwIf _) fun _ => preserves_set (only holds rfl)

theorem OfEscrowPart.processUnconfirmed (tx : Transaction) :
    Preserves I (processUnconfirmed W tx) := by
  refine preserves_get_bind fun w holds => ?_
  dsimp only
  split
  · exact preserves_bind (preserves_set (only holds rfl)) fun _ => preserves_pure _
  · exact preserves_pure _

theorem OfEscrowPart.ownKeyImage (txPubKey : PublicKey) (o : Nat) (otk : TxoutToKey) :
    Preserves I (ownKeyImage W txPubKey o otk) := by
  refine preserves_ite (fun _ => preserves_get_bind fun w _ => preserves_pure _) fun _ => ?_
  exact preserves_bind (only.throwIf _) fun _ => preserves_pure _

theorem OfEscrowPart.receiveToKey (info : TransactionWalletInfo) (oIndexes : List Nat)
    (ki : KeyImage) (mined : Bool) (o amount : Nat) (progress : ReceiveProgress) :
    Preserves I (receiveToKey info oIndexes ki mined o amount progress) := by
  refine preserves_get_bind fun w holds => ?_
  split
  · refine preserves_bind (only.throwIf _) fun _ => ?_
    exact preserves_bind (only.throwIf _) fun _ => preserves_pure _
  · exact preserves_bind (preserves_set (only holds rfl)) fun _ => preserves_pure _

theorem OfEscrowPart.globalOutputIndexes (tx : Transaction) (reply : OIndexesReply) :
    Preserves I (globalOutputIndexes tx reply) := by
  cases reply with
  | noConnection => exact preserves_throw _
  | busy => exact preserves_throw _
  | failed => exact preserves_bind (only.throwIf _) fun _ => preserves_pure _
  | ok oIndexes => exact preserves_bind (only.throwIf _) fun _ => preserves_pure _

theorem OfEscrowPart.receivePayment (tx : Transaction) (height spent got : Nat) (w : Wallet)
    (holds : I w) : I (receivePayment W tx height spent got w) := by
  refine only holds ?_
  unfold Wallet.receivePayment
  split
  · dsimp only
    split
    · rfl
    · rfl
  · rfl

theorem OfEscrowPart.processToKey (coinBaseTx : Bool) (height i : Nat) (progress : SpendProgress)
    (input : TxinToKey) : Preserves I (processInput coinBaseTx height i progress (.toKey input)) := by
  refine preserves_get_bind fun w holds => ?_
  split
  · exact preserves_pure progress
  · refine preserves_bind (preserves_demand _ _) fun td => ?_
    refine preserves_bind (preserves_set (only holds rfl)) fun _ => ?_
    exact preserves_bind (only.removeTransferFromExpirationList _) fun _ => preserves_pure _

theorem OfEscrowPart.processInputs {height : Nat} {all : List Txin}
    (spends : ∀ (coinBaseTx : Bool) (i : Nat) (progress : SpendProgress) (input : TxinMultisig),
      Txin.multisig input ∈ all →
      Preserves I (processInput coinBaseTx height i progress (.multisig input)))
    (coinBaseTx : Bool) {inputs : List Txin} (among : inputs ⊆ all) (i : Nat)
    (progress : SpendProgress) :
    Preserves I (processInputs coinBaseTx height i inputs progress) := by
  induction inputs generalizing i progress with
  | nil => exact preserves_pure progress
  | cons input rest ih =>
    refine preserves_bind ?_ fun _ => ih (fun _ member => among (.tail _ member)) _ _
    cases input with
    | gen height => exact preserves_pure progress
    | toKey input => exact only.processToKey coinBaseTx height i progress input
    | multisig input => exact spends coinBaseTx i progress input (among (.head _))

end Untouched

/-- A property of the escrow part that the escrow attachments keep. -/
structure EscrowKept (W : WalletEnv) (I : Wallet → Prop) : Prop where
  only : OfEscrowPart I
  handled : ∀ {att : List PayloadItem} {sa : TxServiceAttachment} {wti : WalletTransferInfo}
    {handle : Procedure Wallet WalletTransferInfo}, sa.serviceId = bcEscrowServiceId →
    handleServiceAttachment W att sa wti = some handle → Preserves I handle

section Kept

variable {W : WalletEnv} {I : Wallet → Prop} (kept : EscrowKept W I)

include kept

theorem EscrowKept.processContractInfo (place : WtiPlace) (att items : List PayloadItem)
    (wti : WalletTransferInfo) : Preserves I (processContractInfo W place att items wti) := by
  induction items generalizing wti with
  | nil => exact preserves_pure wti
  | cons item rest ih =>
    cases item with
    | txServiceAttachment sa =>
      refine preserves_ite (fun escrow => ?_) fun _ => ih wti
      split
      · exact preserves_pure wti
      · next handle handles =>
        refine preserves_bind (kept.handled escrow handles) fun handled => ?_
        exact preserves_bind (preserves_modify (kept.only.setWti place handled)) fun _ => ih handled
    | _ => exact ih wti

theorem EscrowKept.prepareWti (place : WtiPlace) (wti : WalletTransferInfo)
    (height timestamp : Nat) (tx : Transaction) (amount : Nat) (td : MoneyTransfer2Details) :
    Preserves I (prepareWti W place wti height timestamp tx amount td) := by
  refine preserves_bind (preserves_modify (kept.only.setWti place _)) fun _ => ?_
  exact preserves_bind (kept.processContractInfo place _ _ _) fun _ => preserves_pure ()

theorem EscrowKept.pushHistory (b : Block) (tx : Transaction) (amount : Nat)
    (td : MoneyTransfer2Details) (wti : WalletTransferInfo) :
    Preserves I (pushHistory W b tx amount td wti) :=
  preserves_bind (preserves_modify fun _ holds => kept.only holds rfl) fun _ =>
    kept.prepareWti _ wti _ _ tx amount td

theorem EscrowKept.recordTransfer (b : Block) (tx : Transaction) (derivation : KeyDerivation)
    (spent got : Nat) (mtd : MoneyTransfer2Details) (recipients : List String × List String) :
    Preserves I (recordTransfer W b tx derivation spent got mtd recipients) := by
  refine preserves_ite (fun _ => preserves_ite (fun _ => ?_) fun _ => ?_) fun _ =>
    preserves_ite (fun _ => ?_) fun _ => preserves_ite (fun _ => ?_) fun _ =>
      preserves_ite (fun _ => ?_) fun _ => preserves_pure ()
  · exact kept.pushHistory b tx _ mtd _
  · exact kept.pushHistory b tx _ mtd _
  · exact kept.pushHistory b tx _ mtd _
  · exact kept.pushHistory b tx _ mtd _
  · exact kept.pushHistory b tx _ mtd _

variable {height : Nat}

theorem EscrowKept.receiveOutputs {info : TransactionWalletInfo} {all : List Nat}
    (receives : ∀ (o : Nat) (id : Hash) (w : Wallet), o ∈ all →
      multisigIdAt W info.tx o = some id → I w → I (receiveMultisig W info o w))
    (txPubKey : PublicKey) (oIndexes : List Nat) (coinBaseTx derived : Bool) {outs : List Nat}
    (among : outs ⊆ all) (progress : ReceiveProgress) :
    Preserves I (receiveOutputs W info txPubKey oIndexes coinBaseTx derived outs progress) := by
  induction outs generalizing progress with
  | nil => exact preserves_pure progress
  | cons o rest ih =>
    refine preserves_bind ?_ fun _ => ih (fun _ member => among (.tail _ member)) _
    refine kept.only.demandEx_bind fun out present => ?_
    split
    · refine preserves_bind (kept.only.ownKeyImage txPubKey o _) fun ki => ?_
      exact kept.only.receiveToKey info oIndexes ki _ o out.amount progress
    · next target multisig =>
      have named : multisigIdAt W info.tx o =
          some (getMultisigOutId W.core info.tx.toTransactionPrefix o) := by
        rw [multisigIdAt, present]
        simp only [multisig]
      refine preserves_bind (preserves_modify fun w holds => ?_) fun _ => preserves_pure progress
      exact receives o _ w (among (.head _)) named holds

/-- A transaction keeps what its multisig inputs and outputs keep. -/
theorem EscrowKept.processNewTransaction {delivered : DeliveredTx} {b : Block}
    (spends : ∀ (coinBaseTx : Bool) (i : Nat) (progress : SpendProgress) (input : TxinMultisig),
      Txin.multisig input ∈ delivered.tx.vin →
      Preserves I (processInput coinBaseTx height i progress (.multisig input)))
    (receives : ∀ (o : Nat) (id : Hash) (w : Wallet), id ∈ receivedIds W delivered.tx →
      multisigIdAt W delivered.tx o = some id → I w →
      I (receiveMultisig W ⟨height, b.timestamp, delivered.tx⟩ o w)) :
    Preserves I (processNewTransaction W delivered height b) := by
  refine preserves_bind (kept.only.processUnconfirmed _) fun recipients => ?_
  refine kept.only.demandEx_bind fun extra parsed => ?_
  refine preserves_bind (kept.only.processInputs spends _ (List.Subset.refl _) _ _) fun progress => ?_
  refine kept.only.demandEx_bind fun own looked => ?_
  have among : own.outs.filterMap (multisigIdAt W delivered.tx) = receivedIds W delivered.tx :=
    (receivedIds_eq parsed looked).symm
  refine preserves_bind ?_ fun received => ?_
  · refine preserves_ite (fun _ => preserves_pure _) fun _ => ?_
    refine preserves_bind (kept.only.globalOutputIndexes _ _) fun oIndexes => ?_
    refine kept.receiveOutputs (fun o id w member named holds => ?_) _ _ _ _
      (List.Subset.refl _) _
    exact receives o id w (among ▸ List.mem_filterMap.mpr ⟨o, member, named⟩) named holds
  · refine preserves_bind (preserves_modify (kept.only.receivePayment _ _ _ _)) fun _ => ?_
    exact kept.recordTransfer b _ _ _ _ _ _

/-- So does a block. -/
theorem EscrowKept.addBlock {entry : BlockEntry}
    (spends : ∀ (delivered : DeliveredTx) (coinBaseTx : Bool) (i : Nat)
      (progress : SpendProgress) (input : TxinMultisig), entry.isScanned W height = true →
      delivered ∈ entry.delivered → Txin.multisig input ∈ delivered.tx.vin →
      Preserves I (processInput coinBaseTx height i progress (.multisig input)))
    (receives : ∀ (delivered : DeliveredTx) (o : Nat) (id : Hash) (w : Wallet),
      entry.isScanned W height = true → delivered ∈ entry.delivered →
      id ∈ receivedIds W delivered.tx → multisigIdAt W delivered.tx o = some id → I w →
      I (receiveMultisig W ⟨height, entry.bl.timestamp, delivered.tx⟩ o w)) :
    Preserves I (addBlock W entry height) := by
  refine preserves_bind ?_ fun _ => preserves_modify fun _ holds => kept.only holds rfl
  refine preserves_get_bind fun w _ => preserves_bind (kept.only.throwIf _) fun _ => ?_
  refine preserves_bind ?_ fun _ => preserves_modify fun _ holds => kept.only holds rfl
  refine preserves_onlyIf_of fun scanned => preserves_forEach fun delivered member => ?_
  exact kept.processNewTransaction (fun coinBaseTx i progress input inside =>
    spends delivered coinBaseTx i progress input scanned member inside)
    fun o id w received named holds => receives delivered o id w scanned member received named holds

end Kept

/-! ## Contracts -/

section Contracts

variable {W : WalletEnv} {I : Wallet → Prop} (only : OfEscrowPart I)
  (contracts : ∀ (w : Wallet) (c : Container Hash EscrowContractDetails), I w →
    I { w with contracts := c })

include only contracts

/-- A property that does not depend on the contracts is kept by the escrow attachments. -/
theorem OfEscrowPart.kept : EscrowKept W I := by
  refine ⟨only, fun {att sa wti handle} _ handles => ?_⟩
  unfold handleServiceAttachment at handles
  split at handles
  · obtain ⟨prop, _, rfl⟩ := Option.map_eq_some_iff.mp handles
    unfold handleProposal
    split
    · exact preserves_pure wti
    · refine preserves_get_bind fun w holds => ?_
      refine preserves_bind (preserves_set (contracts w _ holds)) fun _ => ?_
      refine preserves_ite (fun _ => preserves_pure _) fun _ => ?_
      refine preserves_bind (only.demandEx _) fun own => ?_
      exact preserves_bind (only.addTransfersToExpirationList _ _ _ _) fun _ => preserves_pure _
  · split at handles
    · obtain ⟨cntr, _, rfl⟩ := Option.map_eq_some_iff.mp handles
      unfold handleContract
      dsimp only
      split
      · exact preserves_pure wti
      · exact preserves_get_bind fun w holds =>
          preserves_bind (preserves_set (contracts w _ holds)) fun _ => preserves_pure _
    · split at handles
      · obtain rfl := Option.some.inj handles
        refine preserves_get_bind fun w holds => ?_
        refine preserves_ite (fun _ => preserves_pure _) fun _ => ?_
        split
        · exact preserves_bind (preserves_set (contracts w _ holds)) fun _ => preserves_pure _
        · exact preserves_pure wti
      · split at handles
        · obtain ⟨cpb, _, rfl⟩ := Option.map_eq_some_iff.mp handles
          refine preserves_get_bind fun w holds => ?_
          split
          · dsimp only
            split
            · exact preserves_bind (preserves_set (contracts w _ holds)) fun _ =>
                preserves_pure wti
            · exact preserves_pure wti
          · exact preserves_pure wti
        · obtain rfl := Option.some.inj handles
          exact preserves_pure wti

end Contracts

end Virie.Wallet
