import Virie.Wallet.Scanning
import Virie.Foundation.Simulation

/-! # The part of a wallet that the chain determines

Block ids, own outputs with their spends, key images, payments and the order of the history
come from the blocks alone; locks, contracts and cached amounts do not. Processing a
transaction marks the outputs whose key images it spends, appends outputs, payments and
history entries of its height, and keeps the table of key images in step with the outputs. -/

open Foundation

namespace Virie.Wallet

/-- A transfer without the locks that the wallet itself puts on it. -/
def TransferDetails.chainPart (td : TransferDetails) : TransferDetails :=
  { td with flags := { spent := td.flags.spent, minedTransfer := td.flags.minedTransfer } }

/-- What a history entry says about the chain: the transaction, its height, its direction. -/
def WalletTransferInfo.chainPart (wti : WalletTransferInfo) : Transaction × Nat × Bool :=
  (wti.tx, wti.height, wti.isIncome)

@[ext] structure ChainDerived where
  blockchain : List Hash
  outputs : List TransferDetails
  keyImages : Container KeyImage TransferIndex
  payments : List (String × PaymentDetails)
  history : List (Transaction × Nat × Bool)

/-- The chain-derived state. -/
def chainDerived (w : Wallet) : ChainDerived where
  blockchain := w.blockchain
  outputs := w.transfers.map TransferDetails.chainPart
  keyImages := w.keyImages
  payments := w.payments
  history := w.transferHistory.map WalletTransferInfo.chainPart

/-- The table of key images points to the outputs that have them, and to nothing else. -/
def ChainDerived.Indexed (c : ChainDerived) : Prop :=
  ∀ ki stored, c.keyImages.get ki = some stored ↔
    ∃ td, c.outputs[stored.index]? = some td ∧ td.keyImage = ki ∧ stored.output = some td.ref

namespace ChainDerived.Indexed

variable {c d : ChainDerived} (indexed : c.Indexed)
include indexed

/-- Two outputs with one key image are one output. -/
theorem unique {i j : Nat} {td td' : TransferDetails} (first : c.outputs[i]? = some td)
    (second : c.outputs[j]? = some td') (same : td.keyImage = td'.keyImage) : i = j := by
  have left := (indexed td.keyImage ⟨i, some td.ref⟩).mpr ⟨td, first, rfl, rfl⟩
  have right := (indexed td.keyImage ⟨j, some td'.ref⟩).mpr ⟨td', second, same.symm, rfl⟩
  rw [left] at right
  exact congrArg TransferIndex.index (Option.some.inj right)

theorem get_none {ki : KeyImage} :
    c.keyImages.get ki = none ↔ ∀ td ∈ c.outputs, td.keyImage ≠ ki := by
  constructor
  · intro missing td member same
    obtain ⟨i, found⟩ := List.mem_iff_getElem?.mp member
    have present := (indexed ki ⟨i, some td.ref⟩).mpr ⟨td, found, same, rfl⟩
    rw [missing] at present
    cases present
  · intro apart
    cases present : c.keyImages.get ki with
    | none => rfl
    | some stored =>
      obtain ⟨td, found, same, _⟩ := (indexed ki stored).mp present
      exact absurd same (apart td (List.mem_of_getElem? found))

/-- The table is determined by the outputs. -/
theorem table_eq (other : d.Indexed) (same : c.outputs = d.outputs) :
    c.keyImages = d.keyImages := by
  refine Container.ext fun ki => Option.ext fun stored => ?_
  rw [indexed ki stored, other ki stored, same]

/-- Nothing else of the state matters. -/
theorem congr (outputs : d.outputs = c.outputs) (images : d.keyImages = c.keyImages) :
    d.Indexed := by
  intro ki stored
  rw [outputs, images]
  exact indexed ki stored

/-- Changes that leave key images and outputs what they are. -/
theorem map {change : TransferDetails → TransferDetails}
    (image : ∀ td, (change td).keyImage = td.keyImage) (ref : ∀ td, (change td).ref = td.ref) :
    ({ c with outputs := c.outputs.map change } : ChainDerived).Indexed := by
  intro ki stored
  simp only [List.getElem?_map, Option.map_eq_some_iff]
  rw [indexed ki stored]
  constructor
  · rintro ⟨td, found, named, stands⟩
    exact ⟨change td, ⟨td, found, rfl⟩, (image td).trans named, by rw [ref, stands]⟩
  · rintro ⟨_, ⟨td, found, rfl⟩, named, stands⟩
    exact ⟨td, found, (image td).symm.trans named, by rw [stands, ref]⟩

/-- A new output with a new key image enters the table at its place. -/
theorem push {td : TransferDetails} (fresh : c.keyImages.get td.keyImage = none) :
    ({ c with
        outputs := c.outputs ++ [td]
        keyImages := c.keyImages.set td.keyImage ⟨c.outputs.length, some td.ref⟩ } :
      ChainDerived).Indexed := by
  intro ki stored
  rw [Container.get_set]
  constructor
  · intro found
    by_cases same : td.keyImage = ki
    · rw [if_pos same] at found
      cases found
      exact ⟨td, by rw [List.getElem?_concat_length], same, rfl⟩
    · rw [if_neg same] at found
      obtain ⟨other, present, named, stands⟩ := (indexed ki stored).mp found
      have inside := (List.getElem?_eq_some_iff.mp present).1
      exact ⟨other, by rw [List.getElem?_append_left inside, present], named, stands⟩
  · rintro ⟨other, present, named, stands⟩
    by_cases inside : stored.index < c.outputs.length
    · rw [List.getElem?_append_left inside] at present
      have known := (indexed ki stored).mpr ⟨other, present, named, stands⟩
      rw [if_neg (fun same => by rw [same, known] at fresh; cases fresh), known]
    · have last : stored.index = c.outputs.length := by
        have bound := (List.getElem?_eq_some_iff.mp present).1
        rw [List.length_append, List.length_singleton] at bound
        omega
      rw [last, List.getElem?_concat_length] at present
      cases present
      rw [if_pos named]
      cases stored
      cases last
      cases stands
      rfl

end ChainDerived.Indexed

/-! ## Locks and contracts -/

@[simp] theorem chainPart_lock (td : TransferDetails) :
    (mapFlags (fun flags => flags.add lockedForProposal) td).chainPart = td.chainPart := by
  simp [TransferDetails.chainPart, mapFlags, TransferFlags.add, lockedForProposal,
    TransferFlags.flagBlocked, TransferFlags.flagEscrowProposalReservation]

@[simp] theorem chainPart_unlock (td : TransferDetails) :
    (mapFlags (fun flags => flags.remove lockedForProposal) td).chainPart = td.chainPart := by
  simp [TransferDetails.chainPart, mapFlags, TransferFlags.remove, TransferFlags.add,
    lockedForProposal, TransferFlags.flagBlocked, TransferFlags.flagEscrowProposalReservation]

theorem map_modify {α β : Type} {f : α → β} {g : α → α} {g' : β → β} (l : List α) (i : Nat)
    (comm : ∀ x, f (g x) = g' (f x)) : (l.modify i g).map f = (l.map f).modify i g' := by
  refine List.ext_getElem? fun j => ?_
  rw [List.getElem?_map, List.getElem?_modify, List.getElem?_modify, List.getElem?_map]
  cases l[j]? with
  | none => split <;> rfl
  | some x =>
    split
    · exact congrArg some (comm x)
    · rfl

section Views

variable {w w' : Wallet} {i : Nat} {change change' : TransferDetails → TransferDetails}

theorem chainDerived_updateTransfer (comm : ∀ td, (change td).chainPart = change' td.chainPart) :
    (w.updateTransfer i change).chainDerived =
      { w.chainDerived with outputs := w.chainDerived.outputs.modify i change' } := by
  simp only [chainDerived, updateTransfer]
  rw [map_modify _ _ comm]

theorem chainDerived_updateTransfer_same (same : ∀ td, (change td).chainPart = td.chainPart) :
    (w.updateTransfer i change).chainDerived = w.chainDerived := by
  have comm : ∀ td, (change td).chainPart = id td.chainPart := same
  rw [chainDerived_updateTransfer comm, List.modify_id]

theorem chainDerived_setWti {wti : WalletTransferInfo}
    (last : w.chainDerived.history.getLast? = some wti.chainPart) :
    (setWti .lastOfHistory wti w).chainDerived = w.chainDerived := by
  have kept : (w.transferHistory.dropLast ++ [wti]).map WalletTransferInfo.chainPart =
      w.transferHistory.map WalletTransferInfo.chainPart := by
    rw [List.map_append, List.map_dropLast, List.map_singleton]
    exact List.dropLast_append_getLast? _ last
  simp only [chainDerived, setWti, kept]

end Views

/-- The chain-derived state and the multisig outputs are as given. -/
def ChainIs (c : ChainDerived) (m : Container Hash TransferDetailsBase) (w : Wallet) : Prop :=
  w.chainDerived = c ∧ w.multisigTransfers = m

section Locks

open Procedure

variable {W : WalletEnv} {c : ChainDerived} {m : Container Hash TransferDetailsBase}

theorem preserves_throwIf {I : Wallet → Prop} (keeps : ∀ w, I w → I w.exceptionHandler)
    (condition : Bool) : Preserves I (throwIf condition) := by
  unfold throwIf
  cases condition with
  | true => exact preserves_bind (preserves_modify keeps) fun _ => preserves_throw _
  | false => exact preserves_pure ()

theorem preserves_demandEx {α : Type} {I : Wallet → Prop}
    (keeps : ∀ w, I w → I w.exceptionHandler) (option : Option α) :
    Preserves I (demandEx option) := by
  cases option with
  | some value => exact preserves_pure value
  | none => exact preserves_bind (preserves_modify keeps) fun _ => preserves_throw _

theorem chainIs_exceptionHandler (w : Wallet) (holds : ChainIs c m w) :
    ChainIs c m w.exceptionHandler := holds

theorem chainIs_updateTransfer {w : Wallet} (i : Nat)
    {change : TransferDetails → TransferDetails}
    (same : ∀ td, (change td).chainPart = td.chainPart) (holds : ChainIs c m w) :
    ChainIs c m (w.updateTransfer i change) :=
  ⟨(chainDerived_updateTransfer_same same).trans holds.1, holds.2⟩

theorem addTransfersToExpirationList_keeps (selected : List Nat) (expiration change : Nat)
    (related : Hash) :
    Preserves (ChainIs c m) (addTransfersToExpirationList selected expiration change related) := by
  refine preserves_get_bind fun w _ => ?_
  refine preserves_ite (fun _ => preserves_pure ()) fun _ => ?_
  refine preserves_bind (preserves_modify fun _ holds => holds) fun _ => ?_
  refine preserves_forEach fun i _ => preserves_get_bind fun wallet holds => ?_
  exact preserves_bind (preserves_throwIf chainIs_exceptionHandler _) fun _ =>
    preserves_set (chainIs_updateTransfer i chainPart_lock holds)

theorem handleProposal_keeps (wti : WalletTransferInfo) (prop : ProposalBody) :
    Preserves (ChainIs c m) (handleProposal W wti prop) := by
  unfold handleProposal
  split
  · exact preserves_pure wti
  · refine preserves_get_bind fun w holds => preserves_bind (preserves_set holds) fun _ => ?_
    refine preserves_ite (fun _ => preserves_pure _) fun _ => ?_
    refine preserves_bind (preserves_demandEx chainIs_exceptionHandler _) fun own => ?_
    exact preserves_bind (addTransfersToExpirationList_keeps _ _ _ _) fun _ => preserves_pure _

theorem handleContract_keeps (wti : WalletTransferInfo) (cntr : ContractPrivateDetails)
    (att : List PayloadItem) : Preserves (ChainIs c m) (handleContract W wti cntr att) := by
  unfold handleContract
  dsimp only
  split
  · exact preserves_pure wti
  · exact preserves_get_bind fun w holds =>
      preserves_bind (preserves_set holds) fun _ => preserves_pure _

theorem handleReleaseContract_keeps (wti : WalletTransferInfo) (instruction : String) :
    Preserves (ChainIs c m) (handleReleaseContract wti instruction) := by
  refine preserves_get_bind fun w holds => ?_
  refine preserves_ite (fun _ => preserves_pure _) fun _ => ?_
  split
  · exact preserves_bind (preserves_set holds) fun _ => preserves_pure _
  · exact preserves_pure wti

theorem handleCancelProposal_keeps (wti : WalletTransferInfo) (ectb : EscrowCancelTemplatesBody)
    (att : List PayloadItem) : Preserves (ChainIs c m) (handleCancelProposal W wti ectb att) := by
  refine preserves_get_bind fun w holds => ?_
  split
  · dsimp only
    split
    · exact preserves_bind (preserves_set holds) fun _ => preserves_pure wti
    · exact preserves_pure wti
  · exact preserves_pure wti

theorem handleServiceAttachment_keeps {att : List PayloadItem} {sa : TxServiceAttachment}
    {wti : WalletTransferInfo} {handle : Procedure Wallet WalletTransferInfo}
    (handles : handleServiceAttachment W att sa wti = some handle) :
    Preserves (ChainIs c m) handle := by
  unfold handleServiceAttachment at handles
  split at handles
  · obtain ⟨prop, _, rfl⟩ := Option.map_eq_some_iff.mp handles
    exact handleProposal_keeps wti prop
  · split at handles
    · obtain ⟨cntr, _, rfl⟩ := Option.map_eq_some_iff.mp handles
      exact handleContract_keeps wti cntr att
    · split at handles
      · cases handles
        exact handleReleaseContract_keeps wti _
      · split at handles
        · obtain ⟨cpb, _, rfl⟩ := Option.map_eq_some_iff.mp handles
          exact handleCancelProposal_keeps wti cpb att
        · cases handles
          exact preserves_pure wti

end Locks

/-! ## Spending -/

/-- An output after transactions of a height spent some key images. -/
def spendImage (height : Nat) (images : List KeyImage) (td : TransferDetails) : TransferDetails :=
  if td.keyImage ∈ images then spendAt height td else td

def ChainDerived.spend (height : Nat) (images : List KeyImage) (c : ChainDerived) : ChainDerived :=
  { c with outputs := c.outputs.map (spendImage height images) }

@[simp] theorem spendImage_keyImage (height : Nat) (images : List KeyImage)
    (td : TransferDetails) : (spendImage height images td).keyImage = td.keyImage := by
  unfold spendImage
  split <;> rfl

theorem spendImage_ref (height : Nat) (images : List KeyImage) (td : TransferDetails) :
    (spendImage height images td).ref = td.ref := by
  unfold spendImage
  split <;> rfl

theorem spendAt_spendAt (height : Nat) (td : TransferDetails) :
    spendAt height (spendAt height td) = spendAt height td := by
  simp only [spendAt, TransferFlags.add, Bool.or_assoc, Bool.or_self]

theorem chainPart_spendAt (height : Nat) (td : TransferDetails) :
    (spendAt height td).chainPart = spendAt height td.chainPart := by
  simp [TransferDetails.chainPart, spendAt, TransferFlags.add, TransferFlags.flagSpent]

theorem spendImage_nil (height : Nat) : spendImage height [] = id := by
  funext td
  exact if_neg List.not_mem_nil

theorem spendImage_of_mem {height : Nat} {images : List KeyImage} {td : TransferDetails}
    (member : td.keyImage ∈ images) : spendImage height images td = spendAt height td :=
  if_pos member

theorem spendImage_of_not_mem {height : Nat} {images : List KeyImage} {td : TransferDetails}
    (apart : td.keyImage ∉ images) : spendImage height images td = td :=
  if_neg apart

theorem spendImage_append (height : Nat) (first second : List KeyImage) :
    spendImage height second ∘ spendImage height first = spendImage height (first ++ second) := by
  funext td
  rw [Function.comp_apply]
  by_cases early : td.keyImage ∈ first
  · rw [spendImage_of_mem early, spendImage_of_mem (List.mem_append.mpr (.inl early))]
    by_cases late : td.keyImage ∈ second
    · rw [spendImage_of_mem (show (spendAt height td).keyImage ∈ second from late),
        spendAt_spendAt]
    · rw [spendImage_of_not_mem (show (spendAt height td).keyImage ∉ second from late)]
  · rw [spendImage_of_not_mem early]
    by_cases late : td.keyImage ∈ second
    · rw [spendImage_of_mem late, spendImage_of_mem (List.mem_append.mpr (.inr late))]
    · rw [spendImage_of_not_mem late,
        spendImage_of_not_mem fun member => (List.mem_append.mp member).elim early late]

namespace ChainDerived

variable {c : ChainDerived} {height : Nat} {images : List KeyImage}

@[simp] theorem spend_nil : c.spend height [] = c := by
  simp only [spend, spendImage_nil, List.map_id]

theorem spend_append (first second : List KeyImage) :
    (c.spend height first).spend height second = c.spend height (first ++ second) := by
  simp only [spend, List.map_map, spendImage_append]

theorem Indexed.spend (indexed : c.Indexed) : (c.spend height images).Indexed :=
  indexed.map (spendImage_keyImage height images) (spendImage_ref height images)

/-- The output a key image points to is the only one with it. -/
theorem Indexed.modify_eq (indexed : c.Indexed) {ki : KeyImage} {stored : TransferIndex}
    (found : c.keyImages.get ki = some stored) :
    c.outputs.modify stored.index (spendAt height) = c.outputs.map (spendImage height [ki]) := by
  obtain ⟨td, present, named, _⟩ := (indexed ki stored).mp found
  refine List.ext_getElem? fun j => ?_
  rw [List.getElem?_modify, List.getElem?_map]
  cases atPlace : c.outputs[j]? with
  | none => split <;> rfl
  | some other =>
    by_cases same : stored.index = j
    · subst same
      rw [present] at atPlace
      cases atPlace
      rw [Option.map_eq_map, Option.map_some, Option.map_some, if_pos rfl,
        spendImage_of_mem (List.mem_singleton.mpr named)]
    · have apart : other.keyImage ≠ ki := fun also =>
        same (indexed.unique present atPlace (named.trans also.symm))
      rw [Option.map_eq_map, Option.map_some, Option.map_some, if_neg same,
        spendImage_of_not_mem fun member => apart (List.mem_singleton.mp member)]

end ChainDerived

/-- The multisig outputs a wallet lists. -/
def lists (w : Wallet) (id : Hash) : Prop := w.multisigTransfers.has id = true

section Inputs

open Procedure

variable {w w' : Wallet} {coinBaseTx : Bool} {height i : Nat} {progress : SpendProgress}

theorem removeTransferFromExpirationList_ok {j : Nat} {result : Unit}
    (ran : removeTransferFromExpirationList j w = .ok result w') :
    ChainIs w.chainDerived w.multisigTransfers w' ∧ j < w.transfers.length := by
  obtain ⟨_, _, passed, settled⟩ := bind_ok.mp ((get_bind _ _).symm.trans ran)
  obtain ⟨inside, rfl⟩ := throwIf_ok.mp passed
  obtain rfl := set_ok.mp settled
  refine ⟨chainIs_updateTransfer j chainPart_unlock ⟨rfl, rfl⟩, ?_⟩
  rw [decide_eq_false_iff_not] at inside
  omega

theorem processInput_ok {input : Txin} {result : SpendProgress}
    (indexed : w.chainDerived.Indexed)
    (ran : processInput coinBaseTx height i progress input w = .ok result w') :
    w'.chainDerived = w.chainDerived.spend height input.spentKeyImage.toList ∧
      ∀ id, w'.lists id ↔ w.lists id := by
  cases input with
  | gen _ =>
    obtain ⟨_, rfl⟩ := pure_ok.mp ran
    exact ⟨ChainDerived.spend_nil.symm, fun _ => Iff.rfl⟩
  | toKey input =>
    rw [processInput, get_bind] at ran
    cases found : w.keyImages.get input.kImage with
    | none =>
      rw [found] at ran
      obtain ⟨_, rfl⟩ := pure_ok.mp ran
      refine ⟨?_, fun _ => Iff.rfl⟩
      have apart := indexed.get_none.mp found
      have same : w.chainDerived.outputs.map (spendImage height [input.kImage]) =
          w.chainDerived.outputs.map id := List.map_congr_left fun td member => by
        rw [spendImage_of_not_mem fun named => apart td member (List.mem_singleton.mp named),
          id_eq]
      rw [show (Txin.toKey input).spentKeyImage.toList = [input.kImage] from rfl,
        ChainDerived.spend, same, List.map_id]
    | some stored =>
      rw [found] at ran
      obtain ⟨td, _, demanded, ran⟩ := bind_ok.mp ran
      obtain ⟨present, rfl⟩ := demand_ok.mp demanded
      rw [set_bind] at ran
      obtain ⟨_, middle, removed, ended⟩ := bind_ok.mp ran
      obtain ⟨_, rfl⟩ := pure_ok.mp ended
      obtain ⟨⟨derived, kept⟩, _⟩ := removeTransferFromExpirationList_ok removed
      refine ⟨?_, fun id => by rw [lists, kept]; rfl⟩
      rw [derived, chainDerived_updateTransfer (chainPart_spendAt height),
        indexed.modify_eq found]
      rfl
  | multisig input =>
    rw [processInput, get_bind] at ran
    cases found : w.multisigTransfers.get input.multisigOutId with
    | none =>
      rw [found] at ran
      obtain ⟨_, rfl⟩ := pure_ok.mp ran
      exact ⟨ChainDerived.spend_nil.symm, fun _ => Iff.rfl⟩
    | some td =>
      rw [found] at ran
      obtain ⟨_, middle, stored, ended⟩ := bind_ok.mp ran
      obtain rfl := set_ok.mp stored
      obtain ⟨_, rfl⟩ := pure_ok.mp ended
      refine ⟨ChainDerived.spend_nil.symm, fun id => ?_⟩
      simp only [lists, Container.has, Container.get_set]
      split
      · next same => rw [← same, found]; simp only [Option.isSome_some]
      · rfl

theorem processInputs_ok {inputs : List Txin} {result : SpendProgress}
    (indexed : w.chainDerived.Indexed)
    (ran : processInputs coinBaseTx height i inputs progress w = .ok result w') :
    w'.chainDerived = w.chainDerived.spend height (inputs.filterMap Txin.spentKeyImage) ∧
      ∀ id, w'.lists id ↔ w.lists id := by
  induction inputs generalizing w i progress with
  | nil =>
    obtain ⟨_, rfl⟩ := pure_ok.mp ran
    exact ⟨ChainDerived.spend_nil.symm, fun _ => Iff.rfl⟩
  | cons input rest ih =>
    obtain ⟨middle, between, one, others⟩ := bind_ok.mp ran
    obtain ⟨derived, listed⟩ := processInput_ok indexed one
    obtain ⟨derivedToo, listedToo⟩ := ih (by rw [derived]; exact indexed.spend) others
    refine ⟨?_, fun id => (listedToo id).trans (listed id)⟩
    rw [derivedToo, derived, ChainDerived.spend_append]
    congr 1
    cases image : input.spentKeyImage with
    | none => rw [List.filterMap_cons_none image]; rfl
    | some ki => rw [List.filterMap_cons_some image]; rfl

end Inputs

/-! ## Receiving -/

/-- An output as it is recorded: of a transaction in a block, and unspent. -/
structure IsNew (info : TransactionWalletInfo) (td : TransferDetails) : Prop where
  info : td.ptxWalletInfo = info
  unspent : td.flags.spent = false
  height : td.spentHeight = 0

/-- Some own outputs of a transaction were recorded. -/
structure Received (info : TransactionWalletInfo) (c d : ChainDerived) : Prop where
  blockchain : d.blockchain = c.blockchain
  payments : d.payments = c.payments
  history : d.history = c.history
  outputs : ∃ new, d.outputs = c.outputs ++ new ∧ ∀ td ∈ new, IsNew info td
  indexed : d.Indexed

theorem Received.refl {info : TransactionWalletInfo} {c : ChainDerived} (indexed : c.Indexed) :
    Received info c c :=
  ⟨rfl, rfl, rfl, ⟨[], (List.append_nil _).symm, fun _ member => by cases member⟩, indexed⟩

theorem Received.trans {info : TransactionWalletInfo} {c d e : ChainDerived}
    (first : Received info c d) (second : Received info d e) : Received info c e := by
  obtain ⟨new, outputs, fresh⟩ := first.outputs
  obtain ⟨more, outputsToo, freshToo⟩ := second.outputs
  refine ⟨second.blockchain.trans first.blockchain, second.payments.trans first.payments,
    second.history.trans first.history, ⟨new ++ more, ?_, ?_⟩, second.indexed⟩
  · rw [outputsToo, outputs, List.append_assoc]
  · intro td member
    rcases List.mem_append.mp member with early | late
    · exact fresh td early
    · exact freshToo td late

section Outputs

open Procedure

variable {W : WalletEnv} {w w' : Wallet} {info : TransactionWalletInfo} {oIndexes : List Nat}
  {mined : Bool} {o amount : Nat} {progress result : ReceiveProgress} {txPubKey : PublicKey}

/-- The multisig output of a transaction at a number. -/
def multisigIdAt (W : WalletEnv) (tx : Transaction) (o : Nat) : Option Hash :=
  match tx.vout[o]? with
  | some out =>
    match out.target with
    | .multisig _ => some (getMultisigOutId W.core tx.toTransactionPrefix o)
    | .toKey _ => none
  | none => none

theorem chainDerived_pushTransfer {td : TransferDetails} (image : td.keyImage ≠ nullKi) :
    (w.pushTransfer td).chainDerived =
      { w.chainDerived with
        outputs := w.chainDerived.outputs ++ [td.chainPart]
        keyImages := w.chainDerived.keyImages.set td.chainPart.keyImage
          ⟨w.chainDerived.outputs.length, some td.chainPart.ref⟩ } := by
  simp only [pushTransfer, addTransferToTransfersCache, chainDerived, if_neg image, indexed,
    List.map_append, List.map_cons, List.map_nil, List.length_map, List.getElem?_concat_length,
    Option.map_some]
  rfl

theorem receiveToKey_ok {ki : KeyImage} (image : ki ≠ nullKi) (indexed : w.chainDerived.Indexed)
    (ran : receiveToKey info oIndexes ki mined o amount progress w = .ok result w') :
    Received info w.chainDerived w'.chainDerived ∧ w'.multisigTransfers = w.multisigTransfers := by
  unfold receiveToKey at ran
  rw [get_bind, if_neg image] at ran
  cases found : w.keyImages.get ki with
  | some stored =>
    rw [found] at ran
    obtain ⟨_, _, first, ran⟩ := bind_ok.mp ran
    obtain ⟨_, rfl⟩ := throwIf_ok.mp first
    obtain ⟨_, _, second, ended⟩ := bind_ok.mp ran
    obtain ⟨_, rfl⟩ := throwIf_ok.mp second
    obtain ⟨_, rfl⟩ := pure_ok.mp ended
    exact ⟨.refl indexed, rfl⟩
  | none =>
    rw [found] at ran
    obtain ⟨_, middle, pushed, ended⟩ := bind_ok.mp ran
    obtain rfl := set_ok.mp pushed
    obtain ⟨_, rfl⟩ := pure_ok.mp ended
    refine ⟨?_, rfl⟩
    rw [chainDerived_pushTransfer image]
    refine ⟨rfl, rfl, rfl, ⟨_, rfl, fun td member => ?_⟩, indexed.push found⟩
    rw [List.mem_singleton.mp member]
    exact ⟨rfl, rfl, rfl⟩

theorem receiveOutput_ok (full : W.Full) (indexed : w.chainDerived.Indexed)
    (ran : receiveOutput W info txPubKey oIndexes mined o progress w = .ok result w') :
    Received info w.chainDerived w'.chainDerived ∧
      ∀ id, w'.lists id ↔ w.lists id ∨ multisigIdAt W info.tx o = some id := by
  unfold receiveOutput at ran
  obtain ⟨out, _, demanded, ran⟩ := bind_ok.mp ran
  obtain ⟨present, rfl⟩ := demandEx_ok.mp demanded
  cases target : out.target with
  | toKey otk =>
    rw [target] at ran
    obtain ⟨ki, middle, image, received⟩ := bind_ok.mp ran
    unfold ownKeyImage at image
    rw [if_neg (by rw [full.signs]; exact Bool.false_ne_true)] at image
    obtain ⟨_, _, matched, ended⟩ := bind_ok.mp image
    obtain ⟨_, rfl⟩ := throwIf_ok.mp matched
    obtain ⟨rfl, rfl⟩ := pure_ok.mp ended
    obtain ⟨records, kept⟩ := receiveToKey_ok (full.image_ne txPubKey o) indexed received
    refine ⟨records, fun id => ?_⟩
    have none : multisigIdAt W info.tx o = none := by
      rw [multisigIdAt, present]
      dsimp only
      rw [target]
    rw [lists, kept, none]
    simp only [reduceCtorEq, or_false, lists]
  | multisig keys =>
    rw [target] at ran
    obtain ⟨_, middle, stored, ended⟩ := bind_ok.mp ran
    obtain rfl := modify_ok.mp stored
    obtain ⟨_, rfl⟩ := pure_ok.mp ended
    refine ⟨.refl indexed, fun id => ?_⟩
    have own : multisigIdAt W info.tx o =
        some (getMultisigOutId W.core info.tx.toTransactionPrefix o) := by
      rw [multisigIdAt, present]
      dsimp only
      rw [target]
    rw [own, Option.some.injEq]
    simp only [lists, receiveMultisig, Container.modify, Container.has, Container.get_set]
    split
    · next same => simp only [same, Option.isSome_some, or_true]
    · next apart => simp only [apart, or_false]

theorem receiveOutputs_ok (full : W.Full) {coinBaseTx derived : Bool} {outs : List Nat}
    (indexed : w.chainDerived.Indexed)
    (ran : receiveOutputs W info txPubKey oIndexes coinBaseTx derived outs progress w =
      .ok result w') :
    Received info w.chainDerived w'.chainDerived ∧
      ∀ id, w'.lists id ↔ w.lists id ∨ id ∈ outs.filterMap (multisigIdAt W info.tx) := by
  induction outs generalizing w progress with
  | nil =>
    obtain ⟨_, rfl⟩ := pure_ok.mp ran
    exact ⟨.refl indexed, fun id => by simp only [List.filterMap_nil, List.not_mem_nil, or_false]⟩
  | cons o rest ih =>
    obtain ⟨middle, between, one, others⟩ := bind_ok.mp ran
    obtain ⟨records, listed⟩ := receiveOutput_ok full indexed one
    obtain ⟨recordsToo, listedToo⟩ := ih records.indexed others
    refine ⟨records.trans recordsToo, fun id => ?_⟩
    rw [listedToo id, listed id, or_assoc]
    simp only [List.mem_filterMap, List.mem_cons, exists_eq_or_imp]

end Outputs

end Virie.Wallet
