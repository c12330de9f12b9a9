import Virie.Wallet.Frames

/-! # Multisig outputs and contracts after a reorganisation

Detaching a chain cuts the transfers, the history and the payments of a wallet. It does not look
at the multisig outputs and the contracts: what the detached blocks left in these tables stays.
The tables follow the chain only if the detached blocks paid no multisig output to the account,
spent none that it holds, and brought no contract to a new state. -/

open Foundation Foundation.Procedure

namespace Virie.Wallet

/-- Blocks that extend the chain of a wallet from a height on. -/
def addBlocks (W : WalletEnv) : Nat → List BlockEntry → Procedure Wallet Unit
  | _, [] => pure ()
  | height, entry :: rest => do
    addBlock W entry height
    addBlocks W (height + 1) rest

/-- A multisig output that a block from a height on gave to the account, or spent. -/
def IsFrom (h : Nat) (td : TransferDetailsBase) : Prop :=
  h ≤ td.ptxWalletInfo.blockHeight ∨ td.flags.spent = true ∧ h ≤ td.spentHeight

/-- A wallet that holds a multisig output with a trace of blocks from a height on. -/
def FromAbove (h : Nat) (w : Wallet) : Prop :=
  ∃ id td, w.multisigTransfers.get id = some td ∧ IsFrom h td

/-- What is asked of a wallet whose chain was detached at a height, where `below` is the wallet
as the blocks below the height had left it. -/
structure MultisigFollows (h : Nat) (below w : Wallet) : Prop where
  received : ∀ id td, w.multisigTransfers.get id = some td → td.ptxWalletInfo.blockHeight < h
  unspent : ∀ id td, w.multisigTransfers.get id = some td → td.flags.spent = true →
    td.spentHeight < h
  contracts : ∀ id contract, w.contracts.get id = some contract → h ≤ contract.height →
    (below.contracts.get id).map EscrowContractDetails.state = some contract.state

/-- A transaction that pays no multisig output to the account and spends none of a table. -/
structure QuietTx (W : WalletEnv) (held : Container Hash TransferDetailsBase) (tx : Transaction) :
    Prop where
  pays : receivedIds W tx = []
  spends : ∀ id ∈ tx.multisigInputIds, held.get id = none

/-- A block whose transactions are quiet, where it is looked into. -/
def QuietBlock (W : WalletEnv) (held : Container Hash TransferDetailsBase) (height : Nat)
    (entry : BlockEntry) : Prop :=
  entry.isScanned W height = true → ∀ delivered ∈ entry.delivered, QuietTx W held delivered.tx

/-- The contracts with a state from a height on had this state before. -/
def ContractsStay (h : Nat) (below w : Wallet) : Prop :=
  ∀ id contract, w.contracts.get id = some contract → h ≤ contract.height →
    (below.contracts.get id).map EscrowContractDetails.state = some contract.state

section Traces

variable {W : WalletEnv} {h height : Nat} {w w' : Wallet} {result : Unit} {id : Hash}
  {td : TransferDetailsBase}

theorem fromAbove_ofEscrowPart : OfEscrowPart (FromAbove h) := by
  intro w w' above same
  have transfers : w'.multisigTransfers = w.multisigTransfers :=
    congrArg EscrowPart.multisigTransfers same
  obtain ⟨id, td, found, trace⟩ := above
  exact ⟨id, td, transfers ▸ found, trace⟩

theorem fromAbove_kept : EscrowKept W (FromAbove h) :=
  fromAbove_ofEscrowPart.kept fun _ _ above => above

/-- The table of multisig outputs is left alone by what does not concern multisig outputs. -/
theorem held_ofEscrowPart {held : Container Hash TransferDetailsBase} :
    OfEscrowPart (fun w => w.multisigTransfers = held) :=
  fun _ _ same part => (congrArg EscrowPart.multisigTransfers part).trans same

/-- An entry with a trace leaves a wallet with one. -/
theorem IsFrom.fromAbove (trace : IsFrom h td) :
    FromAbove h { w with multisigTransfers := w.multisigTransfers.set id td } :=
  ⟨id, td, Container.get_set_self _ _ _, trace⟩

theorem isFrom_spent (above : h ≤ height) (td : TransferDetailsBase) :
    IsFrom h { td with flags := td.flags.add TransferFlags.flagSpent, spentHeight := height } :=
  .inr ⟨by simp only [TransferFlags.add, TransferFlags.flagSpent, Bool.or_true], above⟩

theorem fromAbove_receiveMultisig {info : TransactionWalletInfo} (above : h ≤ info.blockHeight)
    (o : Nat) (w : Wallet) : FromAbove h (receiveMultisig W info o w) :=
  IsFrom.fromAbove (.inl above)

/-! ## Traces stay -/

theorem processInput_traces (above : h ≤ height) (coinBaseTx : Bool) (i : Nat)
    (progress : SpendProgress) (input : TxinMultisig) :
    Preserves (FromAbove h) (processInput coinBaseTx height i progress (.multisig input)) := by
  refine preserves_get_bind fun w traced => ?_
  split
  · exact preserves_pure progress
  · next td found =>
    exact preserves_bind (preserves_set (isFrom_spent above td).fromAbove) fun _ =>
      preserves_pure _

theorem processNewTransaction_traces (above : h ≤ height) (delivered : DeliveredTx) (b : Block) :
    Preserves (FromAbove h) (processNewTransaction W delivered height b) :=
  fromAbove_kept.processNewTransaction
    (fun coinBaseTx i progress input _ => processInput_traces above coinBaseTx i progress input)
    fun o _ w _ _ _ => fromAbove_receiveMultisig above o w

theorem addBlock_traces (above : h ≤ height) (entry : BlockEntry) :
    Preserves (FromAbove h) (addBlock W entry height) :=
  fromAbove_kept.addBlock
    (fun _ coinBaseTx i progress input _ _ _ =>
      processInput_traces above coinBaseTx i progress input)
    fun _ o _ w _ _ _ _ _ => fromAbove_receiveMultisig above o w

/-! ## Quiet transactions leave none -/

theorem processInput_quiet {held : Container Hash TransferDetailsBase} {input : TxinMultisig}
    (absent : held.get input.multisigOutId = none) (coinBaseTx : Bool) (i : Nat)
    (progress : SpendProgress) :
    Preserves (fun w => w.multisigTransfers = held)
      (processInput coinBaseTx height i progress (.multisig input)) := by
  refine preserves_get_bind fun w same => ?_
  rw [same, absent]
  exact preserves_pure progress

theorem QuietTx.keeps {held : Container Hash TransferDetailsBase} {delivered : DeliveredTx}
    (quiet : QuietTx W held delivered.tx) (b : Block) :
    Preserves (fun w => w.multisigTransfers = held)
      (processNewTransaction W delivered height b) := by
  refine (held_ofEscrowPart.kept fun _ _ same => same).processNewTransaction ?_ ?_
  · intro coinBaseTx i progress input member
    exact processInput_quiet (quiet.spends _ (mem_multisigInputIds member)) coinBaseTx i progress
  · intro o id w received
    rw [quiet.pays] at received
    cases received

/-! ## Other transactions leave one -/

/-- An input that spends a multisig output of the wallet is recorded with the height. -/
theorem processInputs_leaves (above : h ≤ height) {coinBaseTx : Bool} {i : Nat}
    {inputs : List Txin} {progress after : SpendProgress}
    (ran : processInputs coinBaseTx height i inputs progress w = .ok after w')
    {input : TxinMultisig} (member : Txin.multisig input ∈ inputs)
    (listed : w.multisigTransfers.get input.multisigOutId = some td) : FromAbove h w' := by
  induction inputs generalizing i progress w td with
  | nil => cases member
  | cons first rest ih =>
    obtain ⟨next, middle, here, later⟩ := bind_ok.mp ran
    have stays : FromAbove h middle → FromAbove h w' :=
      (fromAbove_ofEscrowPart.processInputs (fun coinBaseTx i progress input _ =>
        processInput_traces above coinBaseTx i progress input) coinBaseTx
        (List.Subset.refl rest) _ _).of_ok later
    cases first with
    | gen number =>
      obtain ⟨rfl, rfl⟩ := pure_ok.mp here
      exact ih later ((List.mem_cons.mp member).resolve_left fun same => by cases same) listed
    | toKey other =>
      have same : middle.multisigTransfers = w.multisigTransfers :=
        (held_ofEscrowPart.processToKey coinBaseTx height i progress other).of_ok here rfl
      exact ih later ((List.mem_cons.mp member).resolve_left fun same => by cases same)
        (same ▸ listed)
    | multisig other =>
      have here := (get_bind _ _).symm.trans here
      cases found : w.multisigTransfers.get other.multisigOutId with
      | none =>
        rw [found] at here
        obtain ⟨rfl, rfl⟩ := pure_ok.mp here
        refine ih later ((List.mem_cons.mp member).resolve_left fun same => ?_) listed
        cases same
        rw [found] at listed
        cases listed
      | some spent =>
        rw [found] at here
        obtain ⟨_, marked, setting, here⟩ := bind_ok.mp here
        obtain rfl := set_ok.mp setting
        obtain ⟨_, rfl⟩ := pure_ok.mp here
        exact stays (isFrom_spent above spent).fromAbove

/-- A multisig output of the account is recorded with the height. -/
theorem receiveOutputs_leaves {info : TransactionWalletInfo} (above : h ≤ info.blockHeight)
    {txPubKey : PublicKey} {oIndexes : List Nat} {coinBaseTx derived : Bool} {outs : List Nat}
    {progress after : ReceiveProgress}
    (ran : receiveOutputs W info txPubKey oIndexes coinBaseTx derived outs progress w =
      .ok after w')
    (pays : outs.filterMap (multisigIdAt W info.tx) ≠ []) : FromAbove h w' := by
  induction outs generalizing progress w with
  | nil => exact absurd rfl pays
  | cons o rest ih =>
    obtain ⟨next, middle, here, later⟩ := bind_ok.mp ran
    have stays : FromAbove h middle → FromAbove h w' :=
      (fromAbove_kept.receiveOutputs (fun o _ w _ _ _ => fromAbove_receiveMultisig above o w) _ _
        _ _ (List.Subset.refl rest) _).of_ok later
    obtain ⟨out, _, demanded, here⟩ := bind_ok.mp here
    obtain ⟨present, rfl⟩ := demandEx_ok.mp demanded
    cases target : out.target with
    | toKey otk =>
      have none : multisigIdAt W info.tx o = none := by
        rw [multisigIdAt, present]
        simp only [target]
      rw [List.filterMap_cons_none none] at pays
      exact ih later pays
    | multisig out =>
      rw [target] at here
      obtain ⟨_, received, modified, here⟩ := bind_ok.mp here
      obtain rfl := modify_ok.mp modified
      obtain ⟨_, rfl⟩ := pure_ok.mp here
      exact stays (fromAbove_receiveMultisig above o _)

/-- A transaction is quiet and leaves the table alone, or it leaves a trace. -/
theorem processNewTransaction_cases (above : h ≤ height) {delivered : DeliveredTx} {b : Block}
    (ran : processNewTransaction W delivered height b w = .ok result w') :
    QuietTx W w.multisigTransfers delivered.tx ∧ w'.multisigTransfers = w.multisigTransfers ∨
      ¬ QuietTx W w.multisigTransfers delivered.tx ∧ FromAbove h w' := by
  by_cases quiet : QuietTx W w.multisigTransfers delivered.tx
  · exact .inl ⟨quiet, (quiet.keeps b).of_ok ran rfl⟩
  refine .inr ⟨quiet, ?_⟩
  obtain ⟨recipients, first, unconfirmed, ran⟩ := bind_ok.mp ran
  have same : first.multisigTransfers = w.multisigTransfers :=
    (held_ofEscrowPart.processUnconfirmed _).of_ok unconfirmed rfl
  obtain ⟨extra, _, demanded, ran⟩ := bind_ok.mp ran
  obtain ⟨parsed, rfl⟩ := demandEx_ok.mp demanded
  obtain ⟨spends, second, spending, ran⟩ := bind_ok.mp ran
  obtain ⟨own, _, demanded, ran⟩ := bind_ok.mp ran
  obtain ⟨looked, rfl⟩ := demandEx_ok.mp demanded
  obtain ⟨received, third, receiving, ran⟩ := bind_ok.mp ran
  have ends : FromAbove h third → FromAbove h w' := by
    refine (preserves_bind (preserves_modify ?_) fun _ => ?_).of_ok ran
    · exact fromAbove_ofEscrowPart.receivePayment _ _ _ _
    · exact fromAbove_kept.recordTransfer b _ _ _ _ _ _
  have receives : Preserves (FromAbove h) (receiveAll W delivered height b.timestamp
      extra.txPubKey own spends.isDerivedFromCoinbase) := by
    refine preserves_ite (fun _ => preserves_pure _) fun _ => ?_
    refine preserves_bind (fromAbove_ofEscrowPart.globalOutputIndexes _ _) fun oIndexes => ?_
    exact fromAbove_kept.receiveOutputs (fun o _ w _ _ _ => fromAbove_receiveMultisig above o w) _
      _ _ _ (List.Subset.refl _) _
  by_cases unlisted : ∀ id ∈ delivered.tx.multisigInputIds, w.multisigTransfers.get id = none
  · have pays : own.outs.filterMap (multisigIdAt W delivered.tx) ≠ [] := by
      rw [← receivedIds_eq parsed looked]
      exact fun none => quiet ⟨none, unlisted⟩
    have some : own.outs.isEmpty = false := by
      cases outs : own.outs with
      | nil => exact absurd (by rw [outs]; rfl) pays
      | cons o rest => rfl
    simp only [receiveAll, some, Bool.false_eq_true, ↓reduceIte] at receiving
    obtain ⟨oIndexes, asked, _, receiving⟩ := bind_ok.mp receiving
    exact ends (receiveOutputs_leaves above receiving pays)
  · obtain ⟨id, member, listed⟩ : ∃ id ∈ delivered.tx.multisigInputIds,
        w.multisigTransfers.get id ≠ none := by
      simpa only [not_forall, exists_prop] using unlisted
    obtain ⟨input, inside, named⟩ := List.mem_filterMap.mp member
    cases input with
    | gen number => cases named
    | toKey other => cases named
    | multisig input =>
      obtain rfl := Option.some.inj named
      obtain ⟨td, found⟩ := Option.ne_none_iff_exists'.mp listed
      rw [← same] at found
      exact ends (receives.of_ok receiving (processInputs_leaves above spending inside found))

/-! ## Blocks -/

theorem processTransactions_cases (above : h ≤ height) {b : Block} {items : List DeliveredTx}
    (ran : Procedure.forEach (fun delivered => processNewTransaction W delivered height b) items w =
      .ok result w') :
    (∀ delivered ∈ items, QuietTx W w.multisigTransfers delivered.tx) ∧
        w'.multisigTransfers = w.multisigTransfers ∨
      (¬ ∀ delivered ∈ items, QuietTx W w.multisigTransfers delivered.tx) ∧ FromAbove h w' := by
  induction items generalizing w with
  | nil =>
    obtain ⟨_, rfl⟩ := pure_ok.mp ran
    refine .inl ⟨fun _ member => ?_, rfl⟩
    cases member
  | cons item rest ih =>
    obtain ⟨_, middle, here, later⟩ := bind_ok.mp ran
    rcases processNewTransaction_cases above here with ⟨quiet, same⟩ | ⟨loud, leaves⟩
    · rcases ih later with ⟨quietRest, sameToo⟩ | ⟨loud, leaves⟩
      · refine .inl ⟨fun delivered member => ?_, sameToo.trans same⟩
        rcases List.mem_cons.mp member with rfl | member
        · exact quiet
        · exact same ▸ quietRest delivered member
      · refine .inr ⟨fun all => loud fun delivered member => ?_, leaves⟩
        rw [same]
        exact all delivered (.tail _ member)
    · refine .inr ⟨fun all => loud (all item (.head _)), ?_⟩
      exact (preserves_forEach fun delivered _ =>
        processNewTransaction_traces above delivered b).of_ok later leaves

theorem addBlock_cases (above : h ≤ height) {entry : BlockEntry}
    (ran : addBlock W entry height w = .ok result w') :
    QuietBlock W w.multisigTransfers height entry ∧ w'.multisigTransfers = w.multisigTransfers ∨
      ¬ QuietBlock W w.multisigTransfers height entry ∧ FromAbove h w' := by
  obtain ⟨_, processed, processing, counting⟩ := bind_ok.mp ran
  obtain rfl := modify_ok.mp counting
  obtain ⟨_, _, passed, processing⟩ := bind_ok.mp ((get_bind _ _).symm.trans processing)
  obtain ⟨_, rfl⟩ := throwIf_ok.mp passed
  obtain ⟨_, middle, scanned, pushing⟩ := bind_ok.mp processing
  obtain rfl := modify_ok.mp pushing
  cases scans : entry.isScanned W height with
  | false =>
    rw [scans] at scanned
    obtain ⟨_, rfl⟩ := pure_ok.mp scanned
    refine .inl ⟨fun looked => ?_, rfl⟩
    rw [scans] at looked
    cases looked
  | true =>
    rw [scans] at scanned
    rcases processTransactions_cases above scanned with ⟨quiet, same⟩ | ⟨loud, leaves⟩
    · exact .inl ⟨fun _ => quiet, same⟩
    · exact .inr ⟨fun quiet => loud (quiet scans), fromAbove_ofEscrowPart leaves rfl⟩

/-- The blocks from a height on are quiet and leave the table alone, or they leave a trace. -/
theorem addBlocks_cases (above : h ≤ height) {added : List BlockEntry}
    (ran : addBlocks W height added w = .ok result w') :
    (∀ i entry, added[i]? = some entry → QuietBlock W w.multisigTransfers (height + i) entry) ∧
        w'.multisigTransfers = w.multisigTransfers ∨
      (¬ ∀ i entry, added[i]? = some entry →
        QuietBlock W w.multisigTransfers (height + i) entry) ∧ FromAbove h w' := by
  induction added generalizing height w with
  | nil =>
    obtain ⟨_, rfl⟩ := pure_ok.mp ran
    refine .inl ⟨fun i entry present => ?_, rfl⟩
    cases present
  | cons first rest ih =>
    obtain ⟨_, middle, here, later⟩ := bind_ok.mp ran
    rcases addBlock_cases above here with ⟨quiet, same⟩ | ⟨loud, leaves⟩
    · rcases ih (Nat.le_succ_of_le above) later with ⟨quietRest, sameToo⟩ | ⟨loud, leaves⟩
      · refine .inl ⟨fun i entry present => ?_, sameToo.trans same⟩
        cases i with
        | zero =>
          obtain rfl := Option.some.inj present
          exact quiet
        | succ i =>
          have shift : height + 1 + i = height + (i + 1) := by omega
          rw [← shift, ← same]
          exact quietRest i entry present
      · refine .inr ⟨fun all => loud fun i entry present => ?_, leaves⟩
        have shift : height + 1 + i = height + (i + 1) := by omega
        rw [same, shift]
        exact all (i + 1) entry present
    · refine .inr ⟨fun all => loud (all 0 first rfl), ?_⟩
      have stays : ∀ {height : Nat} {rest : List BlockEntry}, h ≤ height →
          Preserves (FromAbove h) (addBlocks W height rest) := by
        intro height rest
        induction rest generalizing height with
        | nil => exact fun _ => preserves_pure ()
        | cons entry rest ih =>
          exact fun above => preserves_bind (addBlock_traces above entry) fun _ =>
            ih (Nat.le_succ_of_le above)
      exact (stays (Nat.le_succ_of_le above)).of_ok later leaves

/-- A block below a height leaves no trace from it on. -/
theorem addBlock_settled (below : height < h) (entry : BlockEntry) :
    Preserves (fun w => ¬ FromAbove h w) (addBlock W entry height) := by
  have only : OfEscrowPart (fun w => ¬ FromAbove h w) := by
    intro w w' settled same above
    exact settled (fromAbove_ofEscrowPart above same.symm)
  have set : ∀ {w : Wallet} {id : Hash} {td : TransferDetailsBase}, ¬ FromAbove h w →
      ¬ IsFrom h td →
      ¬ FromAbove h { w with multisigTransfers := w.multisigTransfers.set id td } := by
    rintro w id td settled apart ⟨other, found, present, trace⟩
    by_cases same : id = other
    · subst same
      rw [Container.get_set_self] at present
      exact apart (Option.some.inj present ▸ trace)
    · rw [Container.get_set_of_ne _ _ same] at present
      exact settled ⟨other, found, present, trace⟩
  refine (only.kept fun _ _ settled => settled).addBlock ?_ ?_
  · intro delivered coinBaseTx i progress input _ _ _
    refine preserves_get_bind fun w settled => ?_
    split
    · exact preserves_pure progress
    · next td found =>
      refine preserves_bind (preserves_set (set settled ?_)) fun _ => preserves_pure _
      rintro (received | ⟨_, spentAt⟩)
      · exact settled ⟨_, td, found, .inl received⟩
      · exact absurd below (Nat.not_lt.mpr spentAt)
  · intro delivered o id w _ _ _ _ settled
    refine set settled ?_
    rintro (received | ⟨spent, spentAt⟩)
    · exact absurd below (Nat.not_lt.mpr received)
    · dsimp only at spent spentAt
      cases found : w.multisigTransfers.get (getMultisigOutId W.core
          delivered.tx.toTransactionPrefix o) with
      | none =>
        rw [found] at spent
        cases spent
      | some td =>
        rw [found] at spent spentAt
        exact settled ⟨_, td, found, .inr ⟨spent, spentAt⟩⟩

/-- A wallet that was fed with the blocks below a height holds nothing from it on. -/
theorem not_fromAbove_of_processed {chain : List BlockEntry} (short : chain.length ≤ h)
    (processed : addBlocks W 0 chain Wallet.new = .ok result w) : ¬ FromAbove h w := by
  have all : ∀ {rest : List BlockEntry} {height : Nat}, height + rest.length ≤ h →
      Preserves (fun w => ¬ FromAbove h w) (addBlocks W height rest) := by
    intro rest
    induction rest with
    | nil => exact fun _ => preserves_pure ()
    | cons entry rest ih =>
      intro height fits
      rw [List.length_cons] at fits
      exact preserves_bind (addBlock_settled (by omega) entry) fun _ => ih (by omega)
  refine (all (by omega)).of_ok processed ?_
  rintro ⟨id, td, found, _⟩
  rw [show Wallet.new.multisigTransfers = ∅ from rfl, Container.get_empty] at found
  cases found

/-! ## Detaching -/

theorem detachBlockchain_escrowPart (h : Nat) (ran : detachBlockchain h w = .ok result w') :
    w'.escrowPart = w.escrowPart := by
  obtain ⟨_, middle, forgotten, cut⟩ := bind_ok.mp ((get_bind _ _).symm.trans ran)
  obtain rfl := modify_ok.mp cut
  have kept : OfEscrowPart (fun other => other.escrowPart = w.escrowPart) :=
    fun _ _ same part => part.trans same
  have forgets : Preserves (fun other => other.escrowPart = w.escrowPart)
      (Procedure.forEach forgetKeyImage (w.transfers.dropWhile (TransferDetails.isBelow h))) := by
    refine preserves_forEach fun td _ => preserves_get_bind fun other same => ?_
    exact preserves_bind (kept.throwIf _) fun _ => preserves_set same
  have same : middle.escrowPart = w.escrowPart := forgets.of_ok forgotten rfl
  exact same

end Traces

/-! ## A deposit that is detached -/

namespace Deposits

/-- A block at a height whose coinbase has some outputs. -/
def blockAt (height : Nat) (vout : List TxOut) : BlockEntry where
  bl :=
    { Block.plain height height 0 nullHash [] with
      minerTx :=
        { version := height
          vin := [.gen height]
          vout
          extra := [.publicKey ⟨3⟩]
          signatures := []
          attachment := [] } }
  minerReply := .ok (vout.map fun _ => 0)
  txs := []

/-- A multisig output of the account. -/
def depositOut : TxOut := ⟨5, .multisig ⟨2, [⟨3⟩, ⟨4⟩]⟩⟩

def below : Wallet := final (addBlocks .plain 0 [blockAt 0 []] Wallet.new)

theorem below_processed : addBlocks .plain 0 [blockAt 0 []] Wallet.new = .ok () below := by
  obtain ⟨_, processed⟩ := ok_of_succeeds (addBlocks .plain 0 [blockAt 0 []] Wallet.new)
    (by decide +kernel)
  exact processed

end Deposits

open Deposits

end Virie.Wallet
