import Virie.Foundation.Runs
import Virie.Wallet.PoolScan

/-! # The states of an escrow contract

A contract goes from its proposal to its acceptance, perhaps to a request to cancel it, and to a
release. Proposals, acceptances and releases write the state without a look at the one that is
there, so that an attachment that is sent again brings a contract back. Only requests to cancel
and expirations look at the state first. -/

open Foundation Foundation.Procedure

namespace Virie.Wallet

/-- How far a contract has got. -/
def ContractState.stage : ContractState → Nat
  | .none => 0
  | .proposalSent => 1
  | .contractAccepted => 2
  | .contractCancelProposalSent => 3
  | .contractReleasedNormal => 4
  | .contractReleasedBurned => 4
  | .contractReleasedCancelled => 4

/-- The state of a contract; the wallet may not know it. -/
def contractState (wallet : Wallet) (id : Hash) : ContractState :=
  ((wallet.contracts.get id).map EscrowContractDetails.state).getD .none

/-! ## What an attachment writes -/

section Attachments

variable (W : WalletEnv)

/-- The contract of a valid proposal. -/
def proposed (wti : WalletTransferInfo) (sa : TxServiceAttachment) : Option Hash :=
  if sa.instruction = bcEscrowServiceInstructionProposal then
    (W.unpackProposal sa.body).bind fun prop =>
      (W.validateEscrowProposal wti.isIncome wti.tx prop).map fun valid => valid.2.1
  else none

/-- The contract of a valid acceptance. -/
def accepted (wti : WalletTransferInfo) (decryptedAttach : List PayloadItem)
    (sa : TxServiceAttachment) : Option Hash :=
  if sa.instruction = bcEscrowServiceInstructionPrivateDetails then
    (W.loadPrivateDetails sa.body).bind fun cntr =>
      (W.validateEscrowContract wti.tx cntr (cntr.aAddr == W.publicAddress) decryptedAttach).map
        Prod.fst
  else none

/-- The contract that a release instruction names, and the state it asks for. -/
def releaseOf (wti : WalletTransferInfo) (sa : TxServiceAttachment) :
    Option (Hash × ContractState) :=
  (releasedState sa.instruction).bind fun newState =>
    let msId := (wti.tx.multisigInputIds.head?).getD nullHash
    if msId = nullHash then none else some (msId, newState)

/-- The wallet after an escrow attachment; one with an unreadable body is passed over. -/
def afterAttachment (decryptedAttach : List PayloadItem) (sa : TxServiceAttachment)
    (wti : WalletTransferInfo) (w : Wallet) : Wallet :=
  ((handleServiceAttachment W decryptedAttach sa wti).map fun handle => final (handle w)).getD w

end Attachments

/-- One contract has a new state, the other ones have the old one. -/
def Writes (id : Hash) (newState : ContractState) (w w' : Wallet) : Prop :=
  ∀ other, contractState w' other = if id = other then newState else contractState w other

section Handlers

variable {W : WalletEnv} {w w' : Wallet} {wti : WalletTransferInfo} {att : List PayloadItem}
  {sa : TxServiceAttachment} {handle : Procedure Wallet WalletTransferInfo} {id : Hash}
  {newState : ContractState} {instruction : String}

theorem writes_set {contract : EscrowContractDetails}
    (contracts : w'.contracts = w.contracts.set id contract) (state : contract.state = newState) :
    Writes id newState w w' := by
  intro other
  unfold contractState
  rw [contracts, Container.get_set]
  by_cases same : id = other
  · rw [if_pos same, if_pos same, Option.map_some, Option.getD_some, state]
  · rw [if_neg same, if_neg same]

/-- The contracts are as given. -/
theorem ofEscrowPart_contracts (c : Container Hash EscrowContractDetails) :
    OfEscrowPart fun w => w.contracts = c :=
  fun _ _ holds same => (congrArg EscrowPart.contracts same).trans holds

theorem contracts_final {α : Type} {body : Procedure Wallet α}
    (keeps : ∀ c, Preserves (fun w => w.contracts = c) body) (w : Wallet) :
    (final (body w)).contracts = w.contracts :=
  keeps w.contracts w rfl

theorem handleProposal_writes {prop : ProposalBody} {items : List PayloadItem}
    {cpd : ContractPrivateDetails}
    (valid : W.validateEscrowProposal wti.isIncome wti.tx prop = some (items, id, cpd)) :
    Writes id .proposalSent w (final (handleProposal W wti prop w)) := by
  unfold handleProposal
  rw [valid]
  dsimp only
  rw [get_bind, set_bind]
  refine writes_set (contracts_final (fun c => ?_) _) rfl
  refine preserves_ite (fun _ => preserves_pure _) fun _ => ?_
  refine preserves_bind ((ofEscrowPart_contracts c).demandEx _) fun own => ?_
  refine preserves_bind ((ofEscrowPart_contracts c).addTransfersToExpirationList _ _ _ _) ?_
  exact fun _ => preserves_pure _

theorem handleProposal_refused {prop : ProposalBody}
    (refused : W.validateEscrowProposal wti.isIncome wti.tx prop = none) :
    final (handleProposal W wti prop w) = w := by
  unfold handleProposal
  rw [refused]
  rfl

theorem handleContract_writes {cntr : ContractPrivateDetails} {rel : EscrowReleaseTemplatesBody}
    (valid : W.validateEscrowContract wti.tx cntr (cntr.aAddr == W.publicAddress) att =
      some (id, rel)) :
    Writes id .contractAccepted w (final (handleContract W wti cntr att w)) := by
  unfold handleContract
  dsimp only
  rw [valid]
  dsimp only
  rw [get_bind, set_bind]
  exact writes_set rfl rfl

theorem handleContract_refused {cntr : ContractPrivateDetails}
    (refused : W.validateEscrowContract wti.tx cntr (cntr.aAddr == W.publicAddress) att = none) :
    final (handleContract W wti cntr att w) = w := by
  unfold handleContract
  dsimp only
  rw [refused]
  rfl

theorem releaseOf_none_of_state (other : releasedState sa.instruction = none) :
    releaseOf wti sa = none := by
  rw [releaseOf, other, Option.bind_none]

theorem releasedState_stage (released : releasedState instruction = some newState) :
    newState.stage = 4 := by
  unfold releasedState at released
  split at released
  · obtain rfl := Option.some.inj released
    rfl
  · split at released
    · obtain rfl := Option.some.inj released
      rfl
    · split at released
      · obtain rfl := Option.some.inj released
        rfl
      · cases released

theorem releaseOf_stage (release : releaseOf wti sa = some (id, newState)) :
    newState.stage = 4 := by
  obtain ⟨state, released, named⟩ := Option.bind_eq_some_iff.mp release
  dsimp only at named
  split at named
  · cases named
  · obtain ⟨_, rfl⟩ := Prod.mk.inj (Option.some.inj named)
    exact releasedState_stage released

/-- What an escrow attachment does to the states: nothing, or it writes the state of one contract.
Only a request to cancel has looked at the state that is there. -/
inductive Effect (W : WalletEnv) (wti : WalletTransferInfo) (att : List PayloadItem)
    (sa : TxServiceAttachment) (w w' : Wallet) : Prop
  | nothing (states : ∀ id, contractState w' id = contractState w id)
      (noProposal : proposed W wti sa = none) (noAcceptance : accepted W wti att sa = none)
      (noRelease : ∀ id newState, releaseOf wti sa = some (id, newState) →
        w.contracts.get id = none)
  | proposal (id : Hash) (isProposal : proposed W wti sa = some id)
      (noAcceptance : accepted W wti att sa = none) (noRelease : releaseOf wti sa = none)
      (writes : Writes id .proposalSent w w')
  | acceptance (id : Hash) (noProposal : proposed W wti sa = none)
      (isAcceptance : accepted W wti att sa = some id) (noRelease : releaseOf wti sa = none)
      (writes : Writes id .contractAccepted w w')
  | release (id : Hash) (newState : ContractState) (noProposal : proposed W wti sa = none)
      (noAcceptance : accepted W wti att sa = none)
      (isRelease : releaseOf wti sa = some (id, newState)) (known : (w.contracts.get id).isSome)
      (writes : Writes id newState w w')
  | cancellation (id : Hash) (noProposal : proposed W wti sa = none)
      (noAcceptance : accepted W wti att sa = none) (noRelease : releaseOf wti sa = none)
      (earlier : contractState w id = .contractAccepted ∨
        contractState w id = .contractCancelProposalSent)
      (writes : Writes id .contractCancelProposalSent w w')

theorem handleReleaseContract_effect (noProposal : proposed W wti sa = none)
    (noAcceptance : accepted W wti att sa = none) :
    Effect W wti att sa w (final (handleReleaseContract wti sa.instruction w)) := by
  have unfolded : releaseOf wti sa = (releasedState sa.instruction).bind fun newState =>
    if (wti.tx.multisigInputIds.head?).getD nullHash = nullHash then none
    else some ((wti.tx.multisigInputIds.head?).getD nullHash, newState) := rfl
  unfold handleReleaseContract
  rw [get_bind]
  dsimp only
  by_cases null : (wti.tx.multisigInputIds.head?).getD nullHash = nullHash
  · rw [if_pos null]
    refine .nothing (fun _ => rfl) noProposal noAcceptance fun id newState release => ?_
    rw [unfolded] at release
    obtain ⟨_, _, named⟩ := Option.bind_eq_some_iff.mp release
    rw [if_pos null] at named
    cases named
  · rw [if_neg null]
    have names {id : Hash} {newState : ContractState}
        (release : releaseOf wti sa = some (id, newState)) :
        releasedState sa.instruction = some newState ∧
          (wti.tx.multisigInputIds.head?).getD nullHash = id := by
      rw [unfolded] at release
      obtain ⟨state, released, named⟩ := Option.bind_eq_some_iff.mp release
      rw [if_neg null] at named
      obtain ⟨rfl, rfl⟩ := Prod.mk.inj (Option.some.inj named)
      exact ⟨released, rfl⟩
    cases found : w.contracts.get ((wti.tx.multisigInputIds.head?).getD nullHash) with
    | none =>
      refine .nothing (fun _ => rfl) noProposal noAcceptance fun id newState release => ?_
      rw [← (names release).2, found]
    | some contract =>
      cases released : releasedState sa.instruction with
      | none =>
        refine .nothing (fun _ => rfl) noProposal noAcceptance fun id newState release => ?_
        have isSome := (names release).1
        rw [released] at isSome
        cases isSome
      | some newState =>
        refine .release _ newState noProposal noAcceptance ?_ (Option.isSome_of_eq_some found) ?_
        · rw [unfolded, released, Option.bind_some, if_neg null]
        · dsimp only
          rw [set_bind]
          exact writes_set rfl rfl

theorem cancelProposed_state {before after : EscrowContractDetails}
    {ectb : EscrowCancelTemplatesBody} (valid : cancelProposed before ectb wti = some after) :
    (before.state = .contractAccepted ∨ before.state = .contractCancelProposalSent) ∧
      after.state = .contractCancelProposalSent := by
  unfold cancelProposed at valid
  dsimp only at valid
  split at valid
  · next isAccepted =>
    obtain rfl := Option.some.inj valid
    exact ⟨.inl isAccepted, rfl⟩
  · next isSent =>
    obtain rfl := Option.some.inj valid
    exact ⟨.inr isSent, isSent⟩
  · cases valid

theorem handleCancelProposal_effect {ectb : EscrowCancelTemplatesBody}
    (noProposal : proposed W wti sa = none) (noAcceptance : accepted W wti att sa = none)
    (noRelease : releaseOf wti sa = none) :
    Effect W wti att sa w (final (handleCancelProposal W wti ectb att w)) := by
  have still : Effect W wti att sa w w :=
    .nothing (fun _ => rfl) noProposal noAcceptance fun _ _ release => by
      rw [noRelease] at release
      cases release
  unfold handleCancelProposal
  rw [get_bind]
  cases vin : ectb.txCancelTemplate.vin with
  | nil => exact still
  | cons first rest =>
    cases first with
    | gen height => exact still
    | toKey input => exact still
    | multisig input =>
      dsimp only
      generalize updated : Option.bind (w.contracts.get input.multisigOutId) _ = result
      cases result with
      | none => exact still
      | some contract =>
        dsimp only
        rw [set_bind]
        obtain ⟨before, found, valid⟩ := Option.bind_eq_some_iff.mp updated
        have state : contractState w input.multisigOutId = before.state := by
          rw [contractState, found, Option.map_some, Option.getD_some]
        split at valid
        · obtain ⟨earlier, sent⟩ := cancelProposed_state valid
          rw [← state] at earlier
          exact .cancellation _ noProposal noAcceptance noRelease earlier (writes_set rfl sent)
        · cases valid

/-- What an escrow attachment does. -/
theorem afterAttachment_effect : Effect W wti att sa w (afterAttachment W att sa wti w) := by
  have nothing (noProposal : proposed W wti sa = none) (noAcceptance : accepted W wti att sa = none)
      (noRelease : releaseOf wti sa = none) : Effect W wti att sa w w :=
    .nothing (fun _ => rfl) noProposal noAcceptance fun _ _ release => by
      rw [noRelease] at release
      cases release
  unfold afterAttachment handleServiceAttachment
  by_cases isProposal : sa.instruction = bcEscrowServiceInstructionProposal
  · rw [if_pos isProposal]
    have noAcceptance : accepted W wti att sa = none := by
      rw [accepted, isProposal, if_neg (by decide)]
    have noRelease : releaseOf wti sa = none := by
      refine releaseOf_none_of_state ?_
      rw [isProposal]
      rfl
    have unfolded : proposed W wti sa = (W.unpackProposal sa.body).bind fun prop =>
        (W.validateEscrowProposal wti.isIncome wti.tx prop).map fun valid => valid.2.1 :=
      if_pos isProposal
    cases unpacked : W.unpackProposal sa.body with
    | none => exact nothing (by rw [unfolded, unpacked, Option.bind_none]) noAcceptance noRelease
    | some prop =>
      rw [unpacked, Option.bind_some] at unfolded
      change Effect W wti att sa w (final (handleProposal W wti prop w))
      cases valid : W.validateEscrowProposal wti.isIncome wti.tx prop with
      | none =>
        rw [handleProposal_refused valid]
        exact nothing (by rw [unfolded, valid, Option.map_none]) noAcceptance noRelease
      | some validated =>
        obtain ⟨items, id, cpd⟩ := validated
        refine .proposal id ?_ noAcceptance noRelease (handleProposal_writes valid)
        rw [unfolded, valid, Option.map_some]
  · rw [if_neg isProposal]
    have noProposal : proposed W wti sa = none := if_neg isProposal
    by_cases isAcceptance : sa.instruction = bcEscrowServiceInstructionPrivateDetails
    · rw [if_pos isAcceptance]
      have noRelease : releaseOf wti sa = none := by
        refine releaseOf_none_of_state ?_
        rw [isAcceptance]
        rfl
      have unfolded : accepted W wti att sa = (W.loadPrivateDetails sa.body).bind fun cntr =>
          (W.validateEscrowContract wti.tx cntr (cntr.aAddr == W.publicAddress) att).map
            Prod.fst := if_pos isAcceptance
      cases loaded : W.loadPrivateDetails sa.body with
      | none => exact nothing noProposal (by rw [unfolded, loaded, Option.bind_none]) noRelease
      | some cntr =>
        rw [loaded, Option.bind_some] at unfolded
        change Effect W wti att sa w (final (handleContract W wti cntr att w))
        cases valid : W.validateEscrowContract wti.tx cntr (cntr.aAddr == W.publicAddress) att with
        | none =>
          rw [handleContract_refused valid]
          exact nothing noProposal (by rw [unfolded, valid, Option.map_none]) noRelease
        | some validated =>
          obtain ⟨id, rel⟩ := validated
          refine .acceptance id noProposal ?_ noRelease (handleContract_writes valid)
          rw [unfolded, valid, Option.map_some]
    · rw [if_neg isAcceptance]
      have noAcceptance : accepted W wti att sa = none := if_neg isAcceptance
      by_cases isRelease : (releasedState sa.instruction).isSome = true
      · rw [if_pos isRelease]
        exact handleReleaseContract_effect noProposal noAcceptance
      · rw [if_neg isRelease]
        have noRelease : releaseOf wti sa = none :=
          releaseOf_none_of_state (Option.not_isSome_iff_eq_none.mp isRelease)
        by_cases isCancel : sa.instruction = bcEscrowServiceInstructionCancelProposal
        · rw [if_pos isCancel]
          cases W.unpackCancelTemplates sa.body with
          | none => exact nothing noProposal noAcceptance noRelease
          | some cpb => exact handleCancelProposal_effect noProposal noAcceptance noRelease
        · rw [if_neg isCancel]
          exact nothing noProposal noAcceptance noRelease

end Handlers

/-! ## Runs -/

namespace Escrows

/-- A wallet, and the states that the first release a block brought has given to contracts. -/
structure State where
  wallet : Wallet
  released : Container Hash ContractState

/-- An escrow attachment is handled, contracts expire, or anything else about the wallet changes.
Entries of the pool have height zero. -/
inductive Event where
  | attachment (wti : WalletTransferInfo) (decryptedAttach : List PayloadItem)
      (sa : TxServiceAttachment)
  | expirations (txExpirationTsMedian : Nat)
  | elsewhere (wallet : Wallet)

/-- The first release of a known contract by a transaction of a block counts. -/
def confirm (wti : WalletTransferInfo) (sa : TxServiceAttachment) (s : State) :
    Container Hash ContractState :=
  match releaseOf wti sa with
  | some (msId, newState) =>
    if wti.height ≠ 0 ∧ s.wallet.contracts.has msId = true ∧ s.released.has msId = false then
      s.released.set msId newState
    else s.released
  | none => s.released

section System

variable (W : WalletEnv)

def step : Event → State → State
  | .attachment wti decryptedAttach sa, s =>
    if sa.serviceId = bcEscrowServiceId then
      ⟨afterAttachment W decryptedAttach sa wti s.wallet, confirm wti sa s⟩
    else s
  | .expirations txExpirationTsMedian, s =>
    { s with wallet := handleContractExpirations txExpirationTsMedian s.wallet }
  | .elsewhere wallet, s => { s with wallet := { wallet with contracts := s.wallet.contracts } }

/-- The runs of a wallet without contracts. -/
def system : System Event State where
  start s := s.wallet.contracts = ∅ ∧ s.released = ∅
  step := step W

/-- A step leaves the contracts that a block released as they are, and moves the other ones
forward, unless they expire. -/
structure Orderly (event : Event) (s s' : State) : Prop where
  kept : ∀ id r, s.released.get id = some r → contractState s'.wallet id = r
  forward : ∀ id, s.released.get id = none →
    (contractState s.wallet id).stage ≤ (contractState s'.wallet id).stage ∨
      (∃ median, event = .expirations median) ∧ contractState s'.wallet id = .contractAccepted

/-- No proposal comes for a contract that was accepted, no acceptance for one that was requested
to be cancelled or released; a contract that a block has released is asked for no other release,
and does not expire as one that was cancelled in the pool. -/
def Meets : Event → State → Prop
  | .attachment wti decryptedAttach sa, s => sa.serviceId = bcEscrowServiceId →
    (∀ id, proposed W wti sa = some id →
      contractState s.wallet id ∈ [.none, .proposalSent]) ∧
    (∀ id, accepted W wti decryptedAttach sa = some id →
      contractState s.wallet id ∈ [.none, .proposalSent, .contractAccepted]) ∧
    ∀ id newState, releaseOf wti sa = some (id, newState) →
      ∀ r, s.released.get id = some r → newState = r
  | .expirations txExpirationTsMedian, s =>
    ∀ id contract, s.wallet.contracts.get id = some contract → (s.released.get id).isSome = true →
      contract.state = .contractReleasedCancelled → contract.height = 0 →
      contract.cancelBody.txCancelTemplate.isTxExpired txExpirationTsMedian = false
  | .elsewhere _, _ => True

end System

section Steps

variable {W : WalletEnv} {s s' : State} {event : Event} {id : Hash} {newState : ContractState}

/-- The contracts that blocks have released are in the states they were released to. -/
def Settled (s : State) : Prop :=
  ∀ id r, s.released.get id = some r → contractState s.wallet id = r ∧ r.stage = 4

/-- A step that writes the state of one contract. -/
theorem orderly_of_writes (settled : Settled s) (writes : Writes id newState s.wallet s'.wallet)
    (noExpiration : ∀ median, event ≠ .expirations median) :
    Orderly event s s' ↔ (∀ r, s.released.get id = some r → newState = r) ∧
      (s.released.get id = none → (contractState s.wallet id).stage ≤ newState.stage) := by
  have here : contractState s'.wallet id = newState := by rw [writes id, if_pos rfl]
  constructor
  · intro orderly
    refine ⟨fun r released => ?_, fun free => ?_⟩
    · rw [← here]
      exact orderly.kept id r released
    · rcases orderly.forward id free with forward | ⟨⟨median, same⟩, _⟩
      · rw [← here]
        exact forward
      · exact absurd same (noExpiration median)
  · rintro ⟨same, ahead⟩
    refine ⟨fun other r released => ?_, fun other free => .inl ?_⟩
    · rw [writes other]
      by_cases this : id = other
      · subst this
        rw [if_pos rfl]
        exact same r released
      · rw [if_neg this]
        exact (settled other r released).1
    · rw [writes other]
      by_cases this : id = other
      · subst this
        rw [if_pos rfl]
        exact ahead free
      · rw [if_neg this]

theorem orderly_of_same (settled : Settled s)
    (same : ∀ id, contractState s'.wallet id = contractState s.wallet id) :
    Orderly event s s' := by
  refine ⟨fun id r released => ?_, fun id _ => .inl ?_⟩
  · rw [same]
    exact (settled id r released).1
  · rw [same]

theorem free_of_stage (settled : Settled s) (before : (contractState s.wallet id).stage < 4) :
    s.released.get id = none := by
  rw [Option.eq_none_iff_forall_ne_some]
  intro r released
  obtain ⟨state, stage⟩ := settled id r released
  rw [state, stage] at before
  exact absurd before (Nat.lt_irrefl 4)

/-- An attachment that writes a state before the released ones. -/
theorem orderly_of_writes_early (settled : Settled s)
    (writes : Writes id newState s.wallet s'.wallet)
    (noExpiration : ∀ median, event ≠ .expirations median) (early : newState.stage < 4) :
    Orderly event s s' ↔ (contractState s.wallet id).stage ≤ newState.stage := by
  rw [orderly_of_writes settled writes noExpiration]
  constructor
  · rintro ⟨same, ahead⟩
    refine ahead (Option.eq_none_iff_forall_ne_some.mpr fun r released => ?_)
    rw [same r released, (settled id r released).2] at early
    exact absurd early (Nat.lt_irrefl 4)
  · intro ahead
    refine ⟨fun r released => ?_, fun _ => ahead⟩
    rw [free_of_stage settled (ahead.trans_lt early)] at released
    cases released

theorem stage_le_one (state : ContractState) :
    state.stage ≤ 1 ↔ state ∈ [ContractState.none, .proposalSent] := by
  cases state <;> decide

theorem stage_le_two (state : ContractState) :
    state.stage ≤ 2 ↔ state ∈ [ContractState.none, .proposalSent, .contractAccepted] := by
  cases state <;> decide

theorem stage_le_four (state : ContractState) : state.stage ≤ 4 := by
  cases state <;> decide

theorem attachment_orderly_iff (settled : Settled s) {wti : WalletTransferInfo}
    {att : List PayloadItem} {sa : TxServiceAttachment}
    (noExpiration : ∀ median, event ≠ .expirations median)
    (effect : Effect W wti att sa s.wallet s'.wallet) :
    Orderly event s s' ↔
      (∀ id, proposed W wti sa = some id →
        contractState s.wallet id ∈ [.none, .proposalSent]) ∧
      (∀ id, accepted W wti att sa = some id →
        contractState s.wallet id ∈ [.none, .proposalSent, .contractAccepted]) ∧
      ∀ id newState, releaseOf wti sa = some (id, newState) →
        ∀ r, s.released.get id = some r → newState = r := by
  cases effect with
  | nothing states noProposal noAcceptance noRelease =>
    refine iff_of_true (orderly_of_same settled states) ⟨?_, ?_, ?_⟩
    · intro id isProposal
      rw [noProposal] at isProposal
      cases isProposal
    · intro id isAcceptance
      rw [noAcceptance] at isAcceptance
      cases isAcceptance
    · intro id newState isRelease r released
      have unknown : contractState s.wallet id = .none := by
        rw [contractState, noRelease id newState isRelease, Option.map_none, Option.getD_none]
      obtain ⟨state, stage⟩ := settled id r released
      rw [← state, unknown] at stage
      cases stage
  | proposal id isProposal noAcceptance noRelease writes =>
    rw [orderly_of_writes_early settled writes noExpiration (by decide), isProposal, noAcceptance,
      noRelease]
    simp only [Option.some.injEq, forall_eq', reduceCtorEq, false_implies, implies_true, and_true]
    exact stage_le_one _
  | acceptance id noProposal isAcceptance noRelease writes =>
    rw [orderly_of_writes_early settled writes noExpiration (by decide), isAcceptance, noProposal,
      noRelease]
    simp only [Option.some.injEq, forall_eq', reduceCtorEq, false_implies, implies_true, and_true,
      true_and]
    exact stage_le_two _
  | release id newState noProposal noAcceptance isRelease known writes =>
    rw [orderly_of_writes settled writes noExpiration, isRelease, noProposal, noAcceptance]
    simp only [Option.some.injEq, Prod.mk.injEq, reduceCtorEq, false_implies, implies_true,
      true_and, and_imp]
    constructor
    · rintro ⟨same, _⟩ _ _ rfl rfl
      exact same
    · intro same
      refine ⟨same id newState rfl rfl, fun _ => ?_⟩
      rw [releaseOf_stage isRelease]
      exact stage_le_four _
  | cancellation id noProposal noAcceptance noRelease earlier writes =>
    rw [orderly_of_writes_early settled writes noExpiration (by decide), noProposal, noAcceptance,
      noRelease]
    simp only [reduceCtorEq, false_implies, implies_true, and_true, iff_true]
    rcases earlier with isAccepted | isSent
    · rw [isAccepted]
      decide
    · rw [isSent]

theorem contractState_expirations (median : Nat) (w : Wallet) (id : Hash) :
    contractState (handleContractExpirations median w) id =
      ((w.contracts.get id).map fun contract => (contractExpired median contract).state).getD
        .none := by
  simp only [contractState, handleContractExpirations, Container.get_map, Option.map_map,
    Function.comp_def]

/-- A contract expires to its acceptance, or not at all. -/
theorem contractExpired_state (median : Nat) (contract : EscrowContractDetails) :
    (contractExpired median contract).state = contract.state ∨
      (contractExpired median contract).state = .contractAccepted := by
  unfold contractExpired
  dsimp only
  split
  · split
    · exact .inr rfl
    · exact .inl rfl
  · split
    · exact .inr rfl
    · exact .inl rfl
  · exact .inl rfl

/-- Of the released contracts only those expire that were cancelled in the pool. -/
theorem contractExpired_released {median : Nat} {contract : EscrowContractDetails}
    (stage : contract.state.stage = 4) :
    (contractExpired median contract).state = contract.state ↔
      (contract.state = .contractReleasedCancelled → contract.height = 0 →
        contract.cancelBody.txCancelTemplate.isTxExpired median = false) := by
  unfold contractExpired
  dsimp only
  split
  · next sent =>
    rw [sent] at stage
    cases stage
  · next cancelled =>
    by_cases pool : contract.height = 0
    · cases expired : contract.cancelBody.txCancelTemplate.isTxExpired median with
      | true => simp [pool, cancelled]
      | false => simp [pool]
    · simp [pool]
  · next other => exact iff_of_true rfl fun cancelled => absurd cancelled other

theorem expirations_orderly_iff (settled : Settled s) (median : Nat) :
    Orderly (.expirations median) s (step W (.expirations median) s) ↔
      Meets W (.expirations median) s := by
  have after (id : Hash) := contractState_expirations median s.wallet id
  have known {id : Hash} {r : ContractState} (released : s.released.get id = some r) :
      ∃ contract, s.wallet.contracts.get id = some contract ∧ contract.state = r ∧ r.stage = 4 := by
    obtain ⟨state, stage⟩ := settled id r released
    cases found : s.wallet.contracts.get id with
    | none =>
      rw [contractState, found, Option.map_none, Option.getD_none] at state
      rw [← state] at stage
      cases stage
    | some contract =>
      rw [contractState, found, Option.map_some, Option.getD_some] at state
      exact ⟨contract, rfl, state, stage⟩
  constructor
  · intro orderly id contract found released
    obtain ⟨r, released⟩ := Option.isSome_iff_exists.mp released
    obtain ⟨other, foundToo, state, stage⟩ := known released
    obtain rfl := Option.some.inj (found.symm.trans foundToo)
    have kept := orderly.kept id r released
    change contractState (handleContractExpirations median s.wallet) id = r at kept
    rw [after, found, Option.map_some, Option.getD_some, ← state] at kept
    exact (contractExpired_released (state ▸ stage)).mp kept
  · intro meets
    refine ⟨fun id r released => ?_, fun id _ => ?_⟩
    · obtain ⟨contract, found, state, stage⟩ := known released
      change contractState (handleContractExpirations median s.wallet) id = r
      rw [after, found, Option.map_some, Option.getD_some, ← state]
      exact (contractExpired_released (state ▸ stage)).mpr
        (meets id contract found (Option.isSome_of_eq_some released))
    · change _ ≤ (contractState (handleContractExpirations median s.wallet) id).stage ∨
        _ ∧ contractState (handleContractExpirations median s.wallet) id = .contractAccepted
      rw [after, contractState]
      cases s.wallet.contracts.get id with
      | none => exact .inl (Nat.le_refl 0)
      | some contract =>
        rw [Option.map_some, Option.map_some, Option.getD_some, Option.getD_some]
        rcases contractExpired_state median contract with same | back
        · rw [same]
          exact .inl (Nat.le_refl _)
        · exact .inr ⟨⟨median, rfl⟩, back⟩

/-- A step is orderly exactly when it meets the condition. -/
theorem step_orderly_iff (settled : Settled s) (event : Event) :
    Orderly event s (step W event s) ↔ Meets W event s := by
  cases event with
  | attachment wti att sa =>
    have noExpiration : ∀ median, Event.attachment wti att sa ≠ .expirations median :=
      fun median same => by cases same
    by_cases escrow : sa.serviceId = bcEscrowServiceId
    · have stepped : step W (.attachment wti att sa) s =
        ⟨afterAttachment W att sa wti s.wallet, confirm wti sa s⟩ := if_pos escrow
      rw [stepped, attachment_orderly_iff (W := W) settled noExpiration afterAttachment_effect]
      exact ⟨fun meets _ => meets, fun meets => meets escrow⟩
    · have stepped : step W (.attachment wti att sa) s = s := if_neg escrow
      rw [stepped]
      exact iff_of_true (orderly_of_same settled fun _ => rfl) fun same => absurd same escrow
  | expirations median => exact expirations_orderly_iff settled median
  | elsewhere wallet => exact iff_of_true (orderly_of_same settled fun _ => rfl) trivial

/-- What a release is confirmed to be is the state it writes. -/
theorem confirm_writes {wti : WalletTransferInfo} {att : List PayloadItem}
    {sa : TxServiceAttachment} {w' : Wallet} (effect : Effect W wti att sa s.wallet w')
    {r : ContractState} (released : (confirm wti sa s).get id = some r)
    (free : s.released.get id = none) : contractState w' id = r ∧ r.stage = 4 := by
  unfold confirm at released
  split at released
  · next msId newState isRelease =>
    split at released
    · next confirmed =>
      rw [Container.get_set] at released
      split at released
      · next same =>
        subst same
        obtain rfl := Option.some.inj released
        refine ⟨?_, releaseOf_stage isRelease⟩
        cases effect with
        | nothing states noProposal noAcceptance noRelease =>
          have known := confirmed.2.1
          rw [Container.has, noRelease _ _ isRelease] at known
          cases known
        | proposal other isProposal noAcceptance noRelease writes =>
          rw [isRelease] at noRelease
          cases noRelease
        | acceptance other noProposal isAcceptance noRelease writes =>
          rw [isRelease] at noRelease
          cases noRelease
        | release other otherState noProposal noAcceptance isReleaseToo known writes =>
          obtain ⟨rfl, rfl⟩ := Prod.mk.inj (Option.some.inj (isRelease.symm.trans isReleaseToo))
          rw [writes, if_pos rfl]
        | cancellation other noProposal noAcceptance noRelease earlier writes =>
          rw [isRelease] at noRelease
          cases noRelease
      · rw [free] at released
        cases released
    · rw [free] at released
      cases released
  · rw [free] at released
    cases released

theorem confirm_grows {wti : WalletTransferInfo} {sa : TxServiceAttachment} {r : ContractState}
    (released : s.released.get id = some r) : (confirm wti sa s).get id = some r := by
  unfold confirm
  split
  · split
    · next confirmed =>
      rw [Container.get_set, if_neg, released]
      intro same
      have fresh := confirmed.2.2
      rw [same, Container.has, released] at fresh
      cases fresh
    · exact released
  · exact released

/-- Steps that meet the condition leave the released contracts settled. -/
theorem settled_step (settled : Settled s) (meets : Meets W event s) :
    Settled (step W event s) := by
  have orderly := (step_orderly_iff settled event).mpr meets
  intro id r released
  cases event with
  | attachment wti att sa =>
    by_cases escrow : sa.serviceId = bcEscrowServiceId
    · have stepped : step W (.attachment wti att sa) s =
        ⟨afterAttachment W att sa wti s.wallet, confirm wti sa s⟩ := if_pos escrow
      rw [stepped] at released orderly ⊢
      cases before : s.released.get id with
      | none => exact confirm_writes (W := W) afterAttachment_effect released before
      | some earlier =>
        obtain rfl := Option.some.inj ((confirm_grows before).symm.trans released)
        exact ⟨orderly.kept id earlier before, (settled id earlier before).2⟩
    · have stepped : step W (.attachment wti att sa) s = s := if_neg escrow
      rw [stepped] at released ⊢
      exact settled id r released
  | expirations median => exact ⟨orderly.kept id r released, (settled id r released).2⟩
  | elsewhere wallet => exact ⟨orderly.kept id r released, (settled id r released).2⟩

theorem settled_of_reaches (reached : (system W).Reaches (Meets W) s) : Settled s := by
  refine reached.invariant ?_ fun event state _ meets settled => settled_step settled meets
  rintro state ⟨_, none⟩ id r released
  rw [none, Container.get_empty] at released
  cases released

end Steps

/-! ## What processing does -/

section Processing

variable {W : WalletEnv}

/-- The wallets of reachable states. -/
def Visited (W : WalletEnv) (w : Wallet) : Prop :=
  ∃ released, (system W).Reachable ⟨w, released⟩

/-- A change elsewhere. -/
theorem Visited.elsewhere {w w' : Wallet} (visited : Visited W w)
    (contracts : w'.contracts = w.contracts) : Visited W w' := by
  obtain ⟨released, reached⟩ := visited
  have next := System.Reaches.step reached (.elsewhere w') trivial
  change (system W).Reachable ⟨{ w' with contracts := w.contracts }, released⟩ at next
  rw [← contracts] at next
  exact ⟨released, next⟩

theorem visited_kept : EscrowKept W (Visited W) where
  only _ _ visited same := visited.elsewhere (congrArg EscrowPart.contracts same)
  handled {att sa wti handle} escrow handles := by
    rintro w ⟨released, reached⟩
    have next := System.Reaches.step reached (.attachment wti att sa) trivial
    change (system W).Reachable (step W (.attachment wti att sa) ⟨w, released⟩) at next
    unfold step at next
    dsimp only at next
    rw [if_pos escrow, afterAttachment, handles] at next
    exact ⟨_, next⟩

/-- Processing a block is a run of escrow attachments and other changes. -/
theorem addBlock_visits (entry : BlockEntry) (height : Nat) :
    Preserves (Visited W) (addBlock W entry height) := by
  refine visited_kept.addBlock ?_ fun _ _ _ w _ _ _ _ visited => visited.elsewhere rfl
  intro delivered coinBaseTx i progress input _ _ _
  refine preserves_get_bind fun w visited => ?_
  split
  · exact preserves_pure progress
  · exact preserves_bind (preserves_set (visited.elsewhere rfl)) fun _ => preserves_pure _

theorem scanPoolInputs_visit (i : Nat) (inputs : List Txin) (spends : PoolSpends) :
    Preserves (Visited W) (scanPoolInputs i inputs spends) := by
  induction inputs generalizing i spends with
  | nil => exact preserves_pure spends
  | cons input rest ih =>
    refine preserves_bind ?_ fun _ => ih _ _
    cases input with
    | gen height => exact preserves_pure spends
    | toKey input =>
      refine preserves_get_bind fun w _ => ?_
      split
      · exact preserves_pure _
      · exact preserves_pure _
    | multisig input =>
      refine preserves_get_bind fun w visited => ?_
      split
      · exact preserves_pure _
      · refine preserves_ite (fun _ => preserves_pure _) fun _ => ?_
        exact preserves_bind (preserves_set (visited.elsewhere rfl)) fun _ => preserves_pure _

theorem scanPoolTx_visits (known : Container Hash Transaction) (median coreTime : Nat)
    (found : List Hash) (tx : Transaction) :
    Preserves (Visited W) (scanPoolTx W known median coreTime found tx) := by
  unfold scanPoolTx
  dsimp only
  split
  · exact preserves_bind (preserves_modify fun w visited => visited.elsewhere rfl) fun _ =>
      preserves_pure found
  · refine preserves_bind (visited_kept.only.demandEx _) fun extra => ?_
    refine preserves_bind (visited_kept.only.demandEx _) fun own => ?_
    refine preserves_bind (scanPoolInputs_visit _ _ _) fun spends => ?_
    refine preserves_bind (fun w visited => ?_) fun _ => preserves_pure _
    exact recordPoolSpends_keeps visited_kept (visited.elsewhere rfl) visited

/-- So is a scan of the pool, -/
theorem scanTxPool_visits (coreTime : Nat) (reply : PoolReply) :
    Preserves (Visited W) (scanTxPool W coreTime reply) := by
  cases reply with
  | noConnection => exact preserves_throw _
  | busy => exact preserves_throw _
  | failed => exact preserves_bind (visited_kept.only.throwIf _) fun _ => preserves_pure _
  | ok txs median aliasDetails =>
    refine preserves_get_bind fun w visited => ?_
    refine preserves_bind (preserves_set (visited.elsewhere rfl)) fun _ => ?_
    refine preserves_bind ?_ fun finds => preserves_bind
      (preserves_modify fun w visited => visited.elsewhere rfl) fun _ => preserves_pure _
    have scans (found : List Hash) : Preserves (Visited W)
        (scanPoolTxs W w.unconfirmedInTransfers median coreTime txs found) := by
      induction txs generalizing found with
      | nil => exact preserves_pure found
      | cons blob rest ih =>
        refine preserves_bind (visited_kept.only.demandEx blob) fun tx => ?_
        exact preserves_bind (scanPoolTx_visits _ _ _ _ _) ih
    exact scans []

/-- and the expiration of contracts. -/
theorem expirations_visit (median : Nat) {w : Wallet} (visited : Visited W w) :
    Visited W (handleContractExpirations median w) := by
  obtain ⟨released, reached⟩ := visited
  exact ⟨released, .step reached (.expirations median) trivial⟩

end Processing

/-- In every run whose steps meet the condition, contracts that a block released keep their state,
and a step moves the other ones forward exactly when it meets the condition too. -/
theorem escrowStates_orderly_iff {W : WalletEnv} {s : State}
    (reached : (system W).Reaches (Meets W) s) (event : Event) :
    (∀ id r, s.released.get id = some r → contractState s.wallet id = r) ∧
      (Orderly event s (step W event s) ↔ Meets W event s) :=
  ⟨fun id r released => (settled_of_reaches reached id r released).1,
    step_orderly_iff (settled_of_reaches reached) event⟩

/-! ## A proposal that is sent again -/

namespace SentAgain

/-- A history entry of a transaction that spends the multisig output of contract 7. -/
def entry (height : Nat) : WalletTransferInfo :=
  { emptyWti false ([], []) with
    height
    tx :=
      { version := currentTransactionVersion
        vin := [.multisig { amount := 5, multisigOutId := ⟨7⟩, sigsCount := 2, etcDetails := [] }]
        vout := []
        extra := []
        signatures := []
        attachment := [] } }

/-- An escrow attachment with an instruction. -/
def escrow (instruction : String) : TxServiceAttachment :=
  ⟨bcEscrowServiceId, instruction, "", [], 0⟩

/-- The proposal in the pool and in a block, the acceptance and the release in blocks. -/
def deal : List Event :=
  [.attachment (entry 0) [] (escrow bcEscrowServiceInstructionProposal),
    .attachment (entry 5) [] (escrow bcEscrowServiceInstructionProposal),
    .attachment (entry 6) [] (escrow bcEscrowServiceInstructionPrivateDetails),
    .attachment (entry 7) [] (escrow bcEscrowServiceInstructionReleaseNormal)]

/-- The buyer sends the proposal again. -/
def again : Event := .attachment (entry 0) [] (escrow bcEscrowServiceInstructionProposal)

/-- The wallet and the confirmed releases after events. -/
def dealt (events : List Event) : State := (system .plain).after ⟨Wallet.new, ∅⟩ events

theorem start_new : (system .plain).start ⟨Wallet.new, ∅⟩ := ⟨rfl, rfl⟩

/-- An attachment that meets the condition because of what it is. -/
theorem meets_of_ids {wti : WalletTransferInfo} {sa : TxServiceAttachment} {s : State}
    (proposal : proposed .plain wti sa = none ∨
      proposed .plain wti sa = some ⟨7⟩ ∧ contractState s.wallet ⟨7⟩ ∈ [.none, .proposalSent])
    (acceptance : accepted .plain wti [] sa = none ∨ accepted .plain wti [] sa = some ⟨7⟩ ∧
      contractState s.wallet ⟨7⟩ ∈ [.none, .proposalSent, .contractAccepted])
    (release : releaseOf wti sa = none ∨ s.released.get ⟨7⟩ = none ∧
      (releaseOf wti sa).map Prod.fst = some ⟨7⟩) :
    Meets .plain (.attachment wti [] sa) s := by
  refine fun _ => ⟨fun id isProposal => ?_, fun id isAcceptance => ?_,
    fun id newState isRelease r released => ?_⟩
  · rcases proposal with absent | ⟨present, state⟩
    · rw [absent] at isProposal
      cases isProposal
    · obtain rfl := Option.some.inj (present.symm.trans isProposal)
      exact state
  · rcases acceptance with absent | ⟨present, state⟩
    · rw [absent] at isAcceptance
      cases isAcceptance
    · obtain rfl := Option.some.inj (present.symm.trans isAcceptance)
      exact state
  · rcases release with absent | ⟨free, named⟩
    · rw [absent] at isRelease
      cases isRelease
    · rw [isRelease] at named
      obtain rfl := Option.some.inj named
      rw [free] at released
      cases released

theorem deal_meets : (system .plain).Meets (Meets .plain) ⟨Wallet.new, ∅⟩ deal :=
  ⟨meets_of_ids (.inr (by decide)) (.inl (by decide)) (.inl (by decide)),
    meets_of_ids (.inr (by decide)) (.inl (by decide)) (.inl (by decide)),
    meets_of_ids (.inl (by decide)) (.inr (by decide)) (.inl (by decide)),
    meets_of_ids (.inl (by decide)) (.inl (by decide)) (.inr (by decide)), trivial⟩

end SentAgain

open SentAgain

/-- A deal from the proposal to the release. -/
theorem escrowStates_orderly_deal :
    (∀ id r, (dealt deal).released.get id = some r →
        contractState (dealt deal).wallet id = r) ∧
      (Orderly again (dealt deal) (step .plain again (dealt deal)) ↔
        Meets .plain again (dealt deal)) :=
  escrowStates_orderly_iff (System.Reaches.after (.start start_new) deal_meets) again

/-- After the release in a block the same proposal brings the contract back to its start. -/
theorem escrowStates_back :
    ¬ ∀ s, (system .plain).Reachable s → ∀ event id r, s.released.get id = some r →
      contractState (step .plain event s).wallet id = r := by
  intro kept
  have stays := kept (dealt deal) (System.Reachable.after (.start start_new) deal) again ⟨7⟩
    .contractReleasedNormal (by decide)
  exact absurd stays (by decide)

end Escrows

end Virie.Wallet
