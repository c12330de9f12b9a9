import Virie.Wallet.ChainDerived

/-! # Wallets that agree on the chain process a block alike

Two wallets may differ in their locks, contracts and cached amounts, and the first may list
multisig outputs that the second does not. As long as no input names one of those, a
transaction that the first wallet processes is processed by the second one too, and they
agree again afterwards. -/

open Foundation Procedure

namespace Virie.Wallet

section Handlers

variable {W : WalletEnv} {s t : Wallet} {wti wti' : WalletTransferInfo}

theorem lockForProposal_runs {i : Nat} {w : Wallet} (inside : i < w.transfers.length) :
    lockForProposal i w = .ok ()
      (w.updateTransfer i (mapFlags fun flags => flags.add lockedForProposal)) := by
  have passes : decide (w.transfers.length ≤ i) = false := decide_eq_false (Nat.not_le.mpr inside)
  unfold lockForProposal
  rw [get_bind, passes]
  rfl

/-- Transfers that exist can be locked. -/
theorem addTransfersToExpirationList_runs {selected : List Nat} (expiration change : Nat)
    (related : Hash) (inside : ∀ i ∈ selected, i < t.transfers.length) :
    ∃ t', addTransfersToExpirationList selected expiration change related t = .ok () t' := by
  have locks : ∀ (fresh : List Nat) (w : Wallet), (∀ i ∈ fresh, i < w.transfers.length) →
      ∃ w', Procedure.forEach lockForProposal fresh w = .ok () w' := by
    intro fresh
    induction fresh with
    | nil => exact fun w _ => ⟨w, rfl⟩
    | cons i rest ih =>
      intro w within
      obtain ⟨w', ran⟩ := ih
        (w.updateTransfer i (mapFlags fun flags => flags.add lockedForProposal))
        fun j member => by
          rw [updateTransfer, List.length_modify]
          exact within j (.tail _ member)
      refine ⟨w', ?_⟩
      unfold Procedure.forEach
      rw [bind_of_ok (lockForProposal_runs (within i (.head _)))]
      exact ran
  unfold addTransfersToExpirationList
  rw [get_bind]
  by_cases none : (selected.filter fun i => !t.moneyExpirations.any fun entry =>
      entry.selectedTransfers.any fun st => st.index == i).isEmpty = true
  · rw [if_pos none]
    exact ⟨t, rfl⟩
  · rw [if_neg none]
    exact locks _ _ fun i member => inside i (List.mem_of_mem_filter member)

theorem scanTxToKeyInputs_inside (indexed : t.chainDerived.Indexed) (tx : Transaction) :
    ∀ i ∈ scanTxToKeyInputs t tx, i < t.transfers.length := by
  intro i member
  obtain ⟨ki, _, found⟩ := List.mem_filterMap.mp member
  obtain ⟨stored, present, rfl⟩ := Option.map_eq_some_iff.mp found
  obtain ⟨td, atIndex, _⟩ := (indexed ki stored).mp present
  have inside := (List.getElem?_eq_some_iff.mp atIndex).1
  rwa [chainDerived, List.length_map] at inside

/-- A handler returns an entry that still says the same about the chain. -/
abbrev KeepsPart (wti : WalletTransferInfo) (handle : Procedure Wallet WalletTransferInfo) : Prop :=
  Returns (fun value => value.chainPart = wti.chainPart) handle

theorem handleProposal_part (prop : ProposalBody) : KeepsPart wti (handleProposal W wti prop) := by
  unfold handleProposal
  split
  · exact returns_pure rfl
  · refine returns_bind fun _ => returns_bind fun _ => returns_ite (returns_pure rfl) ?_
    exact returns_bind fun _ => returns_bind fun _ => returns_pure rfl

theorem handleContract_part (cntr : ContractPrivateDetails) (att : List PayloadItem) :
    KeepsPart wti (handleContract W wti cntr att) := by
  unfold handleContract
  dsimp only
  split
  · exact returns_pure rfl
  · refine returns_bind fun _ => returns_bind fun _ => returns_pure ?_
    split <;> rfl

theorem handleReleaseContract_part (instruction : String) :
    KeepsPart wti (handleReleaseContract wti instruction) := by
  refine returns_bind fun _ => returns_ite (returns_pure rfl) ?_
  split
  · refine returns_bind fun _ => returns_pure ?_
    split <;> split <;> rfl
  · exact returns_pure rfl

theorem handleCancelProposal_part (ectb : EscrowCancelTemplatesBody) (att : List PayloadItem) :
    KeepsPart wti (handleCancelProposal W wti ectb att) := by
  refine returns_bind fun _ => ?_
  split
  · dsimp only
    split
    · exact returns_bind fun _ => returns_pure rfl
    · exact returns_pure rfl
  · exact returns_pure rfl

theorem handleContract_total (cntr : ContractPrivateDetails) (att : List PayloadItem) :
    Total (handleContract W wti cntr att) := by
  unfold handleContract
  dsimp only
  split
  · exact total_pure _
  · exact total_get_bind fun _ => total_set_bind (total_pure _)

theorem handleReleaseContract_total (instruction : String) :
    Total (handleReleaseContract wti instruction) := by
  refine total_get_bind fun _ => total_ite (total_pure _) ?_
  split
  · exact total_set_bind (total_pure _)
  · exact total_pure _

theorem handleCancelProposal_total (ectb : EscrowCancelTemplatesBody) (att : List PayloadItem) :
    Total (handleCancelProposal W wti ectb att) := by
  refine total_get_bind fun _ => ?_
  split
  · dsimp only
    split
    · exact total_set_bind (total_pure _)
    · exact total_pure _
  · exact total_pure _

/-- Whether a proposal can be handled does not depend on the contracts the wallet has. -/
theorem handleProposal_mimics (indexed : t.chainDerived.Indexed)
    (same : wti.chainPart = wti'.chainPart) (prop : ProposalBody) :
    Mimics (handleProposal W wti prop) (handleProposal W wti' prop) s t
      fun _ _ _ _ => True := by
  obtain ⟨sameTx, _, sameIncome⟩ : wti.tx = wti'.tx ∧ wti.height = wti'.height ∧
      wti.isIncome = wti'.isIncome := by simpa [WalletTransferInfo.chainPart] using same
  unfold handleProposal
  rw [sameTx, sameIncome]
  cases W.validateEscrowProposal wti'.isIncome wti'.tx prop with
  | none => exact mimics_pure trivial
  | some validated =>
    obtain ⟨decrypted, msId, cpd⟩ := validated
    refine mimics_get_bind (mimics_bind (Q := fun _ _ _ t' => t'.transfers = t.transfers)
      (mimics_set rfl) fun _ _ s' t' kept => ?_)
    by_cases isA : (!cpd.aAddr.spendPublicKey == W.publicAddress.spendPublicKey) = true
    · rw [if_pos isA, if_pos isA]
      exact mimics_pure trivial
    · rw [if_neg isA, if_neg isA]
      cases lookupAccOutsByExtra W prop.txTemplate with
      | none =>
        intro value final ran
        obtain ⟨_, _, demanded, _⟩ := bind_ok.mp ran
        cases (demandEx_ok.mp demanded).1
      | some own =>
        refine mimics_bind (Q := fun value answer _ t' => value = answer ∧
          t'.transfers = t.transfers) (mimics_pure ⟨rfl, kept⟩) ?_
        rintro own _ s' t' ⟨rfl, kept⟩
        refine mimics_bind (Q := fun _ _ _ _ => True) ?_ fun _ _ _ _ _ => mimics_pure trivial
        intro _ _ _
        obtain ⟨t'', ran⟩ := addTransfersToExpirationList_runs (t := t')
          prop.txTemplate.getTxExpirationTime own.moneyTransfered
          (getTransactionHash W.core wti'.tx.toTransactionPrefix) (by
            rw [kept]
            exact scanTxToKeyInputs_inside indexed prop.txTemplate)
        exact ⟨(), t'', ran, trivial⟩

theorem handleServiceAttachment_part {att : List PayloadItem} {sa : TxServiceAttachment}
    {handle : Procedure Wallet WalletTransferInfo}
    (handles : handleServiceAttachment W att sa wti = some handle) : KeepsPart wti handle := by
  unfold handleServiceAttachment at handles
  split at handles
  · obtain ⟨prop, _, rfl⟩ := Option.map_eq_some_iff.mp handles
    exact handleProposal_part prop
  · split at handles
    · obtain ⟨cntr, _, rfl⟩ := Option.map_eq_some_iff.mp handles
      exact handleContract_part cntr att
    · split at handles
      · cases handles
        exact handleReleaseContract_part _
      · split at handles
        · obtain ⟨cpb, _, rfl⟩ := Option.map_eq_some_iff.mp handles
          exact handleCancelProposal_part cpb att
        · cases handles
          exact returns_pure rfl

theorem handleServiceAttachment_mimics {att : List PayloadItem} {sa : TxServiceAttachment}
    (indexed : t.chainDerived.Indexed) (same : wti.chainPart = wti'.chainPart)
    {handle : Procedure Wallet WalletTransferInfo}
    (handles : handleServiceAttachment W att sa wti = some handle) :
    ∃ other, handleServiceAttachment W att sa wti' = some other ∧
      Mimics handle other s t fun _ _ _ _ => True := by
  unfold handleServiceAttachment at handles ⊢
  split at handles
  · next isProposal =>
    rw [if_pos isProposal]
    obtain ⟨prop, unpacked, rfl⟩ := Option.map_eq_some_iff.mp handles
    exact ⟨_, by rw [unpacked, Option.map_some], handleProposal_mimics indexed same prop⟩
  · next notProposal =>
    rw [if_neg notProposal]
    split at handles
    · next isContract =>
      rw [if_pos isContract]
      obtain ⟨cntr, loaded, rfl⟩ := Option.map_eq_some_iff.mp handles
      exact ⟨_, by rw [loaded, Option.map_some], (handleContract_total cntr att).mimics⟩
    · next notContract =>
      rw [if_neg notContract]
      split at handles
      · next isRelease =>
        rw [if_pos isRelease]
        cases handles
        exact ⟨_, rfl, (handleReleaseContract_total _).mimics⟩
      · next notRelease =>
        rw [if_neg notRelease]
        split at handles
        · next isCancel =>
          rw [if_pos isCancel]
          obtain ⟨cpb, unpacked, rfl⟩ := Option.map_eq_some_iff.mp handles
          exact ⟨_, by rw [unpacked, Option.map_some], (handleCancelProposal_total cpb att).mimics⟩
        · next notCancel =>
          rw [if_neg notCancel]
          cases handles
          exact ⟨_, rfl, mimics_pure trivial⟩

theorem handleServiceAttachment_none (wti' : WalletTransferInfo) {att : List PayloadItem}
    {sa : TxServiceAttachment}
    (refused : handleServiceAttachment W att sa wti = none) :
    handleServiceAttachment W att sa wti' = none := by
  unfold handleServiceAttachment at refused ⊢
  simp only [ite_eq_iff, Option.map_eq_none_iff, reduceCtorEq, and_false, or_false] at refused ⊢
  exact refused

/-- Handling the escrow attachments leaves the chain-derived state and the multisig outputs. -/
theorem processContractInfo_keeps {c : ChainDerived} {m : Container Hash TransferDetailsBase}
    (att items : List PayloadItem) (last : c.history.getLast? = some wti.chainPart) :
    Preserves (ChainIs c m) (processContractInfo W .lastOfHistory att items wti) := by
  induction items generalizing wti with
  | nil => exact preserves_pure wti
  | cons item rest ih =>
    cases item with
    | txServiceAttachment sa =>
      unfold processContractInfo
      refine preserves_ite (fun _ => ?_) fun _ => ih last
      split
      · exact preserves_pure wti
      · next handle handles =>
        refine preserves_bind_of (handleServiceAttachment_keeps handles) ?_
        intro before handled middle holds ran
        have kept := (handleServiceAttachment_keeps handles).of_ok ran holds
        have part := handleServiceAttachment_part handles _ _ _ ran
        refine preserves_bind (preserves_modify ?_) (fun _ => ih (part ▸ last)) middle kept
        rintro w ⟨rfl, rfl⟩
        exact ⟨chainDerived_setWti (part ▸ last), rfl⟩
    | _ => exact ih last

/-- The attachments that one wallet can handle another one can handle too. -/
theorem processContractInfo_mimics (att items : List PayloadItem)
    (indexed : t.chainDerived.Indexed) (same : wti.chainPart = wti'.chainPart)
    (last : t.chainDerived.history.getLast? = some wti'.chainPart) :
    Mimics (processContractInfo W .lastOfHistory att items wti)
      (processContractInfo W .lastOfHistory att items wti') s t fun _ _ _ _ => True := by
  induction items generalizing wti wti' s t with
  | nil => exact mimics_pure trivial
  | cons item rest ih =>
    cases item with
    | txServiceAttachment sa =>
      unfold processContractInfo
      by_cases escrow : sa.serviceId = bcEscrowServiceId
      · rw [if_pos escrow, if_pos escrow]
        cases handles : handleServiceAttachment W att sa wti with
        | none =>
          rw [handleServiceAttachment_none wti' handles]
          exact mimics_pure trivial
        | some handle =>
          obtain ⟨other, handlesToo, mimics⟩ :=
            handleServiceAttachment_mimics (s := s) indexed same handles
          rw [handlesToo]
          refine mimics_bind ((mimics.and_returns (handleServiceAttachment_part handles)
            (handleServiceAttachment_part handlesToo)).and_preserves
              (handleServiceAttachment_keeps handles) ⟨rfl, rfl⟩
              (handleServiceAttachment_keeps handlesToo) ⟨rfl, rfl⟩) ?_
          rintro value answer s' t' ⟨⟨_, part, partToo⟩, _, kept, _⟩
          refine mimics_bind (mimics_modify (Q := fun _ _ _ t'' =>
            t''.chainDerived = t.chainDerived) ?_) ?_
          · rw [chainDerived_setWti, kept]
            rw [kept, partToo]
            exact last
          · intro _ _ s'' t'' settled
            refine ih (by rw [settled]; exact indexed) (by rw [part, partToo, same]) ?_
            rw [settled, partToo]
            exact last
      · rw [if_neg escrow, if_neg escrow]
        exact ih indexed same last
    | _ => exact ih indexed same last

end Handlers

/-! ## History entries -/

section History

variable {W : WalletEnv} {s t w w' : Wallet} {wti wti' : WalletTransferInfo} {b : Block}
  {tx : Transaction} {amount : Nat} {td : MoneyTransfer2Details}

/-- A history entry with the fields of its transaction and its decrypted attachments. -/
def filledWti (W : WalletEnv) (b : Block) (tx : Transaction) (amount : Nat)
    (td : MoneyTransfer2Details) (wti : WalletTransferInfo) (att : List PayloadItem) :
    WalletTransferInfo :=
  prepareWtiDecryptedAttachments W att
    { wti with
      tx
      amount
      height := getBlockHeight b
      td := fillTransferDetails tx td wti.td
      timestamp := getActualTimestamp b
      fee := tx.getTxFee
      unlockTime := tx.getTxUnlockTime }

def decryptedFor (W : WalletEnv) (isIncome : Bool) (tx : Transaction)
    (td : MoneyTransfer2Details) : List PayloadItem :=
  W.decryptPayloadItems (isIncome || isEscrowTransfer tx && !td.spentIndices.contains 0) tx

theorem filledWti_part (att : List PayloadItem) :
    (filledWti W b tx amount td wti att).chainPart = (tx, getBlockHeight b, wti.isIncome) := rfl

def withHistory (w : Wallet) (wti : WalletTransferInfo) : Wallet :=
  { w with transferHistory := w.transferHistory ++ [wti] }

/-- An entry is appended, filled in, and the escrow attachments are handled. -/
theorem pushHistory_eq (W : WalletEnv) (b : Block) (tx : Transaction) (amount : Nat)
    (td : MoneyTransfer2Details) (wti : WalletTransferInfo) (w : Wallet) :
    pushHistory W b tx amount td wti w =
      (processContractInfo W .lastOfHistory (decryptedFor W wti.isIncome tx td)
        (decryptedFor W wti.isIncome tx td)
        (filledWti W b tx amount td wti (decryptedFor W wti.isIncome tx td)) >>=
          fun _ => pure ())
        (w.withHistory (filledWti W b tx amount td wti (decryptedFor W wti.isIncome tx td))) := by
  change (processContractInfo W .lastOfHistory (decryptedFor W wti.isIncome tx td)
      (decryptedFor W wti.isIncome tx td)
      (filledWti W b tx amount td wti (decryptedFor W wti.isIncome tx td)) >>= fun _ => pure ())
    { w with
      transferHistory := (w.transferHistory ++ [wti]).dropLast ++
        [filledWti W b tx amount td wti (decryptedFor W wti.isIncome tx td)] } = _
  rw [List.dropLast_concat]
  rfl

theorem chainDerived_withHistory :
    (w.withHistory wti).chainDerived =
      { w.chainDerived with history := w.chainDerived.history ++ [wti.chainPart] } := by
  simp only [withHistory, chainDerived, List.map_append, List.map_cons, List.map_nil]

theorem pushHistory_ok {result : Unit} (ran : pushHistory W b tx amount td wti w = .ok result w') :
    ChainIs { w.chainDerived with
      history := w.chainDerived.history ++ [(tx, getBlockHeight b, wti.isIncome)] }
      w.multisigTransfers w' := by
  rw [pushHistory_eq] at ran
  refine (preserves_bind (processContractInfo_keeps _ _ ?_) fun _ => preserves_pure ()).of_ok ran
    ⟨chainDerived_withHistory, rfl⟩
  exact List.getLast?_concat

theorem pushHistory_mimics (indexed : t.chainDerived.Indexed)
    (same : wti.isIncome = wti'.isIncome) :
    Mimics (pushHistory W b tx amount td wti) (pushHistory W b tx amount td wti') s t
      fun _ _ _ _ => True := by
  have part (w : Wallet) (wti : WalletTransferInfo) (att : List PayloadItem) :
      (w.withHistory (filledWti W b tx amount td wti att)).chainDerived.history.getLast? =
        some (filledWti W b tx amount td wti att).chainPart := by
    rw [chainDerived_withHistory]
    exact List.getLast?_concat
  have sameParts : (filledWti W b tx amount td wti
      (decryptedFor W wti'.isIncome tx td)).chainPart = (filledWti W b tx amount td wti'
        (decryptedFor W wti'.isIncome tx td)).chainPart := by
    rw [filledWti_part, filledWti_part, same]
  intro value s' ran
  rw [pushHistory_eq, same] at ran
  obtain ⟨handled, middle, first, _⟩ := bind_ok.mp ran
  obtain ⟨answer, t', other, _⟩ := processContractInfo_mimics
    (t := t.withHistory (filledWti W b tx amount td wti' (decryptedFor W wti'.isIncome tx td))) _ _
    (by rw [chainDerived_withHistory]; exact indexed) sameParts (part _ _ _) handled middle first
  exact ⟨(), t', by rw [pushHistory_eq, bind_of_ok other]; rfl, trivial⟩

/-- The entries that a transaction adds to the history. -/
def historyParts (W : WalletEnv) (b : Block) (tx : Transaction) (derivation : KeyDerivation)
    (spent got : Nat) (mtd : MoneyTransfer2Details) : List (Transaction × Nat × Bool) :=
  if spent ≠ 0 then [(tx, getBlockHeight b, !decide (got < spent))]
  else if got ≠ 0 ∨ isDerivationUsedToEncrypt W tx derivation = true then
    [(tx, getBlockHeight b, true)]
  else if mtd.spentIndices ≠ [] then [(tx, getBlockHeight b, false)]
  else []

theorem recordTransfer_ok {derivation : KeyDerivation} {spent got : Nat}
    {recipients : List String × List String} {result : Unit}
    (ran : recordTransfer W b tx derivation spent got td recipients w = .ok result w') :
    ChainIs { w.chainDerived with
      history := w.chainDerived.history ++ historyParts W b tx derivation spent got td }
      w.multisigTransfers w' := by
  unfold recordTransfer at ran
  unfold historyParts
  by_cases spends : spent ≠ 0
  · rw [if_pos spends] at ran ⊢
    by_cases more : got < spent
    · rw [if_pos more] at ran
      rw [decide_eq_true more]
      exact pushHistory_ok ran
    · rw [if_neg more] at ran
      rw [decide_eq_false more]
      exact pushHistory_ok ran
  · rw [if_neg spends] at ran ⊢
    by_cases brings : got ≠ 0
    · rw [if_pos brings] at ran
      rw [if_pos (.inl brings)]
      exact pushHistory_ok ran
    · rw [if_neg brings] at ran
      by_cases encrypted : isDerivationUsedToEncrypt W tx derivation = true
      · rw [if_pos encrypted] at ran
        rw [if_pos (.inr encrypted)]
        exact pushHistory_ok ran
      · rw [if_neg encrypted] at ran
        rw [if_neg (by rintro (holds | holds) <;> contradiction)]
        by_cases names : td.spentIndices ≠ []
        · rw [if_pos names] at ran ⊢
          exact pushHistory_ok ran
        · rw [if_neg names] at ran ⊢
          obtain ⟨_, rfl⟩ := pure_ok.mp ran
          exact ⟨by rw [List.append_nil], rfl⟩

theorem recordTransfer_mimics {derivation : KeyDerivation} {spent got : Nat}
    (recipients recipients' : List String × List String) (indexed : t.chainDerived.Indexed) :
    Mimics (recordTransfer W b tx derivation spent got td recipients)
      (recordTransfer W b tx derivation spent got td recipients') s t fun _ _ _ _ => True := by
  unfold recordTransfer
  split
  · split
    · exact pushHistory_mimics indexed rfl
    · exact pushHistory_mimics indexed rfl
  · split
    · exact pushHistory_mimics indexed rfl
    · split
      · exact pushHistory_mimics indexed rfl
      · split
        · exact pushHistory_mimics indexed rfl
        · exact mimics_pure trivial

end History

end Virie.Wallet
