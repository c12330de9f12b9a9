import Virie.Amounts
import Virie.Escrow.Validation
import Virie.MultisigSigning

/-! # What validated escrow templates pay

The validators add amounts that the counterparty has chosen in 64-bit words. What they let pass is
compared here with the exact sums: a proposal whose sums wrap around may be accepted with too
little money in it, and a release that passes may be one that no node accepts. The exact
conditions bound the sums. -/

open Foundation

namespace Virie.Wallet

section Amounts

variable (R : EscrowReading)

/-! ## Exact amounts -/

/-- The three amounts of a contract together. -/
def ContractPrivateDetails.total (cpd : ContractPrivateDetails) : Nat :=
  cpd.amountAPledge + cpd.amountBPledge + cpd.amountToPay

/-- The amounts of the key outputs. -/
def keyAmounts (outs : List TxOut) : List Nat :=
  (outs.filter fun out => !out.isMultisig).map TxOut.amount

/-- The amount of the first multisig output. -/
def multisigAmount (tx : TransactionPrefix) : Nat :=
  (tx.vout[getMultisigOutIndex tx.vout]?.map TxOut.amount).getD 0

/-- What an output with a number pays to a party. -/
def partyAmount (der : KeyDerivation) (spendPublicKey : PublicKey) (i : Nat) (out : TxOut) : Nat :=
  match out.target with
  | .toKey otk =>
    if R.derivePublicKey der i spendPublicKey = some otk.key then out.amount else 0
  | .multisig _ => 0

/-- What outputs pay to a party, the first of them having a number. -/
def partyAmounts (der : KeyDerivation) (spendPublicKey : PublicKey) (first : Nat)
    (outs : List TxOut) : List Nat :=
  (outs.zipIdx first).map fun item => partyAmount R der spendPublicKey item.2 item.1

/-- What an output pays to the null key. -/
def nullAmount (out : TxOut) : Nat :=
  match out.target with
  | .toKey otk => if otk.key = nullPkey then out.amount else 0
  | .multisig _ => 0

/-- What the outputs of a template pay to an address, as the holder of the view key finds it. -/
def paidTo (keys : AccountKeys) (tx : Transaction) (addr : AccountPublicAddress) : Nat :=
  ((R.generateKeyDerivation tx.getTxPubKeyFromExtra keys.viewSecretKey).map fun der =>
    (partyAmounts R der addr.spendPublicKey 0 tx.vout).sum).getD 0

/-- What the outputs of a template burn. -/
def burnt (tx : TransactionPrefix) : Nat := (tx.vout.map nullAmount).sum

/-! ## What the validators promise -/

/-- The exact amounts of a proposal suffice for its contract. -/
structure ProposalFunded (template : Transaction) (cpd : ContractPrivateDetails) : Prop where
  multisig : ∀ out ∈ template.vout, out.isMultisig = true → cpd.total + txDefaultFee ≤ out.amount
  inputs : cpd.amountAPledge + cpd.amountToPay + (keyAmounts template.vout).sum ≤
    template.inputTotal

/-- A template passes the checks of a transaction, and so does what comes of signing it. -/
def PassesSigned (E : Env) (keys : AccountKeys) (sourceTx template : Transaction) : Prop :=
  checkTxSemantic E template.toTransactionPrefix = true ∧ ∀ full after,
    signMultisigInputInTx E R.toSigning 0 sourceTx keys template = .ok full after →
      checkTxSemantic E after.toTransactionPrefix = true

/-- The releases of an acceptance pay the party A and burn what they should, and pass. -/
structure ReleasesSound (E : Env) (keys : AccountKeys) (sourceTx : Transaction)
    (cpd : ContractPrivateDetails) (rtb : EscrowReleaseTemplatesBody) : Prop where
  paysA : cpd.amountAPledge ≤ paidTo R keys rtb.txNormalTemplate cpd.aAddr
  burns : burnt rtb.txBurnTemplate.toTransactionPrefix = cpd.total
  normal : PassesSigned R E keys sourceTx rtb.txNormalTemplate
  burn : PassesSigned R E keys sourceTx rtb.txBurnTemplate

/-- The release of a cancellation pays the party B what it should, and passes. -/
structure CancelSound (E : Env) (keys : AccountKeys) (sourceTx : Transaction)
    (cpd : ContractPrivateDetails) (tx : Transaction) : Prop where
  paysB : cpd.amountBPledge ≤ paidTo R keys tx cpd.bAddr
  passes : PassesSigned R E keys sourceTx tx

/-- The sums of a proposal stay words, or those of its inputs wrap around as often as those of
its key outputs. -/
def ProposalFits (template : Transaction) (cpd : ContractPrivateDetails) : Prop :=
  cpd.total + txDefaultFee < 2 ^ 64 ∧
    (keyAmounts template.vout).sum / 2 ^ 64 ≤ template.inputTotal / 2 ^ 64

/-- The outputs and the extra field of a template pass on their own, and the outputs exceed its
input by less than half of the range of a word. -/
def TemplateFits (E : Env) (tx : TransactionPrefix) (amount : Nat) : Prop :=
  tx.checkOutsValid E = true ∧ tx.checkTxExtra = true ∧ tx.outputTotal < amount + 2 ^ 63

end Amounts

/-! ## Proposals -/

section Proposals

variable {E : Env} {R : EscrowReading} {keys : AccountKeys}

theorem proposalInput_amount {template : Transaction} {input : Txin} {amount : Nat}
    (passed : proposalInput template input = some amount) : amount = input.amount := by
  cases input with
  | gen height => cases passed
  | multisig input => cases passed
  | toKey input =>
    simp only [proposalInput, Option.bind_eq_bind, Option.bind_eq_some_iff, Option.guard_eq_some',
      Option.pure_def, Option.some.injEq] at passed
    obtain ⟨_, _, _, _, _, _, same⟩ := passed
    exact same.symm

theorem proposalInputsAmount_eq {template : Transaction} {amount : Nat}
    (passed : proposalInputsAmount template = some amount) :
    amount = template.inputTotal % 2 ^ 64 := by
  simp only [proposalInputsAmount, Option.bind_eq_bind, Option.bind_eq_some_iff, Option.pure_def,
    Option.some.injEq] at passed
  obtain ⟨amounts, read, rfl⟩ := passed
  have same : amounts = template.vin.map Txin.amount := by
    generalize template.vin = inputs at read
    induction inputs generalizing amounts with
    | nil =>
      cases read
      rfl
    | cons input rest ih =>
      simp only [List.mapM_cons, Option.bind_eq_bind, Option.bind_eq_some_iff, Option.pure_def,
        Option.some.injEq] at read
      obtain ⟨amount, first, others, later, rfl⟩ := read
      rw [List.map_cons, ← proposalInput_amount first, ih others later]
  rw [same, sumU64, TransactionPrefix.inputTotal]

theorem keyAmounts_cons_multisig {out : TxOut} {rest : List TxOut} {ms : TxoutMultisig}
    (target : out.target = .multisig ms) : keyAmounts (out :: rest) = keyAmounts rest := by
  simp only [keyAmounts, List.filter_cons, TxOut.isMultisig, target, Bool.not_true,
    Bool.false_eq_true, ↓reduceIte]

theorem keyAmounts_cons_toKey {out : TxOut} {rest : List TxOut} {otk : TxoutToKey}
    (target : out.target = .toKey otk) :
    keyAmounts (out :: rest) = out.amount :: keyAmounts rest := by
  simp only [keyAmounts, List.filter_cons, TxOut.isMultisig, target, Bool.not_false, ↓reduceIte,
    List.map_cons]

/-- After the multisig output only key outputs follow. -/
theorem scanProposalOuts_found {outs : List TxOut} {i total number money : Nat}
    {result : Option Nat}
    (passed : scanProposalOuts i outs (money, some number) = some (total, result)) :
    total = (keyAmounts outs).foldl addU64 money ∧ result = some number ∧
      ∀ out ∈ outs, out.isMultisig = false := by
  induction outs generalizing i money with
  | nil =>
    cases passed
    exact ⟨rfl, rfl, fun _ member => by cases member⟩
  | cons out rest ih =>
    unfold scanProposalOuts at passed
    cases target : out.target with
    | multisig ms =>
      rw [target] at passed
      cases passed
    | toKey otk =>
      rw [target] at passed
      obtain ⟨sum, same, keys⟩ := ih passed
      rw [keyAmounts_cons_toKey target, List.foldl_cons]
      refine ⟨sum, same, fun other member => ?_⟩
      rcases List.mem_cons.mp member with rfl | later
      · simp only [TxOut.isMultisig, target]
      · exact keys other later

/-- The scan adds up the key outputs and finds the only multisig output. -/
theorem scanProposalOuts_ok {outs : List TxOut} {i total number money : Nat}
    (passed : scanProposalOuts i outs (money, none) = some (total, some number)) :
    total = (keyAmounts outs).foldl addU64 money ∧ i ≤ number ∧
      ∀ out ∈ outs, out.isMultisig = true → outs[number - i]? = some out := by
  induction outs generalizing i money with
  | nil => cases passed
  | cons out rest ih =>
    unfold scanProposalOuts at passed
    cases target : out.target with
    | multisig ms =>
      rw [target] at passed
      obtain ⟨sum, same, keys⟩ := scanProposalOuts_found passed
      cases same
      rw [keyAmounts_cons_multisig target]
      refine ⟨sum, Nat.le_refl _, fun other member multisig => ?_⟩
      rw [Nat.sub_self]
      rcases List.mem_cons.mp member with rfl | later
      · rfl
      · rw [keys other later] at multisig
        cases multisig
    | toKey otk =>
      rw [target] at passed
      obtain ⟨sum, bound, only⟩ := ih passed
      rw [keyAmounts_cons_toKey target, List.foldl_cons]
      refine ⟨sum, by omega, fun other member multisig => ?_⟩
      rcases List.mem_cons.mp member with rfl | later
      · simp only [TxOut.isMultisig, target, Bool.false_eq_true] at multisig
      · rw [show number - i = number - (i + 1) + 1 by omega, List.getElem?_cons_succ]
        exact only other later multisig

/-- What a proposal that passes has been checked for. -/
theorem validateEscrowProposal_ok {isIncome : Bool} {tx : Transaction} {prop : ProposalBody}
    {items : List PayloadItem} {msId : Hash} {cpd : ContractPrivateDetails}
    (accepted : validateEscrowProposal E R keys isIncome tx prop = some (items, msId, cpd)) :
    ∃ msOut, msOut ∈ prop.txTemplate.vout ∧ msOut.isMultisig = true ∧
      (∀ out ∈ prop.txTemplate.vout, out.isMultisig = true → out = msOut) ∧
      proposalAmountsValid cpd msOut.amount (prop.txTemplate.inputTotal % 2 ^ 64)
        ((keyAmounts prop.txTemplate.vout).sum % 2 ^ 64) = true := by
  simp only [validateEscrowProposal, Option.bind_eq_bind, Option.bind_eq_some_iff,
    Option.guard_eq_some'] at accepted
  obtain ⟨_, _, _, _, _, _, inputsAmount, read, details, _, loaded, _, _, _, _, _, _, _,
    ⟨toKeyOutputsAmount, found⟩, scanned, number, rfl, msOut, present, passed⟩ := accepted
  obtain ⟨sum, _, only⟩ := scanProposalOuts_ok scanned
  cases target : msOut.target with
  | toKey otk =>
    rw [target] at passed
    cases passed
  | multisig ms =>
    rw [target] at passed
    simp only [Option.bind_eq_some_iff, Option.guard_eq_some', Option.pure_def,
      Option.some.injEq, Prod.mk.injEq] at passed
    obtain ⟨_, _, _, amounts, _, _, rfl⟩ := passed
    have multisig : msOut.isMultisig = true := by simp only [TxOut.isMultisig, target]
    refine ⟨msOut, List.mem_of_getElem? present, multisig, fun out member also => ?_, ?_⟩
    · have placed := only out member also
      rw [Nat.sub_zero, present] at placed
      exact (Option.some.inj placed).symm
    · rw [← proposalInputsAmount_eq read, ← sumU64, ← sum]
      exact amounts

/-- An accepted proposal is funded exactly when its sums fit. -/
theorem proposalFunded_iff {isIncome : Bool} {tx : Transaction} {prop : ProposalBody}
    {items : List PayloadItem} {msId : Hash} {cpd : ContractPrivateDetails}
    (accepted : validateEscrowProposal E R keys isIncome tx prop = some (items, msId, cpd))
    (words : prop.txTemplate.WordAmounts) :
    ProposalFunded prop.txTemplate cpd ↔ ProposalFits prop.txTemplate cpd := by
  obtain ⟨msOut, member, multisig, only, amounts⟩ := validateEscrowProposal_ok accepted
  have word := words.outputs msOut member
  simp only [proposalAmountsValid, Bool.and_eq_true, decide_eq_true_eq] at amounts
  obtain ⟨⟨⟨_, covered⟩, above⟩, funded⟩ := amounts
  simp only [minMsAmount, addU64] at covered funded
  constructor
  · intro sound
    have enough := sound.multisig msOut member multisig
    have paid := sound.inputs
    exact ⟨by omega, Nat.div_le_div_right (by omega)⟩
  · rintro ⟨fits, wraps⟩
    unfold ContractPrivateDetails.total at fits
    refine ⟨fun out inside also => ?_, ?_⟩
    · rw [only out inside also, ContractPrivateDetails.total]
      omega
    · omega

end Proposals

/-! ## Releases -/

section Releases

variable {E : Env} {R : EscrowReading} {keys : AccountKeys} {tx : Transaction}

/-- The scan of the outputs adds up all of them, those for the party, and some of those for the
null key. -/
theorem scanReleaseOuts_ok {der : KeyDerivation} {spend : PublicKey} {outs : List TxOut} {i : Nat}
    {paid result : ReleasePayments}
    (passed : scanReleaseOuts R der spend i outs paid = some result) :
    ∃ toParty toNull : List Nat,
      result = ⟨(outs.map TxOut.amount).foldl addU64 paid.totalOutputsAmount,
        toParty.foldl addU64 paid.outputsToPartyAmount,
        toNull.foldl addU64 paid.outputsToNullAddrAmount⟩ ∧
      toParty.sum = (partyAmounts R der spend i outs).sum ∧
      toNull.sum ≤ (outs.map nullAmount).sum := by
  induction outs generalizing i paid with
  | nil =>
    cases passed
    exact ⟨[], [], rfl, rfl, Nat.le_refl _⟩
  | cons out rest ih =>
    unfold scanReleaseOuts at passed
    cases target : out.target with
    | multisig ms =>
      rw [target] at passed
      cases passed
    | toKey otk =>
      rw [target] at passed
      simp only [Option.bind_eq_bind, Option.bind_eq_some_iff] at passed
      obtain ⟨ephemeralPubKey, derived, later⟩ := passed
      obtain ⟨toParty, toNull, rfl, party, null⟩ := ih later
      have nullHere : nullAmount out = if otk.key = nullPkey then out.amount else 0 := by
        simp only [nullAmount, target]
      have partyHere : partyAmount R der spend i out =
          if ephemeralPubKey = otk.key then out.amount else 0 := by
        simp only [partyAmount, target, derived, Option.some.injEq]
      simp only [partyAmounts, List.zipIdx_cons, List.map_cons, List.sum_cons, nullHere,
        partyHere] at party null ⊢
      by_cases own : otk.key = ephemeralPubKey
      · refine ⟨out.amount :: toParty, toNull, ?_, ?_, by omega⟩
        · simp only [ReleasePayments.pay, own, ↓reduceIte, List.foldl_cons]
        · rw [if_pos own.symm, List.sum_cons, party]
      · by_cases nobody : otk.key = nullPkey
        · refine ⟨toParty, out.amount :: toNull, ?_, ?_, ?_⟩
          · simp only [ReleasePayments.pay, if_neg own, if_pos nobody, List.foldl_cons]
          · rw [if_neg (Ne.symm own), Nat.zero_add, party]
          · rw [if_pos nobody, List.sum_cons]
            omega
        · refine ⟨toParty, toNull, ?_, ?_, by omega⟩
          · simp only [ReleasePayments.pay, if_neg own, if_neg nobody, List.foldl_cons]
          · rw [if_neg (Ne.symm own), Nat.zero_add, party]

/-- The payments of a template are the exact ones, reduced to words. -/
theorem releasePayments_ok {partyAddr : AccountPublicAddress} {paid : ReleasePayments}
    (passed : releasePayments R keys tx partyAddr = some paid) :
    paid.totalOutputsAmount = tx.outputTotal % 2 ^ 64 ∧
      paid.outputsToPartyAmount = paidTo R keys tx partyAddr % 2 ^ 64 ∧
      ∃ toNull ≤ burnt tx.toTransactionPrefix,
        paid.outputsToNullAddrAmount = toNull % 2 ^ 64 := by
  simp only [releasePayments, Option.bind_eq_bind, Option.bind_eq_some_iff] at passed
  obtain ⟨der, generated, scanned⟩ := passed
  obtain ⟨toParty, toNull, rfl, party, null⟩ := scanReleaseOuts_ok scanned
  refine ⟨sumU64 _, ?_, toNull.sum, null, sumU64 _⟩
  rw [paidTo, generated, Option.map_some, Option.getD_some, ← party]
  exact sumU64 _

theorem burnt_le (tx : TransactionPrefix) : burnt tx ≤ tx.outputTotal := by
  refine List.sum_le_sum fun out _ => ?_
  unfold nullAmount
  split
  · split
    · exact Nat.le_refl _
    · exact Nat.zero_le _
  · exact Nat.zero_le _

theorem releaseFeeValid_ok {amount total fee : Nat} (small : fee < 2 ^ 63)
    (valid : releaseFeeValid amount total fee = true) :
    fee ≤ subU64 amount total ∧ subU64 amount total < 2 ^ 63 := by
  rw [releaseFeeValid, decide_eq_true_eq, toInt64, toInt64, if_pos small] at valid
  have word : subU64 amount total < 2 ^ 64 := Nat.mod_lt _ (by decide)
  by_cases low : subU64 amount total < 2 ^ 63
  · rw [if_pos low] at valid
    omega
  · rw [if_neg low] at valid
    omega

/-- When a fee passes, the outputs are covered unless they exceed the input by half of the range
of a word. -/
theorem covered_iff {amount total fee : Nat} (word : amount < 2 ^ 64) (small : fee < 2 ^ 63)
    (valid : releaseFeeValid amount (total % 2 ^ 64) fee = true) :
    total ≤ amount ↔ total < amount + 2 ^ 63 := by
  have bounds := (releaseFeeValid_ok small valid).2
  unfold subU64 at bounds
  omega

/-- A fee that passes is taken from the input. -/
theorem amount_pos {amount total fee : Nat} (positive : 0 < fee) (small : fee < 2 ^ 63)
    (valid : releaseFeeValid amount (total % 2 ^ 64) fee = true)
    (bound : total < amount + 2 ^ 63) : 0 < amount := by
  obtain ⟨least, bounds⟩ := releaseFeeValid_ok small valid
  unfold subU64 at least bounds
  omega

/-- The checks of a transaction whose only input spends a multisig output. -/
theorem checkTxSemantic_iff {ms : TxinMultisig} (input : tx.vin = [.multisig ms])
    (words : tx.WordAmounts) :
    checkTxSemantic E tx.toTransactionPrefix = true ↔
      tx.checkOutsValid E = true ∧ tx.checkTxExtra = true ∧ 0 < ms.amount ∧
        tx.outputTotal ≤ ms.amount := by
  have word : ms.amount < 2 ^ 64 := words.inputs (.multisig ms) (by rw [input]; exact .head _)
  constructor
  · intro semantic
    have totals := totals_lt words semantic
    simp only [checkTxSemantic, Bool.and_eq_true] at semantic
    obtain ⟨⟨⟨⟨⟨_, valid⟩, _⟩, covered⟩, _⟩, extra⟩ := semantic
    refine ⟨valid, extra, ?_⟩
    cases sum : tx.getInputsMoneyAmount with
    | none =>
      rw [sum] at covered
      cases covered
    | some amount =>
      rw [sum] at covered
      obtain ⟨same, positive⟩ := getInputsMoneyAmount_some sum
      have first := positive (.multisig ms) (by rw [input]; exact .head _)
      have whole : tx.inputTotal = ms.amount := by
        rw [TransactionPrefix.inputTotal, input]
        rfl
      rw [getOutsMoneyAmount_eq, decide_eq_true_eq, same, whole,
        Nat.mod_eq_of_lt totals.2, Nat.mod_eq_of_lt word] at covered
      exact ⟨Nat.pos_of_ne_zero first, covered⟩
  · rintro ⟨valid, extra, positive, covered⟩
    have outs : tx.checkOutsOverflow = true :=
      sumsWithoutOverflow_of_lt (by
        rw [Nat.zero_add]
        exact Nat.lt_of_le_of_lt covered word)
    have ins : tx.checkInputsOverflow = true := by
      simp only [TransactionPrefix.checkInputsOverflow, input, List.all_cons, List.all_nil,
        Txin.isGen, List.map_cons, List.map_nil, Bool.not_false, Bool.and_self, Bool.true_and]
      exact sumsWithoutOverflow_of_lt (by
        rw [List.sum_cons, List.sum_nil, Nat.zero_add, Nat.add_zero]
        exact word)
    have sum : tx.getInputsMoneyAmount = some ms.amount := by
      simp only [TransactionPrefix.getInputsMoneyAmount, input, List.foldlM_cons, List.foldlM_nil,
        Txin.amount, if_neg (Nat.ne_of_gt positive), addU64, Nat.zero_add,
        Nat.mod_eq_of_lt word]
      rfl
    have small : tx.getOutsMoneyAmount ≤ ms.amount := by
      rw [getOutsMoneyAmount_eq]
      exact Nat.le_trans (Nat.mod_le _ _) covered
    have images : tx.checkTxInputsKeyimagesDiff = true := by
      simp only [TransactionPrefix.checkTxInputsKeyimagesDiff, TransactionPrefix.keyImages, input,
        List.filterMap_cons, List.filterMap_nil, Txin.spentKeyImage, List.nodup_nil, decide_true]
    simp only [checkTxSemantic, TransactionPrefix.checkMoneyOverflow, valid, outs, ins, sum, small,
      images, extra, TransactionPrefix.checkInputsTypesSupported, input, List.all_cons,
      List.all_nil, Txin.isGen, List.isEmpty_cons, decide_true, Bool.not_false, Bool.and_self]

/-- Signing an input changes nothing that a transaction is checked for. -/
theorem signMultisigInputInTx_keepsPrefix {S : Signing} {index : Nat} {sourceTx after : Transaction}
    {full : Bool} (signed : signMultisigInputInTx E S index sourceTx keys tx = .ok full after) :
    after.toTransactionPrefix = tx.toTransactionPrefix := by
  obtain ⟨_, _, _, _, _, _, _, _, _, _, _, _, _, _, _, _, _, rfl⟩ := signMultisigInputInTx_ok signed
  rfl

theorem passesSigned_iff {sourceTx : Transaction} :
    PassesSigned R E keys sourceTx tx ↔ checkTxSemantic E tx.toTransactionPrefix = true := by
  refine ⟨fun both => both.1, fun passes => ⟨passes, fun full after signed => ?_⟩⟩
  rw [signMultisigInputInTx_keepsPrefix signed]
  exact passes

/-- What a template has been checked for, apart from its signatures and its extra field. -/
structure TemplateChecked (R : EscrowReading) (keys : AccountKeys) (tx : Transaction)
    (partyAddr : AccountPublicAddress) (amount fee : Nat) (paid : ReleasePayments) : Prop where
  input : ∃ ms : TxinMultisig, tx.vin = [.multisig ms] ∧ ms.amount = amount
  payments : releasePayments R keys tx partyAddr = some paid
  feeValid : releaseFeeValid amount paid.totalOutputsAmount fee = true

theorem releaseInput_ok {cpd : ContractPrivateDetails} {sourceMsOut : TxoutMultisig}
    {sourceAmount fee : Nat} {msId : Hash} {ms : TxinMultisig}
    (passed : releaseInput tx cpd sourceMsOut sourceAmount msId fee = some ms) :
    tx.vin = [.multisig ms] ∧ ms.amount = sourceAmount := by
  unfold releaseInput at passed
  split at passed
  · next input vin =>
    simp only [Option.bind_eq_bind, Option.bind_eq_some_iff, Option.guard_eq_some',
      Option.pure_def, Option.some.injEq] at passed
    obtain ⟨_, _, _, _, _, _, _, amount, _, _, _, _, _, _, rfl⟩ := passed
    exact ⟨vin, amount⟩
  · cases passed

namespace TemplateChecked

variable {partyAddr : AccountPublicAddress} {amount fee : Nat} {paid : ReleasePayments}

/-- The outputs of a checked template are covered when they stay in range. -/
theorem covered (checked : TemplateChecked R keys tx partyAddr amount fee paid)
    (words : tx.WordAmounts) (small : fee < 2 ^ 63) :
    tx.outputTotal ≤ amount ↔ tx.outputTotal < amount + 2 ^ 63 := by
  obtain ⟨ms, vin, rfl⟩ := checked.input
  have valid := checked.feeValid
  rw [(releasePayments_ok checked.payments).1] at valid
  exact covered_iff (words.inputs (.multisig ms) (by rw [vin]; exact .head _)) small valid

/-- A checked template passes exactly when it fits and its input has an amount. -/
theorem passes_iff (checked : TemplateChecked R keys tx partyAddr amount fee paid)
    (words : tx.WordAmounts) (small : fee < 2 ^ 63) {sourceTx : Transaction} :
    PassesSigned R E keys sourceTx tx ↔
      TemplateFits E tx.toTransactionPrefix amount ∧ 0 < amount := by
  have covers := checked.covered words small
  obtain ⟨ms, vin, rfl⟩ := checked.input
  rw [passesSigned_iff, checkTxSemantic_iff vin words, covers, TemplateFits]
  tauto

theorem word (checked : TemplateChecked R keys tx partyAddr amount fee paid)
    (words : tx.WordAmounts) : amount < 2 ^ 64 := by
  obtain ⟨ms, vin, rfl⟩ := checked.input
  exact words.inputs (.multisig ms) (by rw [vin]; exact .head _)

/-- With a fee, a template that fits has an input with an amount. -/
theorem fits_pos (checked : TemplateChecked R keys tx partyAddr amount fee paid)
    (positive : 0 < fee) (small : fee < 2 ^ 63)
    (fits : TemplateFits E tx.toTransactionPrefix amount) : 0 < amount := by
  have valid := checked.feeValid
  rw [(releasePayments_ok checked.payments).1] at valid
  exact amount_pos positive small valid fits.2.2

/-- The releases of either type pass when they fit. -/
theorem release_iff (checked : TemplateChecked R keys tx partyAddr amount txDefaultFee paid)
    (words : tx.WordAmounts) {sourceTx : Transaction} :
    PassesSigned R E keys sourceTx tx ↔ TemplateFits E tx.toTransactionPrefix amount := by
  rw [checked.passes_iff words (by decide)]
  exact and_iff_left_of_imp (checked.fits_pos (by decide) (by decide))

/-- A burning release that stays in range burns the three amounts, when these sum up to a word. -/
theorem burnt_eq (checked : TemplateChecked R keys tx partyAddr amount fee paid)
    (words : tx.WordAmounts) (small : fee < 2 ^ 63) {cpd : ContractPrivateDetails}
    (valid : releaseAmountsValid false cpd paid = true) (total : cpd.total < 2 ^ 64)
    (bound : tx.outputTotal < amount + 2 ^ 63) : burnt tx.toTransactionPrefix = cpd.total := by
  have within := (checked.covered words small).mpr bound
  have word := checked.word words
  obtain ⟨sum, _, toNull, part, null⟩ := releasePayments_ok checked.payments
  have whole := burnt_le tx.toTransactionPrefix
  unfold releaseAmountsValid at valid
  rw [if_neg Bool.false_ne_true, Bool.and_eq_true, decide_eq_true_eq, decide_eq_true_eq, sum,
    null] at valid
  obtain ⟨all, expected⟩ := valid
  unfold ContractPrivateDetails.total at total ⊢
  unfold addU64 at expected
  omega

/-- A party gets at least what the words of a checked template say. -/
theorem paidTo_ge (checked : TemplateChecked R keys tx partyAddr amount fee paid) :
    paid.outputsToPartyAmount ≤ paidTo R keys tx partyAddr := by
  rw [(releasePayments_ok checked.payments).2.1]
  exact Nat.mod_le _ _

end TemplateChecked

theorem validateEscrowRelease_ok {normal : Bool} {cpd : ContractPrivateDetails}
    {sourceMsOut : TxoutMultisig} {msId : Hash} {n amount : Nat} {sourceTx : Transaction}
    (accepted : validateEscrowRelease E R keys tx normal cpd sourceMsOut msId n sourceTx amount =
      some ()) :
    ∃ paid, TemplateChecked R keys tx cpd.aAddr amount txDefaultFee paid ∧
      releaseAmountsValid normal cpd paid = true := by
  simp only [validateEscrowRelease, Option.bind_eq_bind, Option.bind_eq_some_iff,
    Option.guard_eq_some'] at accepted
  obtain ⟨ms, input, _, _, paid, payments, _, amounts, _, feeValid, _⟩ := accepted
  obtain ⟨vin, rfl⟩ := releaseInput_ok input
  exact ⟨paid, ⟨⟨ms, vin, rfl⟩, payments, feeValid⟩, amounts⟩

/-- Both templates of an acceptance that the party A validates are checked. -/
theorem validateEscrowContract_ok {cpd : ContractPrivateDetails} {items : List PayloadItem}
    {msId : Hash} {rtb : EscrowReleaseTemplatesBody}
    (accepted : validateEscrowContract E R keys tx cpd true items = some (msId, rtb)) :
    (∃ paid, TemplateChecked R keys rtb.txNormalTemplate cpd.aAddr
        (multisigAmount tx.toTransactionPrefix) txDefaultFee paid ∧
        releaseAmountsValid true cpd paid = true) ∧
      ∃ paid, TemplateChecked R keys rtb.txBurnTemplate cpd.aAddr
        (multisigAmount tx.toTransactionPrefix) txDefaultFee paid ∧
        releaseAmountsValid false cpd paid = true := by
  simp only [validateEscrowContract, Option.bind_eq_bind, Option.bind_eq_some_iff] at accepted
  obtain ⟨out, present, passed⟩ := accepted
  have amount : multisigAmount tx.toTransactionPrefix = out.amount := by
    rw [multisigAmount, present]
    rfl
  rw [amount]
  cases target : out.target with
  | toKey otk =>
    rw [target] at passed
    cases passed
  | multisig ms =>
    rw [target] at passed
    simp only [Option.bind_eq_some_iff, Option.guard_eq_some', Option.pure_def,
      Option.some.injEq, Prod.mk.injEq] at passed
    obtain ⟨_, _, _, _, _, _, _, _, _, _, _, normal, _, burn, _, _, _, _, _, _, rfl, rfl⟩ := passed
    exact ⟨validateEscrowRelease_ok normal, validateEscrowRelease_ok burn⟩

/-- The releases of an acceptance that the party A validates are sound exactly when the three
amounts sum up to a word and both templates fit. -/
theorem releasesSound_iff {cpd : ContractPrivateDetails} {items : List PayloadItem}
    {msId : Hash} {rtb : EscrowReleaseTemplatesBody}
    (accepted : validateEscrowContract E R keys tx cpd true items = some (msId, rtb))
    (normalWords : rtb.txNormalTemplate.WordAmounts) (burnWords : rtb.txBurnTemplate.WordAmounts) :
    ReleasesSound R E keys tx cpd rtb ↔
      cpd.total < 2 ^ 64 ∧
        TemplateFits E rtb.txNormalTemplate.toTransactionPrefix
          (multisigAmount tx.toTransactionPrefix) ∧
        TemplateFits E rtb.txBurnTemplate.toTransactionPrefix
          (multisigAmount tx.toTransactionPrefix) := by
  obtain ⟨⟨normalPaid, normal, paysA⟩, burnPaid, burn, burns⟩ := validateEscrowContract_ok accepted
  constructor
  · intro sound
    have fits := (burn.release_iff burnWords).mp sound.burn
    have word := burn.word burnWords
    have within := (burn.covered burnWords (by decide)).mpr fits.2.2
    have whole := burnt_le rtb.txBurnTemplate.toTransactionPrefix
    rw [sound.burns] at whole
    exact ⟨by omega, (normal.release_iff normalWords).mp sound.normal, fits⟩
  · rintro ⟨total, normalFits, burnFits⟩
    refine ⟨?_, ?_, (normal.release_iff normalWords).mpr normalFits,
      (burn.release_iff burnWords).mpr burnFits⟩
    · exact Nat.le_trans (of_decide_eq_true paysA) normal.paidTo_ge
    · exact burn.burnt_eq burnWords (by decide) burns total burnFits.2.2

/-- The template of a cancellation that the party B validates is checked. -/
theorem validateEscrowCancelProposal_ok {fee : Nat} {ectb : EscrowCancelTemplatesBody}
    {items : List PayloadItem} {msId : Hash} {cpd : ContractPrivateDetails}
    {proposalTemplateTx : Transaction}
    (accepted : validateEscrowCancelProposal E R keys fee tx ectb items msId cpd
      proposalTemplateTx = some ())
    (isB : cpd.bAddr = keys.accountAddress) :
    ∃ paid, TemplateChecked R keys ectb.txCancelTemplate cpd.bAddr
      (multisigAmount proposalTemplateTx.toTransactionPrefix) fee paid ∧
      cpd.amountBPledge ≤ paid.outputsToPartyAmount := by
  simp only [validateEscrowCancelProposal, isB, decide_true, onlyFor, ↓reduceIte,
    Option.bind_eq_bind, Option.bind_eq_some_iff, Option.guard_eq_some'] at accepted
  obtain ⟨_, _, _, _, _, _, _, valid, _⟩ := accepted
  simp only [validateEscrowCancelRelease, Option.bind_eq_bind, Option.bind_eq_some_iff] at valid
  obtain ⟨out, present, passed⟩ := valid
  have amount : multisigAmount proposalTemplateTx.toTransactionPrefix = out.amount := by
    rw [multisigAmount, present]
    rfl
  rw [amount]
  cases target : out.target with
  | toKey otk =>
    rw [target] at passed
    cases passed
  | multisig sourceMsOut =>
    rw [target] at passed
    simp only [Option.bind_eq_some_iff, Option.guard_eq_some'] at passed
    obtain ⟨ms, input, _, _, paid, payments, _, paysB, _, feeValid, _⟩ := passed
    obtain ⟨vin, same⟩ := releaseInput_ok input
    rw [same] at feeValid
    exact ⟨paid, ⟨⟨ms, vin, same⟩, payments, feeValid⟩, paysB⟩

/-- The release of a cancellation that the party B validates is sound exactly when its template
fits and the multisig output has an amount. -/
theorem cancelSound_iff {fee : Nat} {ectb : EscrowCancelTemplatesBody}
    {items : List PayloadItem} {msId : Hash} {cpd : ContractPrivateDetails}
    {proposalTemplateTx : Transaction}
    (accepted : validateEscrowCancelProposal E R keys fee tx ectb items msId cpd
      proposalTemplateTx = some ())
    (isB : cpd.bAddr = keys.accountAddress) (small : fee < 2 ^ 63)
    (words : ectb.txCancelTemplate.WordAmounts) :
    CancelSound R E keys proposalTemplateTx cpd ectb.txCancelTemplate ↔
      TemplateFits E ectb.txCancelTemplate.toTransactionPrefix
          (multisigAmount proposalTemplateTx.toTransactionPrefix) ∧
        0 < multisigAmount proposalTemplateTx.toTransactionPrefix := by
  obtain ⟨paid, checked, paysB⟩ := validateEscrowCancelProposal_ok accepted isB
  rw [← checked.passes_iff words small]
  exact ⟨fun sound => sound.passes, fun passes =>
    ⟨Nat.le_trans paysB checked.paidTo_ge, passes⟩⟩

end Releases

/-- The three validators mean what they say in exact arithmetic exactly when the sums fit: those
of an accepted proposal, of the releases that the party A accepts, and of the cancellation that
the party B accepts. -/
theorem escrowValidation_sound_iff (E : Env) (R : EscrowReading) (keys : AccountKeys) :
    (∀ isIncome tx prop items msId cpd, prop.txTemplate.WordAmounts →
      validateEscrowProposal E R keys isIncome tx prop = some (items, msId, cpd) →
      (ProposalFunded prop.txTemplate cpd ↔ ProposalFits prop.txTemplate cpd)) ∧
    (∀ tx cpd items msId rtb, rtb.txNormalTemplate.WordAmounts → rtb.txBurnTemplate.WordAmounts →
      validateEscrowContract E R keys tx cpd true items = some (msId, rtb) →
      (ReleasesSound R E keys tx cpd rtb ↔ cpd.total < 2 ^ 64 ∧
        TemplateFits E rtb.txNormalTemplate.toTransactionPrefix
          (multisigAmount tx.toTransactionPrefix) ∧
        TemplateFits E rtb.txBurnTemplate.toTransactionPrefix
          (multisigAmount tx.toTransactionPrefix))) ∧
    ∀ (wallet : Wallet) tx ectb items msId cpd proposalTx, ectb.txCancelTemplate.WordAmounts →
      cpd.bAddr = keys.accountAddress →
      validateEscrowCancelProposal E R keys (getMinimumAllowedFeeForContract wallet msId) tx ectb
        items msId cpd proposalTx = some () →
      (CancelSound R E keys proposalTx cpd ectb.txCancelTemplate ↔
        TemplateFits E ectb.txCancelTemplate.toTransactionPrefix
            (multisigAmount proposalTx.toTransactionPrefix) ∧
          0 < multisigAmount proposalTx.toTransactionPrefix) := by
  refine ⟨?_, ?_, ?_⟩
  · intro isIncome tx prop items msId cpd words accepted
    exact proposalFunded_iff accepted words
  · intro tx cpd items msId rtb normalWords burnWords accepted
    exact releasesSound_iff accepted normalWords burnWords
  · intro wallet tx ectb items msId cpd proposalTx words isB accepted
    refine cancelSound_iff accepted isB ?_ words
    have most : getMinimumAllowedFeeForContract wallet msId ≤ txMinimumFee := by
      unfold getMinimumAllowedFeeForContract
      split
      · exact Nat.min_le_right _ _
      · exact Nat.le_refl _
    exact Nat.lt_of_le_of_lt most (by decide)

/-! ## A contract -/

namespace Pledges

/-- The contract of the example: a payment of 1000000 with pledges of 500000. -/
def contract : ContractPrivateDetails where
  title := ""
  comment := ""
  aAddr := ⟨⟨5⟩, ⟨6⟩⟩
  bAddr := ⟨⟨20⟩, ⟨21⟩⟩
  amountToPay := 1000000
  amountAPledge := 500000
  amountBPledge := 500000

/-- A contract whose amounts and default fee sum up to one more than a word. -/
def wideContract : ContractPrivateDetails :=
  { contract with
    amountToPay := 1
    amountAPledge := 0
    amountBPledge := 2 ^ 64 - 1000000 }

def keysA : AccountKeys := ⟨contract.aAddr, ⟨5⟩, ⟨6⟩⟩
def keysB : AccountKeys := ⟨contract.bAddr, ⟨20⟩, ⟨21⟩⟩

/-- A service entry of the escrow service. -/
def service (instruction body : String) (flags : Nat) : PayloadItem :=
  .txServiceAttachment ⟨bcEscrowServiceId, instruction, body, [], flags⟩

/-- The template of a proposal whose contract is named by a body. -/
def template (body : String) : Transaction where
  version := 1
  vin := [.toKey ⟨4000000, [], ⟨1⟩, [.signedParts 1 4]⟩]
  vout := [⟨3000000, .multisig ⟨2, [⟨12⟩, ⟨27⟩]⟩⟩]
  extra := [.publicKey ⟨9⟩, service bcEscrowServiceInstructionPrivateDetails body 0,
    .etcTxDetailsFlags 1, .etcTxDetailsExpirationTime 100]
  signatures := []
  attachment := []

/-- A template that spends the multisig output. -/
def release (instruction : String) (vout : List TxOut) (extra : List PayloadItem)
    (signatures : List (List Signature)) : Transaction where
  version := 2
  vin := [.multisig ⟨3000000, ⟨3001009⟩, 2, []⟩]
  vout
  extra := [.publicKey ⟨9⟩, service instruction "" 0] ++ extra
  signatures
  attachment := []

def releases : EscrowReleaseTemplatesBody where
  txNormalTemplate := release bcEscrowServiceInstructionReleaseNormal
    [⟨500000, .toKey ⟨⟨12⟩, 0⟩⟩, ⟨1500000, .toKey ⟨⟨27⟩, 0⟩⟩] [] [[⟨0⟩, ⟨1⟩]]
  txBurnTemplate := release bcEscrowServiceInstructionReleaseBurn
    [⟨2000000, .toKey ⟨nullPkey, 0⟩⟩] [] [[⟨0⟩, ⟨1⟩]]

def cancellation : EscrowCancelTemplatesBody where
  txCancelTemplate := release bcEscrowServiceInstructionReleaseCancel
    [⟨500000, .toKey ⟨⟨27⟩, 0⟩⟩, ⟨1500000, .toKey ⟨⟨12⟩, 0⟩⟩] [.etcTxDetailsExpirationTime 100]
    [[⟨1⟩, ⟨0⟩]]

/-- Reads the body "wide" as the wide contract and all others as the contract of the example. -/
def reading : EscrowReading :=
  { plainSending with
    unpack := id
    loadPrivateDetails := fun body => some (if body = "wide" then wideContract else contract)
    unpackReleaseTemplates := fun _ => some releases }

/-- A transaction without unlock time, expiration time and flags. -/
def bare : Transaction := ⟨⟨3, [], [], []⟩, [], []⟩

theorem proposal_accepted :
    validateEscrowProposal Env.plain reading keysA false bare ⟨template "", ⟨9⟩⟩ =
      some ((template "").extra, ⟨3001009⟩, contract) := by
  decide +kernel

theorem contract_accepted :
    validateEscrowContract Env.plain reading keysA (template "") contract true
      [service bcEscrowServiceInstructionReleaseTemplates "" 1] =
      some (⟨3001009⟩, releases) := by
  decide +kernel

theorem cancellation_accepted :
    validateEscrowCancelProposal Env.plain reading keysB
      (getMinimumAllowedFeeForContract .new ⟨3001009⟩) bare cancellation
      [service bcEscrowServiceInstructionCancelProposal "" 1] ⟨3001009⟩ contract (template "") =
      some () := by
  decide +kernel

theorem escrowValidation_sound_contract :
    (ProposalFunded (template "") contract ↔ ProposalFits (template "") contract) ∧
      (ReleasesSound reading Env.plain keysA (template "") contract releases ↔
        contract.total < 2 ^ 64 ∧
          TemplateFits Env.plain releases.txNormalTemplate.toTransactionPrefix
            (multisigAmount (template "").toTransactionPrefix) ∧
          TemplateFits Env.plain releases.txBurnTemplate.toTransactionPrefix
            (multisigAmount (template "").toTransactionPrefix)) ∧
      (CancelSound reading Env.plain keysB (template "") contract cancellation.txCancelTemplate ↔
        TemplateFits Env.plain cancellation.txCancelTemplate.toTransactionPrefix
            (multisigAmount (template "").toTransactionPrefix) ∧
          0 < multisigAmount (template "").toTransactionPrefix) := by
  refine ⟨?_, ?_, ?_⟩
  · exact (escrowValidation_sound_iff Env.plain reading keysA).1 false bare ⟨template "", ⟨9⟩⟩ _ _
      contract (by decide) proposal_accepted
  · exact (escrowValidation_sound_iff Env.plain reading keysA).2.1 (template "") contract _ _
      releases (by decide) (by decide) contract_accepted
  · exact (escrowValidation_sound_iff Env.plain reading keysB).2.2 .new bare cancellation _ _
      contract (template "") (by decide) rfl cancellation_accepted

/-- A proposal of 3000000 is accepted for a contract whose amounts exceed all money there is:
their sum wraps around to one. -/
theorem escrowProposal_wrapped :
    ∃ items msId, validateEscrowProposal Env.plain reading keysA false bare
        ⟨template "wide", ⟨9⟩⟩ = some (items, msId, wideContract) ∧
      ¬ ProposalFunded (template "wide") wideContract := by
  refine ⟨(template "wide").extra, ⟨3001009⟩, by decide +kernel, fun funded => ?_⟩
  have enough := funded.multisig ⟨3000000, .multisig ⟨2, [⟨12⟩, ⟨27⟩]⟩⟩ (.head _) rfl
  exact absurd enough (by decide)

end Pledges

end Virie.Wallet
