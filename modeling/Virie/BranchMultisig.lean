import Virie.Storage.AltChain

/-! # Multisig inputs on a branch

A multisig input of an alternative block names an output of the main chain below the split
or of an alternative ancestor. The walk from the tip of the branch down to the ancestor that
made the output meets the spends above it; for an output of the main chain there is no walk,
and the inputs of the block itself are never compared with one another. The input is judged
as the branch demands exactly when the transactions it passes tell the whole story. -/

open Foundation

namespace Virie

section Branch

variable (E : Env) (node : Node) (id : Hash)

/-- Whether a transaction spends a multisig output. -/
def spendsMs (tx : Transaction) : Prop := id ∈ tx.multisigInputIds

instance (tx : Transaction) : Decidable (spendsMs id tx) :=
  inferInstanceAs (Decidable (_ ∈ _))

/-- The number of the output of a transaction that has a multisig id. -/
def msOutputNo (tx : Transaction) : Option Nat :=
  (List.range tx.vout.length).find? fun outN =>
    (match tx.vout[outN]? with
      | some ⟨_, .multisig _⟩ => true
      | _ => false) && getMultisigOutId E tx.toTransactionPrefix outN == id

/-- The transactions of some blocks, those of each block after its coinbase; `none` stands for one
that is neither in the pool nor in the main chain from the split on. -/
def branchTransactions (splitHeight : Nat) (blocks : List BlockExtendedInfo) :
    List (Option Transaction) :=
  blocks.flatMap fun bei => some bei.bl.minerTx ::
    bei.bl.txHashes.map fun txId => node.getTransactionFromPoolOrDb txId splitHeight

/-- An output, and the transactions of the branch that are passed on the way to it. -/
structure MsSource where
  tx : Transaction
  outNo : Nat
  passed : List (Option Transaction)

def MsSource.pass (item : Option Transaction) (source : MsSource) : MsSource :=
  { source with passed := item :: source.passed }

/-- The newest alternative output with a multisig id; its own transaction is passed as well. -/
def ancestorSource : List (Option Transaction) → Option MsSource
  | [] => none
  | none :: rest => (ancestorSource rest).map (MsSource.pass none)
  | some tx :: rest =>
    match msOutputNo E id tx with
    | some outNo => some ⟨tx, outNo, [some tx]⟩
    | none => (ancestorSource rest).map (MsSource.pass (some tx))

/-- The output of the main chain below the split with a multisig id. -/
def mainSource (splitHeight : Nat) : Option MsSource :=
  (node.chain.db.multisigOuts.get id).bind fun ms =>
    (node.chain.db.transactions.get ms.txId).bind fun entry =>
      if entry.keeperBlockHeight < splitHeight then some ⟨entry.tx, ms.outNo, []⟩ else none

/-- The output that a multisig id names on a branch. -/
def branchSource (splitHeight : Nat) (altChain : AltChain) : Option MsSource :=
  (mainSource node id splitHeight).or
    (ancestorSource E id (branchTransactions node splitHeight altChain.newestFirst))

/-- The main chain spent the output below the split. -/
def spentBelow (splitHeight : Nat) : Prop :=
  ∃ ms, node.chain.db.multisigOuts.get id = some ms ∧ ms.spentHeight ≠ 0 ∧
    ms.spentHeight < splitHeight

/-- An alternative ancestor spends the output. -/
def spentByAncestor (splitHeight : Nat) (altChain : AltChain) : Prop :=
  ∃ tx, some tx ∈ branchTransactions node splitHeight altChain.newestFirst ∧ spendsMs id tx

/-- A transaction at hand that leaves the output alone. -/
def PassedBy (item : Option Transaction) : Prop := ∃ tx, item = some tx ∧ ¬ spendsMs id tx

end Branch

/-! ## The walk -/

section Walk

variable (E : Env) (node : Node) (inputTx : Transaction) (inputTxHash : Hash) (inputIndex : Nat)
  (input : TxinMultisig) (splitHeight : Nat)

/-- The check of a multisig input against an output that it may name. -/
def checksSource (source : MsSource) : Bool :=
  checkMsInput E node.chain inputTx inputIndex input inputTxHash source.tx source.outNo

/-- Walk through transactions up to the source of a multisig input. -/
def walkToSource : List (Option Transaction) → Outcome Unit
  | [] => throw .refused
  | item :: rest => do
    let tx ← Outcome.demand .refused item
    if ← txAltchainChecker E node inputTx inputTxHash inputIndex input tx then pure ()
    else walkToSource rest

variable {E node inputTx inputTxHash inputIndex input splitHeight}

/-- A transaction of the branch stops the walk, is the source, or is passed. -/
theorem txAltchainChecker_eq (tx : Transaction) :
    txAltchainChecker E node inputTx inputTxHash inputIndex input tx =
      if spendsMs input.multisigOutId tx then .error .refused
      else (msOutputNo E input.multisigOutId tx).elim (.ok false) fun outN =>
        if checkMsInput E node.chain inputTx inputIndex input inputTxHash tx outN = true then
          .ok true
        else .error .refused := by
  unfold txAltchainChecker
  by_cases spends : spendsMs input.multisigOutId tx
  · have found : tx.multisigInputIds.contains input.multisigOutId = true :=
      List.contains_iff_mem.mpr spends
    rw [if_pos spends, found]
    rfl
  · have missing : tx.multisigInputIds.contains input.multisigOutId = false := by
      rw [Bool.eq_false_iff]
      exact fun found => spends (List.contains_iff_mem.mp found)
    rw [if_neg spends, missing]
    unfold msOutputNo
    generalize List.find? _ (List.range tx.vout.length) = found
    cases found with
    | none => rfl
    | some outN =>
      dsimp only [Option.elim_some]
      cases checkMsInput E node.chain inputTx inputIndex input inputTxHash tx outN with
      | true => rfl
      | false => rfl

theorem walk_txs (txIds : List Hash) (rest : List (Option Transaction)) :
    (do
      if ← findMsOutputInTxs E node inputTx inputTxHash inputIndex input splitHeight txIds then
        pure ()
      else walkToSource E node inputTx inputTxHash inputIndex input rest) =
      walkToSource E node inputTx inputTxHash inputIndex input
        ((txIds.map fun txId => node.getTransactionFromPoolOrDb txId splitHeight) ++ rest) := by
  induction txIds with
  | nil => rfl
  | cons txId more ih =>
    rw [List.map_cons, List.cons_append, walkToSource, ← ih, findMsOutputInTxs]
    cases node.getTransactionFromPoolOrDb txId splitHeight with
    | none => rfl
    | some tx =>
      change ((txAltchainChecker E node inputTx inputTxHash inputIndex input tx >>= _) >>= _) =
        (txAltchainChecker E node inputTx inputTxHash inputIndex input tx >>= _)
      cases txAltchainChecker E node inputTx inputTxHash inputIndex input tx with
      | error stop => rfl
      | ok found =>
        cases found with
        | true => rfl
        | false => rfl

/-- The walk through the blocks of a branch is the walk through its transactions. -/
theorem findMsOutputInBranch_eq (blocks : List BlockExtendedInfo) :
    findMsOutputInBranch E node inputTx inputTxHash inputIndex input splitHeight blocks =
      walkToSource E node inputTx inputTxHash inputIndex input
        (branchTransactions node splitHeight blocks) := by
  induction blocks with
  | nil => rfl
  | cons bei older ih =>
    unfold branchTransactions
    rw [List.flatMap_cons, List.cons_append, walkToSource, findMsOutputInBranch]
    change (txAltchainChecker E node inputTx inputTxHash inputIndex input bei.bl.minerTx >>= _) =
      (txAltchainChecker E node inputTx inputTxHash inputIndex input bei.bl.minerTx >>= _)
    cases txAltchainChecker E node inputTx inputTxHash inputIndex input bei.bl.minerTx with
    | error stop => rfl
    | ok found =>
      cases found with
      | true => rfl
      | false =>
        rw [ih]
        exact walk_txs bei.bl.txHashes _

/-- The walk succeeds when it finds a source that is checked, past transactions that leave the
output alone. -/
theorem walkToSource_ok (items : List (Option Transaction)) :
    walkToSource E node inputTx inputTxHash inputIndex input items = .ok () ↔
      ∃ source, ancestorSource E input.multisigOutId items = some source ∧
        checksSource E node inputTx inputTxHash inputIndex input source = true ∧
        ∀ item ∈ source.passed, PassedBy input.multisigOutId item := by
  induction items with
  | nil =>
    constructor
    · intro ran
      cases ran
    · rintro ⟨_, found, _⟩
      cases found
  | cons item rest ih =>
    cases item with
    | none =>
      constructor
      · intro ran
        cases ran
      · rintro ⟨_, found, _, passed⟩
        obtain ⟨source, _, rfl⟩ := Option.map_eq_some_iff.mp found
        obtain ⟨_, absent, _⟩ := passed none (.head _)
        cases absent
    | some tx =>
      change (txAltchainChecker E node inputTx inputTxHash inputIndex input tx >>= _) = _ ↔ _
      rw [txAltchainChecker_eq, ancestorSource]
      by_cases spends : spendsMs input.multisigOutId tx
      · rw [if_pos spends]
        constructor
        · intro ran
          cases ran
        · rintro ⟨source, found, _, passed⟩
          have first : some tx ∈ source.passed := by
            cases number : msOutputNo E input.multisigOutId tx with
            | some outNo =>
              rw [number] at found
              cases found
              exact .head _
            | none =>
              rw [number] at found
              obtain ⟨_, _, rfl⟩ := Option.map_eq_some_iff.mp found
              exact .head _
          obtain ⟨_, same, leaves⟩ := passed _ first
          cases same
          exact absurd spends leaves
      · rw [if_neg spends]
        cases number : msOutputNo E input.multisigOutId tx with
        | some outNo =>
          rw [Option.elim_some]
          dsimp only
          constructor
          · intro ran
            refine ⟨_, rfl, ?_, fun item member => ⟨tx, List.mem_singleton.mp member, spends⟩⟩
            by_contra fails
            unfold checksSource at fails
            rw [if_neg fails] at ran
            cases ran
          · rintro ⟨source, found, checks, _⟩
            cases found
            unfold checksSource at checks
            rw [if_pos checks]
            rfl
        | none =>
          dsimp only
          change walkToSource E node inputTx inputTxHash inputIndex input rest = _ ↔ _
          rw [ih]
          constructor
          · rintro ⟨source, found, checks, passed⟩
            refine ⟨source.pass (some tx), by rw [found, Option.map_some], checks, ?_⟩
            intro item member
            rcases List.mem_cons.mp member with rfl | older
            · exact ⟨tx, rfl, spends⟩
            · exact passed item older
          · rintro ⟨_, found, checks, passed⟩
            obtain ⟨source, below, rfl⟩ := Option.map_eq_some_iff.mp found
            exact ⟨source, below, checks, fun item member => passed item (.tail _ member)⟩

end Walk

/-! ## The input and the branch -/

section Inputs

variable (E : Env) (node : Node) (inputTx : Transaction) (inputTxHash : Hash) (inputIndex : Nat)
  (input : TxinMultisig) (splitHeight : Nat) (altChain : AltChain) (preceding : List Txin)

/-- What a branch and the inputs before it in its block demand of a multisig input: its output
exists, the input is checked against it, and nothing spent it. -/
structure SpendableOnBranch : Prop where
  source : ∃ source, branchSource E node input.multisigOutId splitHeight altChain = some source ∧
    checksSource E node inputTx inputTxHash inputIndex input source = true
  below : ¬ spentBelow node input.multisigOutId splitHeight
  ancestors : ¬ spentByAncestor node input.multisigOutId splitHeight altChain
  block : input.multisigOutId ∉ preceding.filterMap Txin.spentMultisigId

/-- The input is refused whatever happened to its output above the split: the main chain spent
it below, it does not exist, or the input does not fit it. -/
def refusedAtSource : Prop :=
  spentBelow node input.multisigOutId splitHeight ∨
    ∀ source, branchSource E node input.multisigOutId splitHeight altChain = some source →
      checksSource E node inputTx inputTxHash inputIndex input source = false

/-- A transaction on the way to the source is not at hand or spends the output. -/
def stoppedOnTheWay : Prop :=
  ∃ source, branchSource E node input.multisigOutId splitHeight altChain = some source ∧
    ∃ item ∈ source.passed, ¬ PassedBy input.multisigOutId item

/-- The output is spent on the branch above the split or earlier in the block. -/
def spentAbove : Prop :=
  spentByAncestor node input.multisigOutId splitHeight altChain ∨
    input.multisigOutId ∈ preceding.filterMap Txin.spentMultisigId

variable {E node inputTx inputTxHash inputIndex input splitHeight altChain preceding}

/-- An input is accepted when its source is checked and the way there is free. -/
theorem validateAltBlockMsInput_ok
    (stored : ∀ ms, node.chain.db.multisigOuts.get input.multisigOutId = some ms →
      node.chain.db.transactions.has ms.txId = true) :
    validateAltBlockMsInput E node inputTx inputTxHash inputIndex input splitHeight altChain =
        .ok () ↔
      ¬ refusedAtSource E node inputTx inputTxHash inputIndex input splitHeight altChain ∧
        ¬ stoppedOnTheWay E node input splitHeight altChain := by
  have walk : (∃ source, branchSource E node input.multisigOutId splitHeight altChain =
      some source ∧ checksSource E node inputTx inputTxHash inputIndex input source = true ∧
      ∀ item ∈ source.passed, PassedBy input.multisigOutId item) ∧
      ¬ spentBelow node input.multisigOutId splitHeight ↔
      ¬ refusedAtSource E node inputTx inputTxHash inputIndex input splitHeight altChain ∧
        ¬ stoppedOnTheWay E node input splitHeight altChain := by
    constructor
    · rintro ⟨⟨source, found, checks, passed⟩, unspent⟩
      constructor
      · rintro (spent | fails)
        · exact unspent spent
        · rw [fails source found] at checks
          cases checks
      · rintro ⟨other, also, item, member, stops⟩
        rw [found] at also
        cases also
        exact stops (passed item member)
    · rintro ⟨accepted, free⟩
      refine ⟨?_, fun spent => accepted (.inl spent)⟩
      by_contra none
      refine accepted (.inr fun source found => ?_)
      rw [Bool.eq_false_iff]
      intro checks
      refine none ⟨source, found, checks, fun item member => ?_⟩
      by_contra stops
      exact free ⟨source, found, item, member, stops⟩
  rw [← walk]
  unfold validateAltBlockMsInput
  dsimp only
  rw [findMsOutputInBranch_eq]
  cases recorded : node.chain.db.multisigOuts.get input.multisigOutId with
  | none =>
    have unspent : ¬ spentBelow node input.multisigOutId splitHeight := by
      rintro ⟨ms, found, _⟩
      rw [recorded] at found
      cases found
    have onBranch : branchSource E node input.multisigOutId splitHeight altChain =
        ancestorSource E input.multisigOutId
          (branchTransactions node splitHeight altChain.newestFirst) := by
      rw [branchSource, mainSource, recorded, Option.bind_none, Option.none_or]
    rw [onBranch]
    exact (walkToSource_ok _).trans (and_iff_left unspent).symm
  | some ms =>
    obtain ⟨entry, present⟩ := Option.isSome_iff_exists.mp (stored ms recorded)
    have below : spentBelow node input.multisigOutId splitHeight ↔
        ms.spentHeight ≠ 0 ∧ ms.spentHeight < splitHeight := by
      constructor
      · rintro ⟨other, found, late⟩
        rw [recorded] at found
        cases found
        exact late
      · exact fun late => ⟨ms, recorded, late⟩
    dsimp only
    by_cases spent : ms.spentHeight ≠ 0 ∧ ms.spentHeight < splitHeight
    · have refuses : (ms.spentHeight == 0 || decide (ms.spentHeight ≥ splitHeight)) = false := by
        rw [Bool.or_eq_false_iff, beq_eq_false_iff_ne, decide_eq_false_iff_not]
        exact ⟨spent.1, Nat.not_le.mpr spent.2⟩
      rw [refuses]
      constructor
      · intro ran
        cases ran
      · rintro ⟨_, unspent⟩
        exact absurd (below.mpr spent) unspent
    · have passes : (ms.spentHeight == 0 || decide (ms.spentHeight ≥ splitHeight)) = true := by
        rw [Bool.or_eq_true, beq_iff_eq, decide_eq_true_iff]
        by_contra neither
        exact spent ⟨fun zero => neither (.inl zero),
          Nat.lt_of_not_le fun above => neither (.inr above)⟩
      have unspent : ¬ spentBelow node input.multisigOutId splitHeight := fun late =>
        spent (below.mp late)
      rw [passes, present]
      change (if entry.keeperBlockHeight < splitHeight then _ else _) = _ ↔ _
      by_cases early : entry.keeperBlockHeight < splitHeight
      · have source : branchSource E node input.multisigOutId splitHeight altChain =
            some ⟨entry.tx, ms.outNo, []⟩ := by
          rw [branchSource, mainSource, recorded, Option.bind_some, present, Option.bind_some,
            if_pos early, Option.some_or]
        rw [if_pos early, source]
        constructor
        · intro ran
          refine ⟨⟨_, rfl, ?_, fun _ member => by cases member⟩, unspent⟩
          by_contra fails
          unfold checksSource at fails
          rw [Bool.eq_false_iff.mpr fails] at ran
          cases ran
        · rintro ⟨⟨_, found, checks, _⟩, _⟩
          cases found
          unfold checksSource at checks
          rw [checks]
          rfl
      · have source : branchSource E node input.multisigOutId splitHeight altChain =
            ancestorSource E input.multisigOutId
              (branchTransactions node splitHeight altChain.newestFirst) := by
          rw [branchSource, mainSource, recorded, Option.bind_some, present, Option.bind_some,
            if_neg early, Option.none_or]
        rw [if_neg early, source]
        exact (walkToSource_ok _).trans (and_iff_left unspent).symm

theorem spendableOnBranch_iff :
    SpendableOnBranch E node inputTx inputTxHash inputIndex input splitHeight altChain preceding ↔
      ¬ refusedAtSource E node inputTx inputTxHash inputIndex input splitHeight altChain ∧
        ¬ spentAbove node input splitHeight altChain preceding := by
  constructor
  · rintro ⟨⟨source, found, checks⟩, below, ancestors, block⟩
    refine ⟨?_, fun spent => spent.elim ancestors block⟩
    rintro (spent | fails)
    · exact below spent
    · rw [fails source found] at checks
      cases checks
  · rintro ⟨accepted, unspent⟩
    refine ⟨?_, fun spent => accepted (.inl spent), fun spent => unspent (.inl spent),
      fun spent => unspent (.inr spent)⟩
    by_contra none
    refine accepted (.inr fun source found => ?_)
    rw [Bool.eq_false_iff]
    exact fun checks => none ⟨source, found, checks⟩

/-- An input is judged as the branch demands exactly when it is refused at its source, or when
the walk to the source is stopped just in case the output is spent above the split. -/
theorem validateAltBlockMsInput_iff
    (stored : ∀ ms, node.chain.db.multisigOuts.get input.multisigOutId = some ms →
      node.chain.db.transactions.has ms.txId = true) :
    (validateAltBlockMsInput E node inputTx inputTxHash inputIndex input splitHeight altChain =
          .ok () ↔
        SpendableOnBranch E node inputTx inputTxHash inputIndex input splitHeight altChain
          preceding) ↔
      refusedAtSource E node inputTx inputTxHash inputIndex input splitHeight altChain ∨
        (stoppedOnTheWay E node input splitHeight altChain ↔
          spentAbove node input splitHeight altChain preceding) := by
  rw [validateAltBlockMsInput_ok stored, spendableOnBranch_iff]
  by_cases refused :
      refusedAtSource E node inputTx inputTxHash inputIndex input splitHeight altChain
  · simp only [refused, not_true_eq_false, false_and, true_or]
  · simp only [refused, not_false_eq_true, true_and, false_or, not_iff_not]

end Inputs

/-! ## A double spend on a branch -/

namespace DoubleSpend

/-- A transaction with a multisig output of one signature. -/
def sourceTx : Transaction :=
  { version := 10, vin := [], vout := [⟨5, .multisig ⟨1, [⟨1⟩, ⟨2⟩]⟩⟩], extra := []
    signatures := [], attachment := [] }

def input : TxinMultisig := ⟨5, ⟨1005⟩, 1, []⟩

/-- A transaction that spends the multisig output. -/
def spender (version : Nat) : Transaction :=
  { version, vin := [.multisig input], vout := [], extra := []
    signatures := [[⟨1⟩]], attachment := [] }

/-- An alternative ancestor that contains a spend, kept in the pool. -/
def altChain : AltChain :=
  [(⟨50⟩, { (default : BlockExtendedInfo) with
    height := 5, bl := { (default : Block) with txHashes := [⟨11⟩] } })]

/-- The output was made below the split and is unspent in the main chain. -/
def node : Node where
  chain := { db := {
    transactions := Container.set ∅ ⟨10⟩ ⟨sourceTx, 3, [], []⟩
    multisigOuts := Container.set ∅ ⟨1005⟩ ⟨⟨10⟩, 0, 0⟩ } }
  pool := { transactions := Container.set ∅ ⟨11⟩ { (default : TxDetails) with tx := spender 11 } }

theorem stored (ms : MsOutputEntry)
    (found : node.chain.db.multisigOuts.get input.multisigOutId = some ms) :
    node.chain.db.transactions.has ms.txId = true := by
  have first : node.chain.db.multisigOuts.get input.multisigOutId = some ⟨⟨10⟩, 0, 0⟩ :=
    Container.get_set_self _ _ _
  rw [first] at found
  cases found
  decide +kernel

end DoubleSpend

open DoubleSpend in
theorem validateAltBlockMsInput_first :
    (validateAltBlockMsInput .plain node (spender 12) ⟨12⟩ 0 input 5 [] = .ok () ↔
        SpendableOnBranch .plain node (spender 12) ⟨12⟩ 0 input 5 [] []) ↔
      refusedAtSource .plain node (spender 12) ⟨12⟩ 0 input 5 [] ∨
        (stoppedOnTheWay .plain node input 5 [] ↔ spentAbove node input 5 [] []) :=
  validateAltBlockMsInput_iff stored

open DoubleSpend in
/-- An output from below the split that an alternative ancestor spent is accepted again. -/
theorem validateAltBlockMsInput_twice :
    ¬ ∀ (E : Env) (node : Node) (inputTx : Transaction) (inputTxHash : Hash) (inputIndex : Nat)
      (input : TxinMultisig) (splitHeight : Nat) (altChain : AltChain) (preceding : List Txin),
      (∀ ms, node.chain.db.multisigOuts.get input.multisigOutId = some ms →
        node.chain.db.transactions.has ms.txId = true) →
      (validateAltBlockMsInput E node inputTx inputTxHash inputIndex input splitHeight altChain =
          .ok () ↔
        SpendableOnBranch E node inputTx inputTxHash inputIndex input splitHeight altChain
          preceding) := by
  intro always
  have accepted : validateAltBlockMsInput .plain node (spender 12) ⟨12⟩ 0 input 5 altChain =
      .ok () := by decide +kernel
  have spendable := (always .plain node (spender 12) ⟨12⟩ 0 input 5 altChain [] stored).mp accepted
  have present : some (spender 11) ∈ branchTransactions node 5 altChain.newestFirst := by
    decide +kernel
  exact spendable.ancestors ⟨spender 11, present, by decide⟩

end Virie
