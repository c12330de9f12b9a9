import Virie.Chainstate.Aliases
import Virie.Chainstate.Outputs
import Virie.Chainstate.Resolution
import Virie.Chainstate.Spends

/-! # Connecting and disconnecting one transaction

A connected transaction whose inputs were checked can be disconnected again, from the
very database it led to and from any database that differs in the spent flags of key
outputs only. All containers return to their content, except that flags the
transaction set are cleared. -/

open Foundation

namespace Virie

/-! ## Databases that agree up to spent flags of key outputs -/

/-- Entries that agree except for flags of key outputs. -/
structure SameEntry (a b : TransactionChainEntry) : Prop where
  tx : a.tx = b.tx
  keeperBlockHeight : a.keeperBlockHeight = b.keeperBlockHeight
  globalOutputIndexes : a.globalOutputIndexes = b.globalOutputIndexes
  length : a.spentFlags.length = b.spentFlags.length
  multisig : ∀ (n amount : Nat) keys, a.tx.vout[n]? = some (TxOut.mk amount (.multisig keys)) →
    a.spentFlags[n]? = b.spentFlags[n]?

/-- Databases whose transactions left the same content, except for flags of key outputs. -/
structure SameContents (a b : Db) : Prop where
  spentKeys : a.spentKeys = b.spentKeys
  outputs : a.outputs = b.outputs
  multisigOuts : a.multisigOuts = b.multisigOuts
  aliases : a.aliases = b.aliases
  addrToAlias : a.addrToAlias = b.addrToAlias
  transactions : ∀ id, Option.Rel SameEntry (a.transactions.get id) (b.transactions.get id)

/-- Databases with the same blocks. -/
structure SameBlocks (a b : Db) : Prop where
  blocks : a.blocks = b.blocks
  blocksIndex : a.blocksIndex = b.blocksIndex
  perBlockGindexIncs : a.perBlockGindexIncs = b.perBlockGindexIncs

/-- Databases that agree except for flags of key outputs and the block size limit. -/
structure SameButSpent (a b : Db) : Prop extends SameContents a b, SameBlocks a b

theorem SameBlocks.refl (a : Db) : SameBlocks a a := ⟨rfl, rfl, rfl⟩

theorem SameBlocks.symm {a b : Db} (same : SameBlocks a b) : SameBlocks b a :=
  ⟨same.blocks.symm, same.blocksIndex.symm, same.perBlockGindexIncs.symm⟩

theorem SameBlocks.trans {a b c : Db} (first : SameBlocks a b) (second : SameBlocks b c) :
    SameBlocks a c :=
  ⟨first.blocks.trans second.blocks, first.blocksIndex.trans second.blocksIndex,
    first.perBlockGindexIncs.trans second.perBlockGindexIncs⟩

theorem SameEntry.refl (a : TransactionChainEntry) : SameEntry a a :=
  ⟨rfl, rfl, rfl, rfl, fun _ _ _ _ => rfl⟩

theorem SameEntry.symm {a b : TransactionChainEntry} (same : SameEntry a b) : SameEntry b a :=
  ⟨same.tx.symm, same.keeperBlockHeight.symm, same.globalOutputIndexes.symm, same.length.symm,
    fun n amount keys out => (same.multisig n amount keys (by rwa [same.tx])).symm⟩

theorem SameEntry.trans {a b c : TransactionChainEntry} (first : SameEntry a b)
    (second : SameEntry b c) : SameEntry a c :=
  ⟨first.tx.trans second.tx, first.keeperBlockHeight.trans second.keeperBlockHeight,
    first.globalOutputIndexes.trans second.globalOutputIndexes, first.length.trans second.length,
    fun n amount keys out => (first.multisig n amount keys out).trans
      (second.multisig n amount keys (by rwa [← first.tx]))⟩

theorem optionRel_refl {α : Type} {r : α → α → Prop} (reflexive : ∀ a, r a a) (o : Option α) :
    Option.Rel r o o := by
  cases o with
  | none => exact .none
  | some a => exact .some (reflexive a)

namespace SameContents

theorem refl (a : Db) : SameContents a a :=
  ⟨rfl, rfl, rfl, rfl, rfl, fun _ => optionRel_refl SameEntry.refl _⟩

variable {a b c : Db}

theorem symm (same : SameContents a b) : SameContents b a := by
  refine ⟨same.spentKeys.symm, same.outputs.symm, same.multisigOuts.symm, same.aliases.symm,
    same.addrToAlias.symm, fun id => ?_⟩
  have related := same.transactions id
  generalize a.transactions.get id = x at related ⊢
  generalize b.transactions.get id = y at related ⊢
  cases related with
  | some entries => exact .some entries.symm
  | none => exact .none

theorem trans (first : SameContents a b) (second : SameContents b c) : SameContents a c := by
  refine ⟨first.spentKeys.trans second.spentKeys, first.outputs.trans second.outputs,
    first.multisigOuts.trans second.multisigOuts, first.aliases.trans second.aliases,
    first.addrToAlias.trans second.addrToAlias, fun id => ?_⟩
  have left := first.transactions id
  have right := second.transactions id
  generalize a.transactions.get id = x at left ⊢
  generalize b.transactions.get id = y at left right
  generalize c.transactions.get id = z at right ⊢
  cases left with
  | none =>
    cases right
    exact .none
  | some entries =>
    cases right with
    | some others => exact .some (entries.trans others)

/-- An entry on one side has a counterpart on the other. -/
theorem entry (same : SameContents a b) {id : Hash} {entry : TransactionChainEntry}
    (found : a.transactions.get id = some entry) :
    ∃ other, b.transactions.get id = some other ∧ SameEntry entry other := by
  have related := same.transactions id
  rw [found] at related
  cases right : b.transactions.get id with
  | none =>
    rw [right] at related
    cases related
  | some other =>
    rw [right] at related
    cases related with
    | some entries => exact ⟨other, rfl, entries⟩

end SameContents

namespace SameButSpent

variable {a b c : Db}

theorem refl (a : Db) : SameButSpent a a := ⟨.refl a, .refl a⟩

theorem symm (same : SameButSpent a b) : SameButSpent b a :=
  ⟨same.toSameContents.symm, same.toSameBlocks.symm⟩

theorem trans (first : SameButSpent a b) (second : SameButSpent b c) : SameButSpent a c :=
  ⟨first.toSameContents.trans second.toSameContents, first.toSameBlocks.trans second.toSameBlocks⟩

end SameButSpent

/-! ## Connecting a transaction -/

/-- The alias entry of a transaction, if any, is put into the registry. -/
def PutsAlias (E : Env) (tx : TransactionPrefix) (before after : Db) : Prop :=
  ∃ info, tx.parseAndValidateTxExtra = some info ∧
    match info.namedAlias with
    | none => after = before
    | some entry => putAliasInfo E entry before = .ok () after

/-- A transaction with checked inputs is connected: alias entry, inputs, outputs. -/
structure ConnectsTx (E : Env) (height : Nat) (tx : Transaction) (txId : Hash) (before after : Db) :
    Prop where
  resolved : ∀ input ∈ tx.vin, before.Resolves input
  steps : ∃ aliased spent, PutsAlias E tx.toTransactionPrefix before aliased ∧
    addTransactionInputs height tx.vin aliased = .ok () spent ∧
    spent.transactions.get txId = none ∧
    storeTransaction E tx txId height spent = .ok () after

section Transactions

variable {E : Env} {height : Nat} {tx : Transaction} {txId : Hash} {before after db : Db}

/-- Putting an alias entry concerns the registry only. -/
theorem PutsAlias.frame {aliased : Db} (puts : PutsAlias E tx.toTransactionPrefix before aliased) :
    aliased = { before with aliases := aliased.aliases, addrToAlias := aliased.addrToAlias } := by
  obtain ⟨info, _, entry⟩ := puts
  split at entry
  · subst entry
    rfl
  · exact putAliasInfo_frame entry

theorem PutsAlias.consistent {aliased : Db}
    (puts : PutsAlias E tx.toTransactionPrefix before aliased)
    (consistent : AliasesConsistent before.aliases before.addrToAlias) :
    AliasesConsistent aliased.aliases aliased.addrToAlias := by
  obtain ⟨info, _, entry⟩ := puts
  split at entry
  · subst entry
    exact consistent
  · exact (putAliasInfo_spec entry consistent).2.2

/-- Taking the alias entry back restores the registry. -/
theorem PutsAlias.undo {aliased : Db} (puts : PutsAlias E tx.toTransactionPrefix before aliased)
    (consistent : AliasesConsistent before.aliases before.addrToAlias)
    (aliases : db.aliases = aliased.aliases) (names : db.addrToAlias = aliased.addrToAlias) :
    unprocessBlockchainTxExtra tx.toTransactionPrefix db =
      .ok () { db with aliases := before.aliases, addrToAlias := before.addrToAlias } := by
  obtain ⟨info, parsed, entry⟩ := puts
  simp only [unprocessBlockchainTxExtra, Procedure.bind_ok, Procedure.demand_ok]
  refine ⟨info, db, ⟨parsed, rfl⟩, ?_⟩
  split at entry
  · next none =>
    subst entry
    rw [none, ← aliases, ← names]
    rfl
  · next some =>
    rw [some]
    exact popAliasInfo_undoes entry consistent aliases names

/-- Storing a transaction indexes its outputs and enters it under its id. -/
theorem storeTransaction_spec {spent : Db}
    (run : storeTransaction E tx txId height spent = .ok () after) :
    ∃ indexes indexed,
      pushOutputsFrom E tx.toTransactionPrefix txId 0 tx.vout spent = .ok indexes indexed ∧
      after = { indexed with
        transactions := spent.transactions.set txId
          ⟨tx, height, indexes, List.replicate tx.vout.length false⟩ } := by
  simp only [storeTransaction, pushTransactionToGlobalOutsIndex, Procedure.bind_ok,
    Procedure.modify_ok] at run
  obtain ⟨indexes, indexed, pushed, rfl⟩ := run
  refine ⟨indexes, indexed, pushed, ?_⟩
  rw [(indexes_of_pushOutputsFrom pushed).frame]

/-- Connecting a transaction leaves the list of blocks, its index and the increments alone. -/
theorem ConnectsTx.sameBlocks (connects : ConnectsTx E height tx txId before after) :
    SameBlocks after before := by
  obtain ⟨aliased, spent, puts, added, _, stored⟩ := connects.steps
  obtain ⟨indexes, indexed, pushed, rfl⟩ := storeTransaction_spec stored
  have index := indexes_of_pushOutputsFrom pushed
  have spends := spends_of_addTransactionInputs added
  rw [index.frame, spends.frame, puts.frame]
  exact ⟨rfl, rfl, rfl⟩

/-! ## Outputs named by inputs -/

theorem Indexes.outputOf_eq {i : Nat} {outs : List TxOut}
    (indexes : Indexes E tx.toTransactionPrefix txId i outs before after) {input : Txin}
    {output : Hash × Nat} (named : before.outputOf input = some output) :
    after.outputOf input = some output := by
  cases input with
  | gen number => cases named
  | toKey input =>
    rcases offsets : input.keyOffsets with _ | ⟨direct, _ | ⟨second, rest⟩⟩
    · simp [Db.outputOf, offsets] at named
    · cases direct with
      | byId ref => simpa [Db.outputOf, offsets] using named
      | index i =>
        simp only [Db.outputOf, offsets, Option.map_eq_some_iff] at named ⊢
        obtain ⟨out, found, same⟩ := named
        refine ⟨out, ?_, same⟩
        rw [ArrayContainer.getSubitem] at found ⊢
        rw [indexes.items, List.getElem?_append_left, found]
        exact (List.getElem?_eq_some_iff.mp found).1
    · simp [Db.outputOf, offsets] at named
  | multisig input =>
    simp only [Db.outputOf, Option.map_eq_some_iff] at named ⊢
    obtain ⟨ms, found, same⟩ := named
    refine ⟨ms, ?_, same⟩
    rw [indexes.kept, found]
    intro fresh
    obtain ⟨entry, member, same⟩ := List.mem_map.mp fresh
    rw [← same, indexes.fresh entry member] at found
    cases found

theorem outputOf_congr {a b : Db} (outputs : a.outputs = b.outputs)
    (multisigOuts : a.multisigOuts = b.multisigOuts) (input : Txin) :
    a.outputOf input = b.outputOf input := by
  cases input <;> simp only [Db.outputOf, outputs, multisigOuts]

theorem mem_marksOf {spent : Bool} {vin : List Txin} {m : Mark} :
    m ∈ db.marksOf spent height vin ↔ ∃ input ∈ vin, ∃ output, db.outputOf input = some output ∧
      m = (output, if input.spentMultisigId.isSome then height != 0 else spent) := by
  simp only [Db.marksOf, Db.markOf, List.mem_filterMap, Option.map_eq_some_iff]
  constructor
  · rintro ⟨input, member, output, named, rfl⟩
    exact ⟨input, member, output, named, rfl⟩
  · rintro ⟨input, member, output, named, rfl⟩
    exact ⟨input, member, output, named, rfl⟩

/-- Databases that name the same outputs for inputs give the same marks. -/
theorem marksOf_congr {other : Db} {vin : List Txin} (spent : Bool)
    (same : ∀ input ∈ vin, other.outputOf input = db.outputOf input) :
    other.marksOf spent height vin = db.marksOf spent height vin := by
  unfold Db.marksOf
  apply List.filterMap_congr
  intro input member
  rw [Db.markOf, same input member, Db.markOf]

/-- A direct reference that resolves names a key output. -/
theorem Db.Resolves.key_output {input : TxinToKey} (resolved : db.Resolves (.toKey input))
    {output : Hash × Nat} (named : db.outputOf (.toKey input) = some output)
    {entry : TransactionChainEntry} (found : db.transactions.get output.1 = some entry) :
    ∃ amount key, entry.tx.vout[output.2]? = some (TxOut.mk amount (.toKey key)) := by
  obtain ⟨absolute, offsets, members⟩ := resolved
  rcases single : input.keyOffsets with _ | ⟨direct, _ | ⟨second, rest⟩⟩
  · simp [Db.outputOf, single] at named
  · have only : direct ∈ absolute := by
      rw [single] at offsets
      cases direct <;> simp only [relativeOutputOffsetsToAbsolute, accumulateOffsets,
        Outcome.bind_ok, Outcome.pure_ok, exists_eq_left'] at offsets <;> simp [← offsets]
    obtain ⟨id, n, stored, amount, key, resolves, present, out⟩ := members direct only
    have same : output = (id, n) := by
      cases direct with
      | byId ref =>
        simp only [Db.outputOf, single, Option.some.injEq] at named
        simp only [Db.resolveOutput, Outcome.pure_ok] at resolves
        rw [← named, resolves]
      | index i =>
        simp only [Db.outputOf, single, Option.map_eq_some_iff] at named
        simp only [Db.resolveOutput, Outcome.bind_ok, Outcome.demand_ok, Outcome.pure_ok]
          at resolves
        obtain ⟨out, indexed, rfl⟩ := named
        obtain ⟨other, indexedToo, same⟩ := resolves
        rw [indexed, Option.some.injEq] at indexedToo
        rw [indexedToo, same]
    subst same
    rw [found] at present
    cases present
    exact ⟨amount, key, out⟩
  · simp [Db.outputOf, single] at named

/-- What connecting a transaction does to the containers. -/
structure TxEffect (E : Env) (height : Nat) (tx : Transaction) (txId : Hash) (before after : Db) :
    Prop where
  fresh : before.transactions.get txId = none
  entered : ∃ indexes, after.transactions.get txId =
    some ⟨tx, height, indexes, List.replicate tx.vout.length false⟩
  others : ∀ id, id ≠ txId → after.transactions.get id =
    (before.transactions.get id).map (·.markAll id (before.marksOf true height tx.vin))
  outputs : ∀ amount, after.outputs.items amount =
    before.outputs.items amount ++ keyOutputsFrom txId amount 0 tx.vout
  newMultisig : ∀ entry ∈ multisigOutputsFrom E tx.toTransactionPrefix 0 tx.vout,
    before.multisigOuts.get entry.1 = none ∧
      after.multisigOuts.get entry.1 = some ⟨txId, entry.2, 0⟩
  oldMultisig : ∀ id ∉ (multisigOutputsFrom E tx.toTransactionPrefix 0 tx.vout).map Prod.fst,
    after.multisigOuts.get id =
      if id ∈ tx.multisigInputIds then
        (before.multisigOuts.get id).map fun ms => { ms with spentHeight := height }
      else before.multisigOuts.get id
  aliases : AliasesConsistent before.aliases before.addrToAlias →
    AliasesConsistent after.aliases after.addrToAlias
  named : ∀ input output, before.outputOf input = some output → after.outputOf input = some output
  stored : ∀ input ∈ tx.vin, input.marksOutput → before.HasOutput input

theorem ConnectsTx.effect (connects : ConnectsTx E height tx txId before after) :
    TxEffect E height tx txId before after := by
  obtain ⟨aliased, spent, puts, added, fresh, stored⟩ := connects.steps
  have aliasFrame := puts.frame
  have spends := spends_of_addTransactionInputs added
  obtain ⟨indexes, indexed, pushed, rfl⟩ := storeTransaction_spec stored
  have index := indexes_of_pushOutputsFrom pushed
  have aliasedOutput : ∀ input, aliased.outputOf input = before.outputOf input := by
    intro input
    rw [aliasFrame]
    exact outputOf_congr rfl rfl input
  have spentMultisig : ∀ id, spent.multisigOuts.get id =
      if id ∈ tx.multisigInputIds then
        (before.multisigOuts.get id).map fun ms => { ms with spentHeight := height }
      else before.multisigOuts.get id := by
    intro id
    rw [spends.multisigOuts, aliasFrame]
    rfl
  constructor
  case fresh =>
    rw [spends.transactions, aliasFrame, Option.map_eq_none_iff] at fresh
    exact fresh
  case entered => exact ⟨indexes, Container.get_set_self _ _ _⟩
  case others =>
    intro id apart
    change (spent.transactions.set _ _).get id = _
    rw [Container.get_set_of_ne _ _ (Ne.symm apart), spends.transactions,
      marksOf_congr true fun input _ => aliasedOutput input, aliasFrame]
  case outputs =>
    intro amount
    change indexed.outputs.items amount = _
    rw [index.items, spends.frame, aliasFrame]
  case newMultisig =>
    intro entry member
    refine ⟨?_, index.entered entry member⟩
    have absent := index.fresh entry member
    rw [spentMultisig] at absent
    split at absent
    · exact Option.map_eq_none_iff.mp absent
    · exact absent
  case oldMultisig =>
    intro id old
    change indexed.multisigOuts.get id = _
    rw [index.kept id old, spentMultisig]
  case aliases =>
    intro consistent
    change AliasesConsistent indexed.aliases indexed.addrToAlias
    rw [index.frame, spends.frame]
    exact puts.consistent consistent
  case named =>
    intro input output names
    refine (outputOf_congr (b := indexed) rfl rfl input).trans ?_
    exact index.outputOf_eq (by rw [spends.outputOf_eq, aliasedOutput, names])
  case stored =>
    intro input member marks
    obtain ⟨output, entry, names, found, inside⟩ := spends.stored input member marks
    rw [aliasedOutput] at names
    rw [aliasFrame] at found
    exact ⟨output, entry, names, found, inside⟩

/-! ## Disconnecting a transaction -/

/-- Clearing the marks of inputs that resolved leaves an entry as it was before they were set,
up to flags of key outputs. -/
theorem sameEntry_cleared {vin : List Txin} (resolved : ∀ input ∈ vin, before.Resolves input)
    {id : Hash} {entry other : TransactionChainEntry}
    (found : before.transactions.get id = some entry)
    (same : SameEntry other (entry.markAll id (before.marksOf true height vin))) :
    SameEntry (other.markAll id (before.marksOf false 0 vin)) entry where
  tx := by rw [TransactionChainEntry.markAll_tx, same.tx, TransactionChainEntry.markAll_tx]
  keeperBlockHeight := by
    rw [TransactionChainEntry.markAll_keeperBlockHeight, same.keeperBlockHeight,
      TransactionChainEntry.markAll_keeperBlockHeight]
  globalOutputIndexes := by
    rw [TransactionChainEntry.markAll_globalOutputIndexes, same.globalOutputIndexes,
      TransactionChainEntry.markAll_globalOutputIndexes]
  length := by
    rw [TransactionChainEntry.length_markAll, same.length, TransactionChainEntry.length_markAll]
  multisig := by
    intro n amount keys out
    rw [TransactionChainEntry.markAll_tx] at out
    have entryOut : entry.tx.vout[n]? = some (TxOut.mk amount (.multisig keys)) := by
      rwa [same.tx, TransactionChainEntry.markAll_tx] at out
    by_cases touched : ∃ m ∈ before.marksOf false 0 vin, m.1 = (id, n)
    · have cleared : ∀ m ∈ before.marksOf false 0 vin, m.1 = (id, n) → m.2 = false := by
        intro m member _
        obtain ⟨input, _, output, _, rfl⟩ := mem_marksOf.mp member
        split <;> rfl
      rw [TransactionChainEntry.spentFlags_markAll_of_cleared id other _ touched cleared]
      obtain ⟨m, member, here⟩ := touched
      obtain ⟨input, inVin, output, named, rfl⟩ := mem_marksOf.mp member
      have place : output = (id, n) := here
      subst place
      have unspent : entry.spentFlags[n]? = some false := by
        cases input with
        | gen number => cases named
        | toKey input =>
          obtain ⟨_, key, keyOut⟩ := (resolved _ inVin).key_output named found
          rw [entryOut] at keyOut
          cases keyOut
        | multisig input =>
          obtain ⟨ms, source, _, _, present, _, sourceFound, flag, _⟩ := resolved _ inVin
          simp only [Db.outputOf, present, Option.map_some, Option.some.injEq,
            Prod.mk.injEq] at named
          obtain ⟨rfl, rfl⟩ := named
          rw [found] at sourceFound
          cases sourceFound
          exact flag
      have inside : n < entry.spentFlags.length := (List.getElem?_eq_some_iff.mp unspent).1
      have long : n < other.spentFlags.length := by
        rwa [same.length, TransactionChainEntry.length_markAll]
      rw [unspent, List.getElem?_eq_getElem long, Option.map_some]
    · have untouched : ∀ m ∈ before.marksOf false 0 vin, m.1 ≠ (id, n) :=
        fun m member here => touched ⟨m, member, here⟩
      have unset : ∀ m ∈ before.marksOf true height vin, m.1 ≠ (id, n) := by
        intro m member here
        obtain ⟨input, inVin, output, named, rfl⟩ := mem_marksOf.mp member
        exact untouched _ (mem_marksOf.mpr ⟨input, inVin, output, named, rfl⟩) here
      rw [TransactionChainEntry.spentFlags_markAll_of_not_mem id other _ untouched,
        same.multisig n amount keys out,
        TransactionChainEntry.spentFlags_markAll_of_not_mem id entry _ unset]

/-- The containers after the inputs, the alias entry and the outputs of a transaction were
taken back, in the order of the source. -/
structure DisconnectsTx (E : Env) (tx : Transaction) (txId : Hash) (db unspent restored popped : Db) :
    Prop where
  inputs : purgeTransactionKeyimagesFromBlockchain true tx.vin db = .ok () unspent
  aliasEntry : unprocessBlockchainTxExtra tx.toTransactionPrefix unspent = .ok () restored
  outputs : popTransactionFromGlobalIndex E tx.toTransactionPrefix txId restored = .ok () popped

/-- A connected transaction can be disconnected, which restores every container up to flags of
key outputs. -/
theorem ConnectsTx.undo (connects : ConnectsTx E height tx txId before after)
    (consistent : AliasesConsistent before.aliases before.addrToAlias)
    (same : SameContents db after) :
    ∃ unspent restored popped, DisconnectsTx E tx txId db unspent restored popped ∧
      SameContents { popped with transactions := popped.transactions.erase txId } before ∧
      SameBlocks popped db ∧
      ∀ id, popped.transactions.get id =
        (db.transactions.get id).map (·.markAll id (before.marksOf false 0 tx.vin)) := by
  obtain ⟨aliased, spent, puts, added, fresh, stored⟩ := connects.steps
  have aliasFrame := puts.frame
  have spends := spends_of_addTransactionInputs added
  obtain ⟨indexes, indexed, pushed, rfl⟩ := storeTransaction_spec stored
  have index := indexes_of_pushOutputsFrom pushed
  have aliasedOutput : ∀ input, aliased.outputOf input = before.outputOf input := by
    intro input
    rw [aliasFrame]
    exact outputOf_congr rfl rfl input
  have dbOutput : ∀ input, db.outputOf input = indexed.outputOf input :=
    outputOf_congr same.outputs same.multisigOuts
  have named : ∀ input ∈ tx.vin, db.outputOf input = before.outputOf input := by
    intro input member
    by_cases marks : input.marksOutput
    · obtain ⟨output, _, aliasedNamed, _⟩ := spends.stored input member marks
      have spentNamed := (spends.outputOf_eq input).trans aliasedNamed
      rw [dbOutput, index.outputOf_eq spentNamed, ← aliasedOutput, aliasedNamed]
    · rw [Db.outputOf_of_not_marksOutput marks, Db.outputOf_of_not_marksOutput marks]
  have purgeable : ∀ input ∈ tx.vin, db.Purgeable input := by
    intro input member
    constructor
    · intro image spentImage
      rw [Container.has, same.spentKeys]
      change (indexed.spentKeys.get image).isSome = true
      rw [index.frame, spends.spentKeys,
        if_pos (List.mem_filterMap.mpr ⟨input, member, spentImage⟩)]
      rfl
    · intro marks
      obtain ⟨output, entry, aliasedNamed, found, inside⟩ := spends.stored input member marks
      have spentFound : spent.transactions.get output.1 =
          some (entry.markAll output.1 (aliased.marksOf true height tx.vin)) := by
        rw [spends.transactions, found, Option.map_some]
      have apart : txId ≠ output.1 := by
        rintro rfl
        rw [fresh] at spentFound
        cases spentFound
      obtain ⟨other, dbFound, sameOther⟩ := same.symm.entry
        ((Container.get_set_of_ne _ _ apart).trans spentFound)
      refine ⟨output, other, ?_, dbFound, ?_⟩
      · rw [named input member, ← aliasedOutput, aliasedNamed]
      · rwa [← sameOther.length, TransactionChainEntry.length_markAll]
  obtain ⟨unspent, purged, unspends⟩ :=
    purgeTransactionKeyimages_runs spends.distinct purgeable
  have marks : db.marksOf false 0 tx.vin = before.marksOf false 0 tx.vin :=
    marksOf_congr false named
  have unspentAliases : unspent.aliases = aliased.aliases := by
    rw [unspends.frame]
    change db.aliases = _
    rw [same.aliases]
    change indexed.aliases = _
    rw [index.frame, spends.frame]
  have unspentNames : unspent.addrToAlias = aliased.addrToAlias := by
    rw [unspends.frame]
    change db.addrToAlias = _
    rw [same.addrToAlias]
    change indexed.addrToAlias = _
    rw [index.frame, spends.frame]
  have unaliased := puts.undo consistent unspentAliases unspentNames
  have restoredOutputs : unspent.outputs = indexed.outputs := by
    rw [unspends.frame]
    exact same.outputs
  obtain ⟨popped, popRun, unindexes⟩ := popOutputsFrom_runs
    { unspent with aliases := before.aliases, addrToAlias := before.addrToAlias } pushed
    restoredOutputs (by
      intro entry member
      have entered : db.multisigOuts.get entry.1 = some ⟨txId, entry.2, 0⟩ := by
        rw [same.multisigOuts]
        exact index.entered entry member
      change (unspent.multisigOuts.get entry.1).isSome = true
      rw [unspends.multisigOuts, entered]
      split <;> rfl)
  have poppedTransactions : ∀ id, popped.transactions.get id =
      (db.transactions.get id).map (·.markAll id (before.marksOf false 0 tx.vin)) := by
    intro id
    rw [unindexes.frame]
    change unspent.transactions.get id = _
    rw [unspends.transactions, marks]
  have blocks : SameBlocks popped db := by
    rw [unindexes.frame, unspends.frame]
    exact ⟨rfl, rfl, rfl⟩
  refine ⟨unspent, _, popped, ⟨purged, unaliased, popRun⟩, ?_, blocks, poppedTransactions⟩
  constructor
  case spentKeys =>
    apply Container.ext
    intro image
    rw [unindexes.frame]
    change unspent.spentKeys.get image = _
    have after : db.spentKeys = spent.spentKeys := by
      rw [same.spentKeys]
      change indexed.spentKeys = _
      rw [index.frame]
    rw [unspends.spentKeys, after, spends.spentKeys]
    split
    · next member =>
      have absent := spends.fresh image member
      rw [aliasFrame] at absent
      exact absent.symm
    · rw [aliasFrame]
  case outputs =>
    rw [unindexes.frame]
    change spent.outputs = _
    rw [spends.frame, aliasFrame]
  case multisigOuts =>
    apply Container.ext
    intro id
    change popped.multisigOuts.get id = _
    rw [unindexes.multisigOuts]
    split
    · next fresh =>
      obtain ⟨entry, member, rfl⟩ := List.mem_map.mp fresh
      have absent := index.fresh entry member
      rw [spends.multisigOuts] at absent
      split at absent
      · rw [aliasFrame] at absent
        exact (Option.map_eq_none_iff.mp absent).symm
      · rw [aliasFrame] at absent
        exact absent.symm
    · next old =>
      change unspent.multisigOuts.get id = _
      rw [unspends.multisigOuts, same.multisigOuts]
      change (if _ then (indexed.multisigOuts.get id).map _ else indexed.multisigOuts.get id) = _
      rw [index.kept id old, spends.multisigOuts]
      split
      · next member =>
        obtain ⟨input, inVin, spentId⟩ := List.mem_filterMap.mp member
        cases input with
        | gen number => cases spentId
        | toKey input => cases spentId
        | multisig input =>
          cases spentId
          obtain ⟨ms, _, _, _, present, unspentMs, _⟩ := connects.resolved _ inVin
          rw [aliasFrame]
          change ((before.multisigOuts.get input.multisigOutId).map _).map _ = _
          rw [present, Option.map_some, Option.map_some, ← unspentMs]
      · rw [aliasFrame]
  case aliases =>
    rw [unindexes.frame]
  case addrToAlias =>
    rw [unindexes.frame]
  case transactions =>
    intro id
    change Option.Rel SameEntry ((popped.transactions.erase txId).get id) _
    rw [Container.get_erase]
    split
    · next here =>
      subst here
      rw [spends.transactions, aliasFrame, Option.map_eq_none_iff] at fresh
      change before.transactions.get txId = none at fresh
      rw [fresh]
      exact .none
    · next apart =>
      rw [poppedTransactions]
      have afterEntry : (spent.transactions.set txId
          ⟨tx, height, indexes, List.replicate tx.vout.length false⟩).get id =
          (before.transactions.get id).map (·.markAll id (before.marksOf true height tx.vin)) := by
        rw [Container.get_set_of_ne _ _ apart, spends.transactions,
          marksOf_congr true fun input _ => aliasedOutput input, aliasFrame]
      have related := same.transactions id
      change Option.Rel SameEntry _ ((spent.transactions.set txId _).get id) at related
      rw [afterEntry] at related
      cases found : before.transactions.get id with
      | none =>
        rw [found, Option.map_none] at related
        generalize db.transactions.get id = x at related ⊢
        cases related
        exact .none
      | some entry =>
        rw [found, Option.map_some] at related
        generalize db.transactions.get id = x at related ⊢
        cases related with
        | some entries => exact .some (sameEntry_cleared connects.resolved found entries)

end Transactions
end Virie
