import Virie.InputAmounts
import Virie.DependencyHeight
import Virie.Chainstate.PoolContents

/-! # Disconnecting the block that was just connected

Connecting a block writes to nine containers of the main chain, and disconnecting it takes the
writes back. A spent flag is the exception: connecting sets the flag of the output that an input
names alone, whatever the flag was, and disconnecting clears it, whatever it was. Signatures are
not checked below the checkpoints, so an output may be named in two blocks with two key images.
Disconnecting the second block then forgets that the first one spent the output. -/

open Foundation Foundation.Procedure

namespace Virie

/-- Databases with equal containers of the main chain. -/
structure SameContainers (a b : Db) : Prop where
  blocks : a.blocks = b.blocks
  blocksIndex : a.blocksIndex = b.blocksIndex
  transactions : a.transactions = b.transactions
  spentKeys : a.spentKeys = b.spentKeys
  outputs : a.outputs = b.outputs
  multisigOuts : a.multisigOuts = b.multisigOuts
  aliases : a.aliases = b.aliases
  addrToAlias : a.addrToAlias = b.addrToAlias
  perBlockGindexIncs : a.perBlockGindexIncs = b.perBlockGindexIncs

/-- The spent flag of an output of the main chain is set. -/
def Db.Flagged (db : Db) (output : Hash × Nat) : Prop :=
  ∃ entry, db.transactions.get output.1 = some entry ∧ entry.spentFlags[output.2]? = some true

/-- An input names a single output, and the spent flag of that output is set. -/
def Db.RefersToSpent (db : Db) (input : Txin) : Prop :=
  ∃ output, db.outputOf input = some output ∧ db.Flagged output

theorem Db.refersToSpent_iff {db : Db} {input : Txin} : db.RefersToSpent input ↔
    ((db.outputOf input).bind fun output =>
      (db.transactions.get output.1).bind fun entry => entry.spentFlags[output.2]?) =
        some true := by
  simp only [Db.RefersToSpent, Db.Flagged, Option.bind_eq_some_iff]

instance Db.decidableRefersToSpent (db : Db) (input : Txin) : Decidable (db.RefersToSpent input) :=
  decidable_of_iff _ Db.refersToSpent_iff.symm

/-- The transactions of a new block: its coinbase and those that the pool holds for it. -/
def Node.transactionsOf (node : Node) (bl : Block) : List TransactionPrefix :=
  bl.minerTx.toTransactionPrefix ::
    bl.txHashes.filterMap fun id => (node.pool.transactions.get id).map (·.tx.toTransactionPrefix)

/-- The nodes between two steps that change the main chain: the reachable ones, and those that
disconnecting and connecting blocks leads to from them. -/
inductive Midway (E : Env) : Node → Prop
  | reached {node : Node} (reached : (nodeSystem E anyBlock).Reachable node) : Midway E node
  | popped {node node' : Node} {addToPool : Bool} (midway : Midway E node)
      (run : popBlockFromBlockchain E addToPool node = .ok () node') : Midway E node'
  | pushed {node node' : Node} {bl : Block} (midway : Midway E node)
      (run : handleBlockToMainChain E bl (getBlockHash E bl) node = .ok () node') : Midway E node'

section PopAfterPush

variable {E : Env} {height : Nat} {tx : Transaction} {txId id : Hash} {before after : Db}
  {txs : List (Hash × Transaction)} {bl : Block} {node node' : Node}

/-- A midway node has a built database with a block on it. -/
theorem Midway.built (midway : Midway E node) :
    NodeBuilt E (fun _ => True) anyBlock (Stored fun _ entry => 1 ≤ entry.height) node ∧
      node.chain.db.blocks ≠ [] := by
  induction midway with
  | reached reached => exact NodeBuilt.reachable reached
  | @popped node node' addToPool _ run ih =>
    have above : 1 < node.chain.db.blocks.length := by
      simp only [popBlockFromBlockchain, bind_ok, get_ok, require_ok, decide_eq_true_eq] at run
      obtain ⟨_, _, ⟨rfl, rfl⟩, _, _, ⟨above, _⟩, _⟩ := run
      exact above
    obtain ⟨other, ran, built, shorter⟩ := ih.1.pop above addToPool
    obtain ⟨_, rfl⟩ := EStateM.Result.ok.inj (ran.symm.trans run)
    refine ⟨built, List.length_pos_iff.mp ?_⟩
    rw [shorter, List.length_dropLast]
    omega
  | pushed _ run ih =>
    obtain ⟨built, bei, txs, _, connects⟩ := ih.1.push cacheFree_stored trivial
      (fun none => absurd none ih.2) run
    refine ⟨built, ?_⟩
    rw [connects.blocks]
    exact List.append_ne_nil_of_right_ne_nil _ (List.cons_ne_nil _ _)

/-! ## The transactions of a connected block -/

/-- Taking a transaction of a block leaves the other ones in the pool. -/
theorem pool_of_connectTransaction {totals next : BlockTotals}
    (run : connectTransaction E bl id height totals txId node = .ok next node') :
    node'.pool.transactions = node.pool.transactions.erase txId := by
  simp only [connectTransaction, bind_ok, get_ok] at run
  obtain ⟨_, _, ⟨rfl, rfl⟩, run⟩ := run
  split at run
  · exact absurd run rejectBlock_ok
  · simp only [bind_ok, get_ok, onPool_ok] at run
    obtain ⟨txe, _, ⟨pool, taken, rfl⟩, _, _, ⟨rfl, rfl⟩, run⟩ := run
    have erased : pool.transactions = node.pool.transactions.erase txId := by
      rw [takeTx_eq (takeTx_details taken)] at taken
      obtain ⟨_, rfl⟩ := EStateM.Result.ok.inj taken
      rfl
    dsimp only at run
    cases valid : txInputsValid E node.chain (pruneInZone node.chain txe.tx) txId with
    | error reason =>
      rw [valid] at run
      cases reason with
      | thrown => cases run
      | refused => simp only [bind_ok, throw_ok, and_false, exists_false] at run
    | ok value =>
      simp only [valid, bind_ok] at run
      obtain ⟨added, middle, adding, run⟩ := run
      cases added with
      | false =>
        simp only [Bool.not_false, ↓reduceIte, bind_ok, rejectBlock_ok, and_false,
          exists_false] at run
      | true =>
        simp only [attempt_true, onChain_ok] at adding
        obtain ⟨_, chain, _, rfl⟩ := adding
        obtain ⟨_, rfl⟩ := pure_ok.mp run
        exact erased

/-- The transactions of a block that are connected were in the pool. -/
theorem connectTransactions_pooled {good : TransactionPrefix → Prop} {totals final : BlockTotals}
    {txIds : List Hash} (sound : NodeSound E good node)
    (run : connectTransactions E bl id height totals txIds node = .ok final node') :
    ∀ txId ∈ txIds, ∃ txe stored, node.pool.transactions.get txId = some txe ∧
      node'.chain.db.storedTx txId = some stored ∧
      stored.toTransactionPrefix = txe.tx.toTransactionPrefix := by
  induction txIds generalizing totals node with
  | nil =>
    intro txId member
    cases member
  | cons first rest ih =>
    obtain ⟨next, middle, here, later⟩ := bind_ok.mp run
    have soundMiddle := (keeps_connectTransaction bl id height totals first).of_ok here sound
    obtain ⟨txe, found, _, connects, _⟩ := connectTransaction_ok here
    intro txId member
    rcases List.mem_cons.mp member with rfl | member
    · obtain ⟨txs, fees, _, others, _⟩ := connectTransactions_ok soundMiddle later
      have stored := connects.storedTx txId
      rw [if_pos rfl] at stored
      exact ⟨txe, _, found, others.keepsStored stored, pruneInZone_tx _ _⟩
    · obtain ⟨txe, stored, pooled, rest⟩ := ih soundMiddle later txId member
      rw [pool_of_connectTransaction here, Container.get_erase] at pooled
      split at pooled
      · cases pooled
      · exact ⟨txe, stored, pooled, rest⟩

/-- The transactions of a block that the main chain accepts were in the pool. -/
theorem pooled_of_handleBlock {good : TransactionPrefix → Prop} (sound : NodeSound E good node)
    (run : handleBlockToMainChain E bl (getBlockHash E bl) node = .ok () node') :
    ∀ txId ∈ bl.txHashes, ∃ txe stored, node.pool.transactions.get txId = some txe ∧
      node'.chain.db.storedTx txId = some stored ∧
      stored.toTransactionPrefix = txe.tx.toTransactionPrefix := by
  simp only [handleBlockToMainChain, connectCheckedBlock, bind_ok, get_ok, onChain_ok] at run
  obtain ⟨⟨diff, proof⟩, _, ⟨headed, checked, rfl⟩, _, _, ⟨rfl, rfl⟩, _, _,
    ⟨mined, mining, rfl⟩, totals, filled, connected, finish⟩ := run
  have soundHeaded : NodeSound E good { node with chain := headed } :=
    (keeps_onChain (preserves_checkBlockHeader cacheFree_true _ _)).of_ok (within_of_ok checked)
      sound
  have runs : onChain _ { node with chain := headed } = .ok () { node with chain := mined } :=
    onChain_ok.mpr ⟨mined, mining, rfl⟩
  have soundMined : NodeSound E good { node with chain := mined } :=
    (keeps_onChain (preserves_addTransactionFromBlock _ _ _
      ⟨rfl, .inl (coinbase_of_checkBlockHeader checked)⟩)).of_ok runs soundHeaded
  intro txId member
  obtain ⟨txe, stored, pooled, found, same⟩ :=
    connectTransactions_pooled soundMined connected txId member
  obtain ⟨bei, pushed, _⟩ := finishBlock_ok finish
  refine ⟨txe, stored, pooled, ?_, same⟩
  rw [pushed]
  exact found

/-- The transactions that a block connects are the ones that the pool holds for it. -/
theorem transactionsOf_eq {good : TransactionPrefix → Prop} {bei : BlockExtendedInfo}
    (sound : NodeSound E good node)
    (run : handleBlockToMainChain E bei.bl (getBlockHash E bei.bl) node = .ok () node')
    (connects : Connects E node.chain.db bei txs node'.chain.db) :
    node.transactionsOf bei.bl =
      (blockTxs E bei.bl txs).map fun entry => entry.2.toTransactionPrefix := by
  obtain ⟨connected, connectsTxs, same⟩ := connects.transactions
  have pooled : ∀ entry ∈ txs, (node.pool.transactions.get entry.1).map
      (·.tx.toTransactionPrefix) = some entry.2.toTransactionPrefix := by
    intro entry member
    have listed : entry.1 ∈ bei.bl.txHashes := by
      rw [← connects.txIds]
      exact List.mem_map_of_mem member
    obtain ⟨txe, stored, pooled, found, prefixes⟩ := pooled_of_handleBlock sound run _ listed
    have stores := (same.storedTx _).trans
      (connectsTxs.stores entry (List.mem_cons_of_mem _ member))
    rw [found, Option.some.injEq] at stores
    rw [pooled, Option.map_some, ← prefixes, stores]
  rw [Node.transactionsOf, ← connects.txIds, List.filterMap_map, blockTxs, List.map_cons]
  refine congrArg (List.cons _) ?_
  rw [← List.filterMap_eq_map]
  exact List.filterMap_congr fun entry member => pooled entry member

/-! ## The outputs that inputs name -/

/-- An output that was stored before a transaction is named as before. -/
theorem ConnectsTx.outputOf_before (connects : ConnectsTx E height tx txId before after)
    {input : Txin} {output : Hash × Nat} (stored : before.transactions.get output.1 ≠ none)
    (names : after.outputOf input = some output) : before.outputOf input = some output := by
  cases input with
  | gen number => cases names
  | toKey input =>
    simp only [Db.outputOf] at names ⊢
    split at names
    · exact names
    · next i _ =>
      obtain ⟨entry, found, rfl⟩ := Option.map_eq_some_iff.mp names
      rw [ArrayContainer.getSubitem, connects.effect.outputs] at found
      rcases Nat.lt_or_ge i (before.outputs.items input.amount).length with inside | outside
      · rw [List.getElem?_append_left inside] at found
        exact Option.map_eq_some_iff.mpr ⟨entry, found, rfl⟩
      · rw [List.getElem?_append_right outside] at found
        obtain ⟨own, _⟩ := mem_keyOutputsFrom (List.mem_of_getElem? found)
        exact absurd (own ▸ connects.effect.fresh) stored
    · cases names
  | multisig input =>
    obtain ⟨ms, found, rfl⟩ := Option.map_eq_some_iff.mp names
    by_cases created : input.multisigOutId ∈
        (multisigOutputsFrom E tx.toTransactionPrefix 0 tx.vout).map Prod.fst
    · obtain ⟨entry, member, same⟩ := List.mem_map.mp created
      have entered := (connects.effect.newMultisig entry member).2
      rw [same, found, Option.some.injEq] at entered
      rw [entered] at stored
      exact absurd connects.effect.fresh stored
    · rw [connects.effect.oldMultisig _ created] at found
      split at found
      · obtain ⟨old, present, rfl⟩ := Option.map_eq_some_iff.mp found
        exact Option.map_eq_some_iff.mpr ⟨old, present, rfl⟩
      · exact Option.map_eq_some_iff.mpr ⟨ms, found, rfl⟩

theorem ConnectsTxs.outputOf_before (connects : ConnectsTxs E height txs before after)
    {input : Txin} {output : Hash × Nat} (stored : before.transactions.get output.1 ≠ none)
    (names : after.outputOf input = some output) : before.outputOf input = some output := by
  induction connects with
  | nil => exact names
  | @cons txId tx rest before middle after first others ih =>
    refine first.outputOf_before stored (ih ?_ names)
    have apart : output.1 ≠ txId := fun same => stored (same ▸ first.effect.fresh)
    rw [first.effect.others _ apart, ne_eq, Option.map_eq_none_iff]
    exact stored

/-- Transactions touch a stored output exactly when an input names it before they are
connected. -/
theorem ConnectsTxs.touches_iff (connects : ConnectsTxs E height txs before after)
    {output : Hash × Nat} (stored : before.transactions.get output.1 ≠ none) :
    Touches txs after output ↔
      ∃ entry ∈ txs, ∃ input ∈ entry.2.vin, before.outputOf input = some output := by
  constructor
  · rintro ⟨entry, member, input, inside, names⟩
    exact ⟨entry, member, input, inside, connects.outputOf_before stored names⟩
  · rintro ⟨entry, member, input, inside, names⟩
    exact ⟨entry, member, input, inside, connects.named names⟩

/-! ## Spent flags -/

theorem TransactionChainEntry.markAll_eq_self {entry : TransactionChainEntry} {marks : List Mark}
    (flags : (entry.markAll id marks).spentFlags = entry.spentFlags) :
    entry.markAll id marks = entry := by
  have tx := entry.markAll_tx id marks
  have keeper := entry.markAll_keeperBlockHeight id marks
  have indexes := entry.markAll_globalOutputIndexes id marks
  cases changed : entry.markAll id marks with
  | mk otherTx otherKeeper otherIndexes otherFlags =>
    rw [changed] at tx keeper indexes flags
    cases entry with
    | mk =>
      cases tx
      cases keeper
      cases indexes
      cases flags
      rfl

/-- Marks that are cleared again leave an entry as it was exactly when none of the flags that they
concern was set. -/
theorem markAll_cleared_iff {entry : TransactionChainEntry} {marks cleared : List Mark}
    (clear : ∀ m ∈ cleared, m.2 = false)
    (covers : ∀ m ∈ marks, ∃ other ∈ cleared, other.1 = m.1) :
    (entry.markAll id marks).markAll id cleared = entry ↔
      ∀ n, entry.spentFlags[n]? = some true → ¬ ∃ m ∈ cleared, m.1 = (id, n) := by
  have untouched : ∀ n, (¬ ∃ m ∈ cleared, m.1 = (id, n)) →
      ((entry.markAll id marks).markAll id cleared).spentFlags[n]? = entry.spentFlags[n]? := by
    intro n apart
    rw [TransactionChainEntry.spentFlags_markAll_of_not_mem _ _ _ fun m member same =>
        apart ⟨m, member, same⟩,
      TransactionChainEntry.spentFlags_markAll_of_not_mem _ _ _ fun m member same => ?_]
    obtain ⟨other, inside, equal⟩ := covers m member
    exact apart ⟨other, inside, equal.trans same⟩
  have touched : ∀ n, (∃ m ∈ cleared, m.1 = (id, n)) →
      ((entry.markAll id marks).markAll id cleared).spentFlags[n]? =
        (entry.markAll id marks).spentFlags[n]?.map fun _ => false :=
    fun n touches => TransactionChainEntry.spentFlags_markAll_of_cleared _ _ _ touches
      fun m member _ => clear m member
  constructor
  · intro same n set touches
    have flag := touched n touches
    rw [same, set] at flag
    obtain ⟨_, _, equal⟩ := Option.map_eq_some_iff.mp flag.symm
    cases equal
  · intro unset
    have flags : ((entry.markAll id marks).markAll id cleared).spentFlags = entry.spentFlags := by
      apply List.ext_getElem?
      intro n
      by_cases touches : ∃ m ∈ cleared, m.1 = (id, n)
      · rw [touched n touches]
        cases old : entry.spentFlags[n]? with
        | none =>
          rw [List.getElem?_eq_none_iff] at old
          rw [List.getElem?_eq_none, Option.map_none]
          rwa [TransactionChainEntry.length_markAll]
        | some flag =>
          have bound := (List.getElem?_eq_some_iff.mp old).1
          rw [← TransactionChainEntry.length_markAll id entry marks] at bound
          rw [List.getElem?_eq_getElem bound, Option.map_some]
          cases flag with
          | false => rfl
          | true => exact absurd touches (unset n old)
      · exact untouched n touches
    rw [← TransactionChainEntry.markAll_append] at flags ⊢
    exact TransactionChainEntry.markAll_eq_self flags

/-! ## Disconnecting the top block -/

/-- The last step of connecting a block changes neither entries of transactions nor what inputs
name. -/
theorem Connects.entries {bei : BlockExtendedInfo} (connects : Connects E before bei txs after) :
    ∃ connected, ConnectsTxs E bei.height (blockTxs E bei.bl txs) before connected ∧
      after.transactions = connected.transactions ∧
      ∀ output, Touches (blockTxs E bei.bl txs) after output ↔
        Touches (blockTxs E bei.bl txs) connected output := by
  obtain ⟨connected, connectsTxs, pushed⟩ := connects.contents
  have sameOutputs : ∀ input, after.outputOf input = connected.outputOf input := by
    intro input
    rw [pushed]
    exact outputOf_congr rfl rfl input
  refine ⟨connected, connectsTxs, ?_, fun output => ?_⟩
  · rw [pushed]
    rfl
  · simp only [Touches, sameOutputs]

/-- The entries of transactions are back after a block was disconnected exactly when the block
touches no output that was marked as spent. -/
theorem Connects.transactions_iff {bei : BlockExtendedInfo} {popped : Db}
    (connects : Connects E before bei txs after) (restored : SameButSpent popped before)
    (cleared : ∀ id, (before.transactions.get id).isSome → ∃ marks : List Mark,
      popped.transactions.get id = (after.transactions.get id).map (·.markAll id marks) ∧
      (∀ m ∈ marks, m.2 = false) ∧ ∀ output, (∃ m ∈ marks, m.1 = output) ↔
        Touches (blockTxs E bei.bl txs) after output) :
    popped.transactions = before.transactions ↔
      ∀ output, before.Flagged output → ¬ Touches (blockTxs E bei.bl txs) after output := by
  have entries : ∀ id entry, before.transactions.get id = some entry →
      (popped.transactions.get id = some entry ↔ ∀ n, entry.spentFlags[n]? = some true →
        ¬ Touches (blockTxs E bei.bl txs) after (id, n)) := by
    intro id entry found
    obtain ⟨connected, connectsTxs, sameEntries, sameTouches⟩ := connects.entries
    obtain ⟨marks, marked, touched⟩ := connectsTxs.entry found
    obtain ⟨unmarks, unmarked, clear, covers⟩ := cleared id (by rw [found, Option.isSome_some])
    have covered : ∀ m ∈ marks, ∃ other ∈ unmarks, other.1 = m.1 :=
      fun m member => (covers m.1).mpr ((sameTouches m.1).mpr (touched m member))
    rw [unmarked, sameEntries, marked, Option.map_some, Option.some.injEq,
      markAll_cleared_iff clear covered]
    simp only [covers]
  constructor
  · rintro same ⟨id, n⟩ ⟨entry, found, set⟩
    exact (entries id entry found).mp (same ▸ found) n set
  · intro apart
    apply Container.ext
    intro id
    cases found : before.transactions.get id with
    | none =>
      have related := restored.transactions id
      rw [found] at related
      cases other : popped.transactions.get id with
      | none => rfl
      | some entry =>
        rw [other] at related
        cases related
    | some entry =>
      exact (entries id entry found).mpr fun n set => apart (id, n) ⟨entry, found, set⟩

/-- A node that connected a block can disconnect it, and then the containers of the main chain
are back exactly when no input of the block names an output that was marked as spent. -/
theorem NodeBuilt.pop_restores_iff {good : TransactionPrefix → Prop} {known : Block → Prop}
    {J : Chain → Prop} (free : CacheFree J) (built : NodeBuilt E good known J node)
    (nonempty : node.chain.db.blocks ≠ []) (isKnown : known bl)
    (run : handleBlockToMainChain E bl (getBlockHash E bl) node = .ok () node')
    (addToPool : Bool) :
    ∃ popped, popBlockFromBlockchain E addToPool node' = .ok () popped ∧
      (SameContainers popped.chain.db node.chain.db ↔
        ∀ tx ∈ node.transactionsOf bl, ∀ input ∈ tx.vin,
          ¬ node.chain.db.RefersToSpent input) := by
  obtain ⟨after, bei, txs, rfl, connects⟩ :=
    built.push free isKnown (fun none => absurd none nonempty) run
  obtain ⟨popped, popping, restored, cleared⟩ := popBlock_runs connects nonempty
    built.built.aliases (Option.not_isSome_iff_eq_none.mp (by
      simp [built.built.increments_isSome])) (.refl _) after.keeps.sound addToPool
  refine ⟨popped, popping, ?_⟩
  have same : SameContainers popped.chain.db node.chain.db ↔
      popped.chain.db.transactions = node.chain.db.transactions :=
    ⟨SameContainers.transactions, fun entries => ⟨restored.blocks, restored.blocksIndex, entries,
      restored.spentKeys, restored.outputs, restored.multisigOuts, restored.aliases,
      restored.addrToAlias, restored.perBlockGindexIncs⟩⟩
  rw [same, connects.transactions_iff restored cleared,
    transactionsOf_eq built.keeps.sound run connects]
  obtain ⟨connected, connectsTxs, _, sameTouches⟩ := connects.entries
  have touches : ∀ output, node.chain.db.Flagged output →
      (Touches (blockTxs E bei.bl txs) node'.chain.db output ↔ ∃ entry ∈ blockTxs E bei.bl txs,
        ∃ input ∈ entry.2.vin, node.chain.db.outputOf input = some output) := by
    rintro output ⟨entry, found, _⟩
    rw [sameTouches, connectsTxs.touches_iff]
    rw [found]
    exact Option.some_ne_none _
  constructor
  · intro apart tx member input inside
    obtain ⟨entry, listed, rfl⟩ := List.mem_map.mp member
    rintro ⟨output, names, flagged⟩
    exact apart output flagged ((touches output flagged).mpr ⟨entry, listed, input, inside, names⟩)
  · intro unspent output flagged touched
    obtain ⟨entry, listed, input, inside, names⟩ := (touches output flagged).mp touched
    exact unspent _ (List.mem_map_of_mem listed) input inside ⟨output, names, flagged⟩

/-- Wherever the main chain accepts a block, the block can be disconnected again, and then every
container of the main chain is back exactly when no input of the transactions of the block names
an output whose spent flag was set. -/
theorem popBlock_restores_iff (midway : Midway E node)
    (run : handleBlockToMainChain E bl (getBlockHash E bl) node = .ok () node')
    (addToPool : Bool) :
    ∃ popped, popBlockFromBlockchain E addToPool node' = .ok () popped ∧
      (SameContainers popped.chain.db node.chain.db ↔
        ∀ tx ∈ node.transactionsOf bl, ∀ input ∈ tx.vin,
          ¬ node.chain.db.RefersToSpent input) :=
  midway.built.1.pop_restores_iff cacheFree_stored midway.built.2 trivial run addToPool

end PopAfterPush

/-! ## An output that two blocks spend -/

namespace ForgottenSpend

open OlderMultisig

/-- Below the checkpoint at height 100 no signature is checked, and no signature is valid. -/
def env : Env :=
  { Env.plain with
    points := Container.set ∅ 100 ⟨100⟩
    checkRingSignature := fun _ _ _ _ => false
    checkSignature := fun _ _ _ => false }

def mined (height fee : Nat) (txHashes : List Hash) : Block :=
  { Block.plain (height + 1) height (coin + fee) ⟨height⟩ txHashes with timestamp := 120 * height }

/-- A node that holds a transaction for the next block. It spends the coin of the first block. -/
def first : Node :=
  (nodeSystem env anyBlock).after (addNewBlock env genesis (Node.fresh 1000000)).2
    (((List.range' 1 12).map fun height => Event.submitBlock (mined height 0 [])) ++
      [.incomingTx (move 101 0 (.toKey ⟨⟨1⟩, 0⟩)) 100 true])

/-- The next block connected, and a second transaction that spends the same coin. -/
def second : Node :=
  (nodeSystem env anyBlock).after first
    [.submitBlock (mined 13 txMinimumFee [⟨101⟩]),
      .incomingTx (move 102 0 (.toKey ⟨⟨1⟩, 0⟩)) 100 true]

def connect (bl : Block) (node : Node) : Node :=
  final (handleBlockToMainChain env bl (getBlockHash env bl) node)

theorem first_reachable : (nodeSystem env anyBlock).Reachable first := by
  refine System.Reachable.after ?_ _
  exact .start ⟨genesis, 1000000, trivial, rfl, by decide, rfl⟩

theorem second_reachable : (nodeSystem env anyBlock).Reachable second :=
  first_reachable.after _

theorem first_connects : handleBlockToMainChain env (mined 13 txMinimumFee [⟨101⟩])
    (getBlockHash env (mined 13 txMinimumFee [⟨101⟩])) first =
      .ok () (connect (mined 13 txMinimumFee [⟨101⟩]) first) := by
  apply ok_of_answer
  decide +kernel

theorem second_connects : handleBlockToMainChain env (mined 14 txMinimumFee [⟨102⟩])
    (getBlockHash env (mined 14 txMinimumFee [⟨102⟩])) second =
      .ok () (connect (mined 14 txMinimumFee [⟨102⟩]) second) := by
  apply ok_of_answer
  decide +kernel

/-- The second block is disconnected, and the flag that the first one set is cleared. -/
theorem flag_lost : (nodeSystem env anyBlock).Reachable second ∧
    ∃ pushed popped, handleBlockToMainChain env (mined 14 txMinimumFee [⟨102⟩])
        (getBlockHash env (mined 14 txMinimumFee [⟨102⟩])) second = .ok () pushed ∧
      popBlockFromBlockchain env true pushed = .ok () popped ∧
      ¬ SameContainers popped.chain.db second.chain.db := by
  refine ⟨second_reachable, _, _, second_connects, ok_of_answer (by decide +kernel), ?_⟩
  intro same
  have flags : ∀ db : Db, db.transactions = second.chain.db.transactions →
      (db.transactions.get ⟨2⟩).map TransactionChainEntry.spentFlags = some [true] := by
    intro db equal
    rw [equal]
    decide +kernel
  exact absurd (flags _ same.transactions) (by decide +kernel)

/-- The first block is disconnected, and every container is back. -/
theorem containers_back : ∃ popped, popBlockFromBlockchain env true
      (connect (mined 13 txMinimumFee [⟨101⟩]) first) = .ok () popped ∧
    SameContainers popped.chain.db first.chain.db := by
  obtain ⟨popped, popping, restored⟩ :=
    popBlock_restores_iff (.reached first_reachable) first_connects true
  exact ⟨popped, popping, restored.mpr (by decide +kernel)⟩

end ForgottenSpend
end Virie
