import Virie.Chainstate.Blocks

/-! # Databases that grew block by block

A database is built when it comes from the empty one by connecting blocks, up to spent
flags of key outputs. Connecting and disconnecting blocks leads from built databases to
built ones, so that an invariant of built databases holds in every main chain. -/

open Foundation

namespace Virie

/-- The databases that blocks build, up to spent flags of key outputs. The first block has no
transactions besides its coinbase. -/
inductive Built (E : Env) : Db → Prop
  | empty {db : Db} (same : SameButSpent db {}) : Built E db
  | block {before after db : Db} {bei : BlockExtendedInfo} {txs : List (Hash × Transaction)}
      (below : Built E before) (connects : Connects E before bei txs after)
      (genesis : before.blocks = [] → txs = []) (same : SameButSpent db after) : Built E db

/-- The blocks of a chain record their heights and name the blocks below them. -/
def Linked (E : Env) (blocks : List BlockExtendedInfo) : Prop :=
  ∀ i bei, blocks[i]? = some bei → bei.height = i ∧
    ∀ j, i = j + 1 → ∃ prev, blocks[j]? = some prev ∧ bei.bl.prevId = getBlockHash E prev.bl

open Procedure

section History

variable {E : Env} {before after db : Db} {bei : BlockExtendedInfo}
  {txs : List (Hash × Transaction)}

theorem Built.congr (built : Built E before) (same : SameButSpent db before) : Built E db := by
  cases built with
  | empty other => exact .empty (same.trans other)
  | block below connects genesis other => exact .block below connects genesis (same.trans other)

theorem Built.push (below : Built E before) (connects : Connects E before bei txs after)
    (genesis : before.blocks = [] → txs = []) : Built E after :=
  .block below connects genesis (.refl after)

/-- An invariant of built databases: it holds of the empty one, connecting a block keeps it, and
it does not depend on spent flags of key outputs. -/
theorem Built.invariant {P : Db → Prop} (built : Built E db) (empty : P {})
    (congr : ∀ {a b : Db}, SameButSpent a b → P b → P a)
    (push : ∀ {before after : Db} {bei : BlockExtendedInfo} {txs : List (Hash × Transaction)},
      Built E before → Connects E before bei txs after → (before.blocks = [] → txs = []) →
      P before → P after) : P db := by
  induction built with
  | empty same => exact congr same empty
  | block below connects genesis same ih => exact congr same (push below connects genesis ih)

/-! ## What connecting a block does -/

namespace Connects

variable (connects : Connects E before bei txs after)

include connects

theorem blocks : after.blocks = before.blocks ++ [bei] := by
  obtain ⟨connected, connectsTxs, pushed⟩ := connects.contents
  rw [pushed, ← connectsTxs.sameBlocks.blocks]
  rfl

theorem blocksIndex :
    after.blocksIndex = before.blocksIndex.set (getBlockHash E bei.bl) bei.height := by
  obtain ⟨connected, connectsTxs, pushed⟩ := connects.contents
  rw [pushed, ← connectsTxs.sameBlocks.blocksIndex]
  rfl

theorem increments : after.perBlockGindexIncs = before.perBlockGindexIncs.set bei.height
    ((countOutputs (blockTxs E bei.bl txs)).toList.map fun entry => ⟨entry.1, entry.2⟩) := by
  obtain ⟨connected, connectsTxs, pushed⟩ := connects.contents
  rw [pushed, ← connectsTxs.sameBlocks.perBlockGindexIncs]
  rfl

/-- The containers of transactions are the ones the transactions of the block led to. -/
theorem transactions : ∃ connected,
    ConnectsTxs E bei.height (blockTxs E bei.bl txs) before connected ∧
      SameContents after connected := by
  obtain ⟨connected, connectsTxs, pushed⟩ := connects.contents
  refine ⟨connected, connectsTxs, ?_⟩
  rw [pushed]
  exact ⟨rfl, rfl, rfl, rfl, rfl, fun _ => optionRel_refl SameEntry.refl _⟩

end Connects

/-! ## First invariants -/

/-- A property that every block has when it is connected, of its height and its entry. -/
theorem Built.allBlocks {P : Nat → BlockExtendedInfo → Prop} (built : Built E db)
    (step : ∀ {before after : Db} {bei : BlockExtendedInfo} {txs : List (Hash × Transaction)},
      Connects E before bei txs after → P before.blocks.length bei)
    {i : Nat} (found : db.blocks[i]? = some bei) : P i bei := by
  refine built.invariant (P := fun db => ∀ i bei, db.blocks[i]? = some bei → P i bei)
    ?_ ?_ ?_ i bei found
  · intro i bei found
    simp at found
  · intro a b same all
    rwa [same.blocks]
  · intro before after bei txs _ connects _ all i other found
    rw [connects.blocks] at found
    rcases Nat.lt_or_ge i before.blocks.length with inside | outside
    · rw [List.getElem?_append_left inside] at found
      exact all i other found
    · rw [List.getElem?_append_right outside, List.getElem?_singleton] at found
      split at found
      · next top =>
        cases found
        have here : i = before.blocks.length := by omega
        rw [here]
        exact step connects
      · cases found

theorem Built.linked (built : Built E db) : Linked E db.blocks := by
  refine built.invariant (P := fun db => Linked E db.blocks) ?_ ?_ ?_
  · intro i bei found
    simp at found
  · intro a b same linked
    rwa [same.blocks]
  · intro before after bei txs _ connects _ linked i other found
    rw [connects.blocks] at found
    have old : ∀ {j : Nat} {entry : BlockExtendedInfo}, before.blocks[j]? = some entry →
        after.blocks[j]? = some entry := by
      intro j entry present
      rw [connects.blocks, List.getElem?_append_left, present]
      exact (List.getElem?_eq_some_iff.mp present).1
    rcases Nat.lt_or_ge i before.blocks.length with inside | outside
    · rw [List.getElem?_append_left inside] at found
      obtain ⟨height, below⟩ := linked i other found
      refine ⟨height, fun j next => ?_⟩
      obtain ⟨prev, present, names⟩ := below j next
      exact ⟨prev, old present, names⟩
    · rw [List.getElem?_append_right outside, List.getElem?_singleton] at found
      split at found
      · next top =>
        cases found
        have here : i = before.blocks.length := by omega
        refine ⟨by rw [connects.height, here], fun j next => ?_⟩
        have bound : j < before.blocks.length := by omega
        refine ⟨before.blocks[j], old (List.getElem?_eq_getElem bound), ?_⟩
        have last : before.blocks.getLast? = some before.blocks[j] := by
          rw [List.getLast?_eq_getElem?, ← here, next, Nat.add_sub_cancel,
            List.getElem?_eq_getElem bound]
        rw [connects.prevId, Db.getTopBlockId, last]
      · cases found

theorem Built.prevLinks (built : Built E db) (count : Nat) :
    db.validateBlockchainPrevLinks E count = true := by
  simp only [Db.validateBlockchainPrevLinks, List.all_eq_true]
  intro i _
  split
  · next prev bei prevFound found =>
    obtain ⟨height, below⟩ := built.linked (i + 1) bei found
    obtain ⟨other, otherFound, names⟩ := below i rfl
    rw [prevFound, Option.some.injEq] at otherFound
    rw [height, names, otherFound]
    simp
  · rfl

theorem Built.aliases (built : Built E db) : AliasesConsistent db.aliases db.addrToAlias := by
  refine built.invariant (P := fun db => AliasesConsistent db.aliases db.addrToAlias) ?_ ?_ ?_
  · refine ⟨fun name => ?_, fun address set found => ?_, fun address name => ?_⟩
    · simp
    · simp at found
    · simp [hasName, ownerOf, contains_empty]
  · intro a b same consistent
    rwa [same.aliases, same.addrToAlias]
  · intro before after bei txs _ connects _ consistent
    obtain ⟨connected, connectsTxs, same⟩ := connects.transactions
    rw [same.aliases, same.addrToAlias]
    exact connectsTxs.aliases consistent

/-- There are increments for the heights of the chain and for no others. -/
theorem Built.increments_isSome (built : Built E db) (height : Nat) :
    (db.perBlockGindexIncs.get height).isSome = decide (height < db.blocks.length) := by
  refine built.invariant (P := fun db => ∀ height,
    (db.perBlockGindexIncs.get height).isSome = decide (height < db.blocks.length)) ?_ ?_ ?_ height
  · simp
  · intro a b same all
    rwa [same.perBlockGindexIncs, same.blocks]
  · intro before after bei txs _ connects _ all height
    rw [connects.increments, connects.blocks, Container.get_set, List.length_append,
      List.length_singleton, connects.height]
    split
    · next here => simp [here]
    · next apart =>
      rw [all, decide_eq_decide]
      omega

/-- The index knows the heights of the blocks of the chain and no others. -/
theorem Built.blocksIndex_get (built : Built E db) (id : Hash) (height : Nat) :
    db.blocksIndex.get id = some height ↔
      ∃ bei, db.blocks[height]? = some bei ∧ getBlockHash E bei.bl = id := by
  refine built.invariant (P := fun db => ∀ id height, db.blocksIndex.get id = some height ↔
    ∃ bei, db.blocks[height]? = some bei ∧ getBlockHash E bei.bl = id) ?_ ?_ ?_ id height
  · simp
  · intro a b same all
    rwa [same.blocksIndex, same.blocks]
  · intro before after bei txs _ connects _ all id height
    rw [connects.blocksIndex, connects.blocks, Container.get_set, connects.height]
    have unused : before.blocksIndex.get (getBlockHash E bei.bl) = none :=
      Container.get_eq_none_of_not_has _ _ (by simp [connects.fresh])
    split
    · next here =>
      subst here
      constructor
      · rintro same
        cases same
        exact ⟨bei, by simp, rfl⟩
      · rintro ⟨other, found, same⟩
        rcases Nat.lt_or_ge height before.blocks.length with inside | outside
        · rw [List.getElem?_append_left inside] at found
          have indexed := (all (getBlockHash E bei.bl) height).mpr ⟨other, found, same⟩
          rw [unused] at indexed
          cases indexed
        · have bound := (List.getElem?_eq_some_iff.mp found).1
          rw [List.length_append, List.length_singleton] at bound
          congr 1
          omega
    · next apart =>
      rw [all]
      constructor
      · rintro ⟨other, found, same⟩
        exact ⟨other, by
          rw [List.getElem?_append_left (List.getElem?_eq_some_iff.mp found).1, found], same⟩
      · rintro ⟨other, found, same⟩
        refine ⟨other, ?_, same⟩
        rcases Nat.lt_or_ge height before.blocks.length with inside | outside
        · rwa [List.getElem?_append_left inside] at found
        · rw [List.getElem?_append_right outside, List.getElem?_singleton] at found
          split at found
          · cases found
            exact absurd same apart
          · cases found

/-- A coinbase of the required form spends no multisig output. -/
theorem multisigInputIds_coinbase {bl : Block} {height : Nat} {pos : Bool}
    (valid : prevalidateMinerTransaction bl height pos = true) :
    bl.minerTx.multisigInputIds = [] := by
  simp only [prevalidateMinerTransaction, Bool.and_eq_true] at valid
  have form := valid.1.1.1.1
  rw [TransactionPrefix.multisigInputIds, List.filterMap_eq_nil_iff]
  intro input member
  cases pos with
  | false =>
    have gen := isGen_of_isPowCoinbase form member
    cases input with
    | multisig input => cases gen
    | _ => rfl
  | true =>
    simp only [↓reduceIte, Transaction.isPosCoinbase, TransactionPrefix.isCoinbase,
      Bool.and_eq_true] at form
    obtain ⟨first, second⟩ := form
    split at second
    · next gen stake vin =>
      rw [vin] at member first
      rcases List.mem_cons.mp member with rfl | other
      · cases input with
        | multisig input => simp at first
        | _ => rfl
      · rw [List.mem_singleton.mp other]
        rfl
    · simp at second

/-- A coinbase names the height of its block. -/
theorem Built.coinbaseHeight (built : Built E db) {height : Nat}
    (found : db.blocks[height]? = some bei) :
    getBlockHeight bei.bl = height := by
  refine built.allBlocks (P := fun height bei => getBlockHeight bei.bl = height) ?_ found
  intro before after bei txs connects
  have form := connects.coinbase
  simp only [prevalidateMinerTransaction, Bool.and_eq_true, beq_iff_eq] at form
  rw [getBlockHeight, form.1.1.1.2, connects.height]

/-- An invariant of the transactions of built databases: connecting one transaction keeps it. At
height zero only transactions without multisig inputs are connected. -/
theorem Built.txInvariant {P : Db → Prop} (built : Built E db) (empty : P {})
    (congr : ∀ {a b : Db}, SameContents a b → P b → P a)
    (step : ∀ {height : Nat} {tx : Transaction} {txId : Hash} {before after : Db},
      ConnectsTx E height tx txId before after → (height = 0 → tx.multisigInputIds = []) →
      P before → P after) : P db := by
  have steps : ∀ {height : Nat} {txs : List (Hash × Transaction)} {before after : Db},
      ConnectsTxs E height txs before after →
      (height = 0 → ∀ entry ∈ txs, entry.2.multisigInputIds = []) → P before → P after := by
    intro height txs before after connects low holds
    induction connects with
    | nil => exact holds
    | cons first others ih =>
      exact ih (fun none entry member => low none entry (.tail _ member))
        (step first (fun none => low none _ (.head _)) holds)
  refine built.invariant empty (fun same holds => congr same.toSameContents holds) ?_
  intro before after bei txs _ connects genesis holds
  obtain ⟨connected, connectsTxs, same⟩ := connects.transactions
  refine congr same (steps connectsTxs (fun low entry member => ?_) holds)
  rw [connects.height, List.length_eq_zero_iff] at low
  rw [genesis low, blockTxs, List.mem_singleton] at member
  rw [member]
  exact multisigInputIds_coinbase connects.coinbase

/-- A property of stored transactions that the connected ones have. -/
theorem Built.allTxs {P : Hash → Transaction → Prop} (built : Built E db)
    (step : ∀ {height : Nat} {tx : Transaction} {txId : Hash} {before after : Db},
      ConnectsTx E height tx txId before after → P txId tx) : db.AllTxs P := by
  refine built.txInvariant ?_ ?_ ?_
  · intro id entry found
    simp at found
  · intro a b same all id entry found
    obtain ⟨other, stored, sameEntry⟩ := same.entry found
    rw [sameEntry.tx]
    exact all id other stored
  · intro height tx txId before after connects _ all id entry found
    obtain ⟨indexes, entered⟩ := connects.effect.entered
    by_cases here : id = txId
    · rw [here, entered] at found
      cases found
      rw [here]
      exact step connects
    · rw [connects.effect.others id here, Option.map_eq_some_iff] at found
      obtain ⟨old, stored, rfl⟩ := found
      rw [TransactionChainEntry.markAll_tx]
      exact all id old stored

/-- The offsets of the inputs of stored transactions can be read. -/
theorem Built.offsetsRead (built : Built E db) :
    db.AllTxs fun _ tx => ∀ input ∈ tx.vin, input.OffsetsRead :=
  built.allTxs fun connects input member => (connects.resolved input member).offsetsRead

/-! ## Pushing and popping -/

/-- A built database with a block on it has a block that was connected last. -/
theorem Built.top (built : Built E db) (nonempty : db.blocks ≠ []) :
    ∃ before after bei txs, Built E before ∧ Connects E before bei txs after ∧
      SameButSpent db after ∧ db.blocks = before.blocks ++ [bei] := by
  cases built with
  | empty same => exact absurd same.blocks nonempty
  | @block before after _ bei txs below connects _ same =>
    exact ⟨before, after, bei, txs, below, connects, same, by rw [same.blocks, connects.blocks]⟩

variable {good : TransactionPrefix → Prop} {known : Block → Prop} {J : Chain → Prop}
  {node node' : Node}

/-- The nodes between two procedures: sound transactions over a database that known blocks
built. -/
structure NodeBuilt (E : Env) (good : TransactionPrefix → Prop) (known : Block → Prop)
    (J : Chain → Prop) (node : Node) : Prop where
  keeps : NodeKeeps E good J node
  built : Built E node.chain.db
  known : ∀ bei ∈ node.chain.db.blocks, known bei.bl

theorem NodeKeeps.sound (keeps : NodeKeeps E good J node) : NodeSound E good node :=
  ⟨keeps.pool, keeps.txs, trivial⟩

/-- The top block of a built chain can be disconnected, unless it is the genesis block. -/
theorem NodeBuilt.pop (before : NodeBuilt E good known J node)
    (above : 1 < node.chain.db.blocks.length) (addToPool : Bool) :
    ∃ node', popBlockFromBlockchain E addToPool node = .ok () node' ∧
      NodeBuilt E good known J node' ∧
      node'.chain.db.blocks = node.chain.db.blocks.dropLast := by
  obtain ⟨below, after, bei, txs, belowBuilt, connects, same, blocks⟩ :=
    before.built.top (List.length_pos_iff.mp (by omega))
  have nonempty : below.blocks ≠ [] := by
    rw [blocks, List.length_append, List.length_singleton] at above
    exact List.length_pos_iff.mp (by omega)
  obtain ⟨node', run, restored, _⟩ := popBlock_runs connects nonempty belowBuilt.aliases
    (Option.not_isSome_iff_eq_none.mp (by simp [belowBuilt.increments_isSome])) same
    before.keeps.sound addToPool
  have shorter : node'.chain.db.blocks = node.chain.db.blocks.dropLast := by
    rw [restored.blocks, blocks, List.dropLast_concat]
  refine ⟨node', run, ⟨(keeps_popBlockFromBlockchain addToPool).of_ok run before.keeps,
    belowBuilt.congr restored, fun bei member => before.known bei ?_⟩, shorter⟩
  rw [shorter] at member
  exact List.dropLast_subset _ member

/-- A block that the main chain accepts leads to a built database with that block on top. -/
theorem NodeBuilt.push (free : CacheFree J) (before : NodeBuilt E good known J node) {bl : Block}
    (isKnown : known bl) (genesis : node.chain.db.blocks = [] → bl.txHashes = [])
    (run : handleBlockToMainChain E bl (getBlockHash E bl) node = .ok () node') :
    NodeBuilt E good known J node' ∧ ∃ bei txs, bei.bl = bl ∧
      Connects E node.chain.db bei txs node'.chain.db := by
  obtain ⟨bei, txs, rfl, connects⟩ := connects_of_handleBlockToMainChain before.keeps.sound run
  refine ⟨⟨(keeps_handleBlockToMainChain free _ _).of_ok run before.keeps,
    before.built.push connects fun none => ?_, fun other member => ?_⟩, bei, txs, rfl, connects⟩
  · have ids := connects.txIds
    rwa [genesis none, List.map_eq_nil_iff] at ids
  · rw [connects.blocks, List.mem_append, List.mem_singleton] at member
    rcases member with below | rfl
    · exact before.known other below
    · exact isKnown

end History
end Virie
