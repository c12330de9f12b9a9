import Virie.Chainstate.Running

/-! # Finding the split point of two chains

A node that asks for blocks sends the ids of its newest blocks, of a few older ones in
growing steps and of the genesis block. The answering node continues from the highest of
them that it has. -/

open Foundation

namespace Virie

/-! ## The short history -/

/-- The loop of the short history: how far back the next ids lie, from an offset and a step on.
The step doubles once the solid part is passed. It is never greater than the offset it leads to,
so that no sum exceeds three times the size. -/
def historyOffsets (solidSize sz : Nat) : Nat → Nat → Nat → List Nat
  | 0, _, _ => []
  | fuel + 1, backOffset, multiplier =>
    if backOffset < sz then
      let multiplier := if backOffset > solidSize then multiplier * 2 else multiplier
      backOffset :: historyOffsets solidSize sz fuel (backOffset + multiplier) multiplier
    else []

/-- The converted elements of a short history of a chain, the newest first. The size bounds the
loop. -/
def getShortChainHistory {α β : Type} (solidSize : Nat) (bch : List α) (convert : α → β) :
    List β :=
  if bch.length = 0 then []
  else
    (historyOffsets solidSize bch.length bch.length 1 1).filterMap (fun backOffset =>
      bch[bch.length - backOffset]?.map convert) ++ (bch[0]?.map convert).toList

section Blocks

variable (E : Env)

def Db.getShortChainHistory (db : Db) : List Hash :=
  Virie.getShortChainHistory 10 db.blocks fun bei => getBlockHash E bei.bl

/-! ## The answer -/

def blocksIdsSynchronizingDefaultCount : Nat := 2000

structure BlockContextInfo where
  h : Hash
  cumulSize : Nat
deriving DecidableEq, Inhabited

structure ResponseChainEntry where
  startHeight : Nat
  totalHeight : Nat
  blockIds : List BlockContextInfo

/-- The height of the first listed block that the chain has. The list must end with the genesis
block. -/
def Db.findStarterOffset (db : Db) (qblockIds : List Hash) : Outcome Nat := do
  Outcome.require (!qblockIds.isEmpty)
  let genesis ← Outcome.demand .thrown db.blocks[0]?
  Outcome.require (qblockIds.getLast? == some (getBlockHash E genesis.bl))
  Outcome.demand .refused (qblockIds.findSome? db.checkedGetHeightById)

/-- Fill in the id of the last entry of the answer. -/
def fillLastId (h : Hash) (infos : List BlockContextInfo) : List BlockContextInfo :=
  infos.dropLast ++ (infos.getLast?.map fun info => { info with h }).toList

/-- Add an entry for a block. The id it names as its parent is the one of the entry before. -/
def addContextInfo (infos : List BlockContextInfo) (bei : BlockExtendedInfo) :
    List BlockContextInfo :=
  fillLastId bei.bl.prevId infos ++ [⟨nullHash, bei.blockCumulativeSize⟩]

/-- Entries for visited blocks. The last one gets its id after the loop. -/
def contextInfos (visited : List BlockExtendedInfo) : List BlockContextInfo :=
  match visited.getLast? with
  | some bei => fillLastId (getBlockHash E bei.bl) (visited.foldl addContextInfo [])
  | none => visited.foldl addContextInfo []

/-- The answer to a list of ids: entries for the blocks from the split on. -/
def Db.findBlockchainSupplement (db : Db) (qblockIds : List Hash) : Outcome ResponseChainEntry := do
  let startHeight ← db.findStarterOffset E qblockIds
  pure
    { startHeight
      totalHeight := db.blocks.length
      blockIds := contextInfos E
        ((db.blocks.drop startHeight).take blocksIdsSynchronizingDefaultCount) }

end Blocks

section Synchronization

variable {E : Env}

/-! ## Heights of the short history -/

/-- With fuel for the rest of the chain, the loop runs until the offset reaches the size. -/
theorem historyOffsets_loop (solidSize : Nat) {sz fuel backOffset multiplier : Nat}
    (enough : sz - backOffset ≤ fuel) (positive : 1 ≤ multiplier) :
    historyOffsets solidSize sz fuel backOffset multiplier =
      if backOffset < sz then
        backOffset :: historyOffsets solidSize sz fuel
          (backOffset + if backOffset > solidSize then multiplier * 2 else multiplier)
          (if backOffset > solidSize then multiplier * 2 else multiplier)
      else [] := by
  induction fuel generalizing backOffset multiplier with
  | zero => rw [historyOffsets, if_neg (by omega)]
  | succ fuel ih =>
    rw [historyOffsets]
    by_cases inside : backOffset < sz
    · rw [if_pos inside, if_pos inside]
      dsimp only
      have step : 1 ≤ if backOffset > solidSize then multiplier * 2 else multiplier := by
        split
        · omega
        · exact positive
      generalize (if backOffset > solidSize then multiplier * 2 else multiplier) = next at step ⊢
      rw [ih (by omega) step, historyOffsets]
    · rw [if_neg inside, if_neg inside]

/-- The offsets lie inside the chain and grow, and a step is at most as large as its offset. -/
theorem historyOffsets_bounds {solidSize sz fuel backOffset multiplier : Nat}
    (positive : 1 ≤ multiplier) :
    (historyOffsets solidSize sz fuel backOffset multiplier).Pairwise (· < ·) ∧
      ∀ offset ∈ historyOffsets solidSize sz fuel backOffset multiplier,
        backOffset ≤ offset ∧ offset < sz := by
  induction fuel generalizing backOffset multiplier with
  | zero => exact ⟨.nil, fun offset member => by cases member⟩
  | succ fuel ih =>
    rw [historyOffsets]
    by_cases inside : backOffset < sz
    · rw [if_pos inside]
      dsimp only
      have step : 1 ≤ if backOffset > solidSize then multiplier * 2 else multiplier := by
        split
        · omega
        · exact positive
      generalize (if backOffset > solidSize then multiplier * 2 else multiplier) = next at step ⊢
      obtain ⟨sorted, bounds⟩ := @ih (backOffset + next) next step
      refine ⟨List.pairwise_cons.mpr ⟨fun offset member => ?_, sorted⟩, fun offset member => ?_⟩
      · have above := (bounds offset member).1
        omega
      · rcases List.mem_cons.mp member with rfl | later
        · exact ⟨Nat.le_refl _, inside⟩
        · obtain ⟨above, below⟩ := bounds offset later
          exact ⟨by omega, below⟩
    · rw [if_neg inside]
      exact ⟨.nil, fun offset member => by cases member⟩

/-- The heights of the short history of a chain with a number of blocks. -/
def historyHeights (solidSize sz : Nat) : List Nat :=
  (historyOffsets solidSize sz sz 1 1).map (sz - ·) ++ [0]

/-- The heights go down to the genesis block. -/
theorem historyHeights_sorted (solidSize sz : Nat) :
    (historyHeights solidSize sz).Pairwise (· ≥ ·) := by
  obtain ⟨sorted, _⟩ := @historyOffsets_bounds solidSize sz sz 1 1 (Nat.le_refl _)
  refine List.pairwise_append.mpr ⟨List.pairwise_map.mpr (sorted.imp fun less => ?_),
    List.pairwise_singleton _ _, fun height _ genesis member => ?_⟩
  · omega
  · rw [List.mem_singleton.mp member]
    exact Nat.zero_le _

theorem getShortChainHistory_eq {α β : Type} (solidSize : Nat) {bch : List α} (convert : α → β)
    (nonempty : bch ≠ []) :
    getShortChainHistory solidSize bch convert =
      (historyHeights solidSize bch.length).filterMap fun height => bch[height]?.map convert := by
  have positive : bch.length ≠ 0 := fun none => nonempty (List.length_eq_zero_iff.mp none)
  have genesis : ([0] : List Nat).filterMap (fun height => bch[height]?.map convert) =
      (bch[0]?.map convert).toList := by
    rw [List.filterMap_cons]
    cases bch[0]? <;> rfl
  rw [getShortChainHistory, if_neg positive, historyHeights, List.filterMap_append,
    List.filterMap_map, genesis]
  rfl

/-! ## The split point -/

variable {a b : Db}

/-- The index of a built database knows the ids of its blocks. -/
theorem Built.checkedHeight_iff (built : Built E b) (id : Hash) (height : Nat) :
    b.checkedGetHeightById id = some height ↔
      ∃ bei, b.blocks[height]? = some bei ∧ getBlockHash E bei.bl = id := by
  rw [Db.checkedGetHeightById, Option.filter_eq_some_iff, built.blocksIndex_get]
  constructor
  · exact fun known => known.1
  · rintro ⟨bei, found, same⟩
    exact ⟨⟨bei, found, same⟩, decide_eq_true (List.getElem?_eq_some_iff.mp found).1⟩

/-- The first known id of a list, whose known ids stand at falling heights, is the highest. -/
theorem le_of_findSome {ids : Nat → Option Hash} {known : Hash → Option Nat} {heights : List Nat}
    (sorted : heights.Pairwise (· ≥ ·))
    (level : ∀ height id found, ids height = some id → known id = some found → found = height)
    {first : Nat} (firstKnown : (heights.filterMap ids).findSome? known = some first) :
    (∃ id, ids first = some id ∧ known id = some first) ∧
      ∀ id ∈ heights.filterMap ids, ∀ height, known id = some height → height ≤ first := by
  induction heights with
  | nil => cases firstKnown
  | cons height rest ih =>
    obtain ⟨below, restSorted⟩ := List.pairwise_cons.mp sorted
    cases named : ids height with
    | none =>
      rw [List.filterMap_cons_none named] at firstKnown ⊢
      exact ih restSorted firstKnown
    | some id =>
      rw [List.filterMap_cons_some named] at firstKnown ⊢
      rw [List.findSome?_cons] at firstKnown
      cases here : known id with
      | some found =>
        rw [here] at firstKnown
        obtain rfl := Option.some.inj firstKnown
        have same := level height id found named here
        subst same
        refine ⟨⟨id, named, here⟩, fun other member level' knownThere => ?_⟩
        rcases List.mem_cons.mp member with rfl | later
        · rw [here] at knownThere
          exact Nat.le_of_eq (Option.some.inj knownThere).symm
        · obtain ⟨lower, inside, namedThere⟩ := List.mem_filterMap.mp later
          rw [level lower other level' namedThere knownThere]
          exact below lower inside
      | none =>
        rw [here] at firstKnown
        obtain ⟨common, highest⟩ := ih restSorted firstKnown
        refine ⟨common, fun other member level' knownThere => ?_⟩
        rcases List.mem_cons.mp member with rfl | later
        · rw [here] at knownThere
          cases knownThere
        · exact highest other later level' knownThere

/-! ## The entries of the answer -/

theorem fillLastId_concat (h : Hash) (infos : List BlockContextInfo) (last : BlockContextInfo) :
    fillLastId h (infos ++ [last]) = infos ++ [{ last with h }] := by
  rw [fillLastId, List.dropLast_concat, List.getLast?_concat]
  rfl

/-- The entry of a block in the answer. -/
def contextInfo (E : Env) (bei : BlockExtendedInfo) : BlockContextInfo :=
  ⟨getBlockHash E bei.bl, bei.blockCumulativeSize⟩

/-- Blocks that name each other as parents lead to their own entries, except that the id of the
last one is not filled in yet. -/
theorem foldl_addContextInfo (E : Env) (below : List BlockExtendedInfo) (top : BlockExtendedInfo)
    (linked : (below ++ [top]).IsChain fun lower upper =>
      upper.bl.prevId = getBlockHash E lower.bl) :
    (below ++ [top]).foldl addContextInfo [] =
      below.map (contextInfo E) ++ [⟨nullHash, top.blockCumulativeSize⟩] := by
  induction below using List.reverseRecOn generalizing top with
  | nil => rfl
  | append_singleton lower last ih =>
    obtain ⟨lowerLinked, _, joined⟩ := List.isChain_append.mp linked
    have parent := joined last (by simp) top rfl
    rw [List.foldl_append, ih last lowerLinked]
    simp only [List.foldl_cons, List.foldl_nil]
    rw [addContextInfo, fillLastId_concat, parent, List.map_append, List.map_singleton]
    rfl

theorem Built.linkedChain (built : Built E b) (height count : Nat) :
    ((b.blocks.drop height).take count).IsChain fun lower upper =>
      upper.bl.prevId = getBlockHash E lower.bl := by
  have whole : b.blocks.IsChain fun lower upper => upper.bl.prevId = getBlockHash E lower.bl := by
    rw [List.isChain_iff_getElem]
    intro i inside
    obtain ⟨_, below⟩ := built.linked (i + 1) b.blocks[i + 1] (List.getElem?_eq_getElem inside)
    obtain ⟨prev, found, names⟩ := below i rfl
    rw [List.getElem?_eq_getElem (Nat.lt_of_succ_lt inside)] at found
    rw [names, ← Option.some.inj found]
  exact (whole.drop height).take count

/-- The entries of an answer are the ones of the blocks from the split on. -/
theorem Built.contextInfos_eq (built : Built E b) (startHeight : Nat) :
    contextInfos E ((b.blocks.drop startHeight).take blocksIdsSynchronizingDefaultCount) =
      ((b.blocks.drop startHeight).take blocksIdsSynchronizingDefaultCount).map
        (contextInfo E) := by
  have linked := built.linkedChain startHeight blocksIdsSynchronizingDefaultCount
  generalize (b.blocks.drop startHeight).take blocksIdsSynchronizingDefaultCount = visited
    at linked ⊢
  rcases List.eq_nil_or_concat visited with rfl | ⟨below, top, rfl⟩
  · rfl
  · rw [List.concat_eq_append] at linked ⊢
    rw [contextInfos, List.getLast?_concat]
    dsimp only
    rw [foldl_addContextInfo E below top linked, fillLastId_concat, List.map_append,
      List.map_singleton]
    rfl

/-- The short history of a chain, sent to a node whose chain has the same genesis block, is
answered from the highest listed block that this node has: a block at the same height of both
chains. The entries of the answer are the ones of its next blocks. -/
theorem Built.findsSplit (first : Built E a) (second : Built E b) {genesis other : BlockExtendedInfo}
    (firstGenesis : a.blocks[0]? = some genesis) (secondGenesis : b.blocks[0]? = some other)
    (shared : getBlockHash E genesis.bl = getBlockHash E other.bl)
    (identified : ∀ x ∈ a.blocks, ∀ y ∈ b.blocks,
      getBlockHash E x.bl = getBlockHash E y.bl → x.bl = y.bl) :
    ∃ response, b.findBlockchainSupplement E (a.getShortChainHistory E) = .ok response ∧
      (∃ x y, a.blocks[response.startHeight]? = some x ∧ b.blocks[response.startHeight]? = some y ∧
        x.bl = y.bl) ∧
      (∀ id ∈ a.getShortChainHistory E, ∀ height, b.blocksIndex.get id = some height →
        height ≤ response.startHeight) ∧
      response.totalHeight = b.blocks.length ∧
      response.blockIds = ((b.blocks.drop response.startHeight).take
        blocksIdsSynchronizingDefaultCount).map (contextInfo E) := by
  have nonempty : a.blocks ≠ [] := by
    rintro none
    rw [none] at firstGenesis
    cases firstGenesis
  have history : a.getShortChainHistory E = (historyHeights 10 a.blocks.length).filterMap
      fun height => a.blocks[height]?.map fun bei => getBlockHash E bei.bl :=
    getShortChainHistory_eq 10 _ nonempty
  have last : (a.getShortChainHistory E).getLast? = some (getBlockHash E other.bl) := by
    rw [history, historyHeights, List.filterMap_append]
    have tail : ([0] : List Nat).filterMap (fun height =>
        a.blocks[height]?.map fun bei => getBlockHash E bei.bl) = [getBlockHash E genesis.bl] := by
      rw [List.filterMap_cons_some (b := getBlockHash E genesis.bl) (by rw [firstGenesis]; rfl)]
      rfl
    rw [tail, List.getLast?_concat, shared]
  have filled : (a.getShortChainHistory E).isEmpty = false := by
    cases empty : a.getShortChainHistory E with
    | nil =>
      rw [empty] at last
      cases last
    | cons id rest => rfl
  have level : ∀ height id found,
      (a.blocks[height]?.map fun bei => getBlockHash E bei.bl) = some id →
      b.checkedGetHeightById id = some found → found = height := by
    intro height id found named known
    obtain ⟨x, present, rfl⟩ := Option.map_eq_some_iff.mp named
    obtain ⟨y, there, same⟩ := (second.checkedHeight_iff _ found).mp known
    have equal := identified x (List.mem_of_getElem? present) y (List.mem_of_getElem? there)
      same.symm
    rw [← first.coinbaseHeight present, ← second.coinbaseHeight there, equal]
  obtain ⟨start, located⟩ : ∃ start,
      (a.getShortChainHistory E).findSome? b.checkedGetHeightById = some start := by
    rw [← Option.isSome_iff_exists, List.findSome?_isSome_iff]
    refine ⟨getBlockHash E other.bl, List.mem_of_getLast? last, ?_⟩
    rw [(second.checkedHeight_iff _ 0).mpr ⟨other, secondGenesis, rfl⟩]
    rfl
  have offset : b.findStarterOffset E (a.getShortChainHistory E) = .ok start := by
    simp only [Db.findStarterOffset, Outcome.bind_ok, Outcome.require_ok, Outcome.demand_ok, filled,
      last, secondGenesis, located, Bool.not_false, Option.some.injEq, beq_iff_eq]
    exact ⟨⟨⟩, trivial, other, rfl, ⟨⟩, rfl, trivial⟩
  rw [history] at located
  obtain ⟨⟨id, named, known⟩, highest⟩ := le_of_findSome (historyHeights_sorted _ _) level located
  refine ⟨⟨start, b.blocks.length, _⟩, ?_, ?_, ?_, rfl, second.contextInfos_eq start⟩
  · rw [Db.findBlockchainSupplement, offset]
    rfl
  · obtain ⟨x, present, rfl⟩ := Option.map_eq_some_iff.mp named
    obtain ⟨y, there, same⟩ := (second.checkedHeight_iff _ start).mp known
    exact ⟨x, y, present, there, identified x (List.mem_of_getElem? present) y
      (List.mem_of_getElem? there) same.symm⟩
  · intro listed member height indexed
    rw [history] at member
    apply highest listed member height
    exact (second.checkedHeight_iff listed height).mpr
      ((second.blocksIndex_get listed height).mp indexed)

/-- The same of the main chains of any two reachable nodes. -/
theorem syncRequest_findsSplit {node other : Node} (first : (nodeSystem E anyBlock).Reachable node)
    (second : (nodeSystem E anyBlock).Reachable other) {genesis otherGenesis : BlockExtendedInfo}
    (firstGenesis : node.chain.db.blocks[0]? = some genesis)
    (secondGenesis : other.chain.db.blocks[0]? = some otherGenesis)
    (shared : getBlockHash E genesis.bl = getBlockHash E otherGenesis.bl)
    (identified : ∀ x ∈ node.chain.db.blocks, ∀ y ∈ other.chain.db.blocks,
      getBlockHash E x.bl = getBlockHash E y.bl → x.bl = y.bl) :
    ∃ response, other.chain.db.findBlockchainSupplement E (node.chain.db.getShortChainHistory E) =
        .ok response ∧
      (∃ x y, node.chain.db.blocks[response.startHeight]? = some x ∧
        other.chain.db.blocks[response.startHeight]? = some y ∧ x.bl = y.bl) ∧
      (∀ id ∈ node.chain.db.getShortChainHistory E, ∀ height,
        other.chain.db.blocksIndex.get id = some height → height ≤ response.startHeight) ∧
      response.totalHeight = other.chain.db.blocks.length ∧
      response.blockIds = ((other.chain.db.blocks.drop response.startHeight).take
        blocksIdsSynchronizingDefaultCount).map (contextInfo E) :=
  (NodeBuilt.reachable first).1.built.findsSplit (NodeBuilt.reachable second).1.built firstGenesis
    secondGenesis shared identified

end Synchronization

namespace ForkedPeers

def genesis : Block := .plain 1 0 premineAmount nullHash []

/-- A node with a chain of blocks with the given ids above the genesis block. -/
def peer (ids : List (Nat × Nat)) : Node :=
  (nodeSystem .plain anyBlock).after (addNewBlock .plain genesis (Node.fresh 1000)).2
    (ids.zipIdx.map fun ((id, parent), height) =>
      .submitBlock (.plain id (height + 1) coin ⟨parent⟩ []))

theorem peer_reachable (ids : List (Nat × Nat)) :
    (nodeSystem .plain anyBlock).Reachable (peer ids) := by
  refine System.Reachable.after ?_ _
  exact .start ⟨genesis, 1000, trivial, rfl, by decide, rfl⟩

/-- Two chains that split after their second block. -/
def asking : Node := peer [(2, 1), (3, 2), (4, 3)]
def answering : Node := peer [(2, 1), (5, 2), (6, 5), (7, 6)]

theorem asking_reachable : (nodeSystem .plain anyBlock).Reachable asking :=
  peer_reachable _

theorem answering_reachable : (nodeSystem .plain anyBlock).Reachable answering :=
  peer_reachable _

/-- The genesis blocks of the two chains. -/
def genesisOf (node : Node) : BlockExtendedInfo := node.chain.db.blocks.headD default

/-- The two chains have the same genesis block, and ids identify their blocks. -/
theorem chains_facts : asking.chain.db.blocks[0]? = some (genesisOf asking) ∧
    answering.chain.db.blocks[0]? = some (genesisOf answering) ∧
    getBlockHash .plain (genesisOf asking).bl = getBlockHash .plain (genesisOf answering).bl ∧
    (∀ x ∈ asking.chain.db.blocks, ∀ y ∈ answering.chain.db.blocks,
      getBlockHash .plain x.bl = getBlockHash .plain y.bl → x.bl = y.bl) ∧
    answering.chain.db.blocks.length = 5 := by
  decide +kernel

theorem split_found : ∃ response,
    answering.chain.db.findBlockchainSupplement .plain
      (asking.chain.db.getShortChainHistory .plain) = .ok response ∧
    response.totalHeight = 5 ∧
    ∀ id ∈ asking.chain.db.getShortChainHistory .plain, ∀ height,
      answering.chain.db.blocksIndex.get id = some height → height ≤ response.startHeight := by
  obtain ⟨asking_genesis, answering_genesis, shared, identified, answering_length⟩ := chains_facts
  obtain ⟨response, answered, _, highest, total, _⟩ :=
    syncRequest_findsSplit asking_reachable answering_reachable asking_genesis answering_genesis shared
      identified
  exact ⟨response, answered, total.trans answering_length, highest⟩

end ForkedPeers
end Virie
