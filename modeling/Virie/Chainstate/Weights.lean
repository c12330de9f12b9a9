import Virie.Chainstate.AltBlocks
import Virie.Chainstate.History

/-! # The weight of a block

A block adds its difficulty to the weight of the chain below it. A proof-of-stake block
that is not the first of its kind is scaled to the newest proof-of-work difficulty, and
from a height on a run of blocks of one type counts less. The main chain and the
alternative path read the chain below the block in different ways and record the same
weight. -/

open Foundation

namespace Virie

/-! ## Reading the chain below a block -/

/-- The first nonzero difficulty of a type in a list of blocks, zero when there is none. -/
def firstDifficulty (pos : Bool) (blocks : List BlockExtendedInfo) : Nat :=
  ((blocks.find? fun bei => isPosBlock bei.bl == pos && bei.difficulty != 0).map
    BlockExtendedInfo.difficulty).getD 0

/-- The blocks of a chain above its genesis block, newest first. -/
def newestAboveGenesis (below : List BlockExtendedInfo) : List BlockExtendedInfo :=
  (below.drop 1).reverse

/-- The difficulty of the newest proof-of-stake block, zero when there is none. -/
def lastPosDiff (below : List BlockExtendedInfo) : Nat :=
  firstDifficulty true (newestAboveGenesis below)

/-- The difficulty of the newest proof-of-work block, the genesis block among them. -/
def lastPowDiff (below : List BlockExtendedInfo) : Nat :=
  if firstDifficulty false (newestAboveGenesis below) = 0 then
    (below.head?.map BlockExtendedInfo.difficulty).getD 0
  else firstDifficulty false (newestAboveGenesis below)

/-- The number of blocks of a type that end a chain. -/
def sequenceLength (pos : Bool) (below : List BlockExtendedInfo) : Nat :=
  ((newestAboveGenesis below).takeWhile fun bei => isPosBlock bei.bl == pos).length

/-- The weight of a chain. -/
def chainWeight (below : List BlockExtendedInfo) : Nat :=
  (below.getLast?.map BlockExtendedInfo.cumulativeDiffAdjusted).getD 0

/-! ## The weight that a block adds -/

/-- A proof-of-stake block above another one is scaled. -/
def Scaled (below : List BlockExtendedInfo) (bei : BlockExtendedInfo) : Prop :=
  isPosBlock bei.bl = true ∧ lastPosDiff below ≠ 0

instance Scaled.decidable (below : List BlockExtendedInfo) (bei : BlockExtendedInfo) :
    Decidable (Scaled below bei) :=
  inferInstanceAs (Decidable (_ ∧ _))

/-- The intermediate product of the scaling. -/
def scaledProduct (below : List BlockExtendedInfo) (bei : BlockExtendedInfo) : Nat :=
  bei.difficulty * lastPowDiff below

/-- The correction for a run of blocks of one type, from the height on where both types
are allowed. -/
def sequenceCorrected (E : Env) (below : List BlockExtendedInfo) (bei : BlockExtendedInfo)
    (delta : Nat) : Nat :=
  if bei.height ≥ E.posMinimumHeigh then
    correctDifficultyWithSequenceFactor (sequenceLength (isPosBlock bei.bl) below) delta
  else delta

/-- The weight a block adds in unbounded arithmetic. -/
def blockWeight (E : Env) (below : List BlockExtendedInfo) (bei : BlockExtendedInfo) : Nat :=
  sequenceCorrected E below bei
    (if Scaled below bei then scaledProduct below bei / lastPosDiff below else bei.difficulty)

/-- The weight the code computes: the product wraps. -/
def recordedWeight (E : Env) (below : List BlockExtendedInfo) (bei : BlockExtendedInfo) : Nat :=
  sequenceCorrected E below bei
    (if Scaled below bei then scaledProduct below bei % 2 ^ 128 / lastPosDiff below
      else bei.difficulty)

/-- An entry that was recorded on top of a chain. -/
structure RecordedOn (E : Env) (below : List BlockExtendedInfo) (bei : BlockExtendedInfo) :
    Prop where
  positive : 1 ≤ bei.difficulty
  bounded : bei.difficulty < 2 ^ 128
  adjusted : bei.cumulativeDiffAdjusted = (chainWeight below + recordedWeight E below bei) % 2 ^ 128

section Weights

variable {E : Env} {below : List BlockExtendedInfo} {bei : BlockExtendedInfo}

/-! ## Scans -/

theorem firstDifficulty_cons (pos : Bool) (bei : BlockExtendedInfo)
    (rest : List BlockExtendedInfo) : firstDifficulty pos (bei :: rest) =
      if isPosBlock bei.bl = pos ∧ bei.difficulty ≠ 0 then bei.difficulty
      else firstDifficulty pos rest := by
  unfold firstDifficulty
  rw [List.find?_cons]
  by_cases wanted : isPosBlock bei.bl = pos ∧ bei.difficulty ≠ 0
  · have found : (isPosBlock bei.bl == pos && bei.difficulty != 0) = true := by
      simpa using wanted
    rw [if_pos wanted, found]
    rfl
  · have skipped : (isPosBlock bei.bl == pos && bei.difficulty != 0) = false := by
      simpa using wanted
    rw [if_neg wanted, skipped]

/-- The scan for the last difficulties finds the first nonzero difficulty of each type. -/
theorem foldUntil_lastDiffs (last : LastDiffs) (blocks : List BlockExtendedInfo) :
    (foldUntil LastDiffs.visit last blocks).1 =
      { pow := if last.pow = 0 then firstDifficulty false blocks else last.pow
        pos := if last.pos = 0 then firstDifficulty true blocks else last.pos } := by
  induction blocks generalizing last with
  | nil =>
    obtain ⟨pow, pos⟩ := last
    simp only [foldUntil, firstDifficulty, List.find?_nil, Option.map_none, Option.getD_none,
      LastDiffs.mk.injEq]
    constructor <;> split <;> simp_all
  | cons bei rest ih =>
    obtain ⟨pow, pos⟩ := last
    rw [firstDifficulty_cons, firstDifficulty_cons]
    unfold foldUntil
    cases kind : isPosBlock bei.bl <;> cases pow <;> cases pos <;>
      cases diff : bei.difficulty <;> simp [LastDiffs.visit, kind, diff, ih]

/-- The scan for a run of blocks counts the leading blocks of the type. -/
theorem foldUntil_sequenceVisit (pos : Bool) (n : Nat) (blocks : List BlockExtendedInfo) :
    (foldUntil (sequenceVisit pos) n blocks).1 =
      n + (blocks.takeWhile fun bei => isPosBlock bei.bl == pos).length := by
  induction blocks generalizing n with
  | nil => rfl
  | cons bei rest ih =>
    unfold foldUntil
    by_cases same : isPosBlock bei.bl = pos
    · have kind : (isPosBlock bei.bl == pos) = true := beq_iff_eq.mpr same
      rw [sequenceVisit, if_neg (not_not.mpr same.symm), List.takeWhile_cons,
        if_pos kind, List.length_cons]
      refine (ih (n + 1)).trans ?_
      omega
    · have kind : ¬ (isPosBlock bei.bl == pos) = true := fun yes => same (beq_iff_eq.mp yes)
      rw [sequenceVisit, if_pos (Ne.symm same), List.takeWhile_cons, if_neg kind]
      rfl

theorem blocksDownFrom_ok {db : Db} {height : Nat} {blocks : List BlockExtendedInfo}
    (read : db.blocksDownFrom height = .ok blocks) :
    blocks = newestAboveGenesis (db.blocks.take (height + 1)) := by
  unfold Db.blocksDownFrom at read
  by_cases bottom : height = 0
  · rw [if_pos bottom] at read
    cases read
    rw [bottom, newestAboveGenesis]
    simp
  · rw [if_neg bottom] at read
    by_cases inside : height < db.blocks.length
    · rw [if_pos inside] at read
      cases read
      rfl
    · rw [if_neg inside] at read
      cases read

/-- The blocks below the next block of a branch: the main chain up to the split and the
branch. -/
def Chain.blocksBelow (chain : Chain) (position : AltPosition) : List BlockExtendedInfo :=
  chain.db.blocks.take position.connectionHeight ++
    position.altChain.map fun entry => entry.2.toBlockExtendedInfo

theorem newestAboveGenesis_append {blocks rest : List BlockExtendedInfo} (nonempty : blocks ≠ []) :
    newestAboveGenesis (blocks ++ rest) = rest.reverse ++ newestAboveGenesis blocks := by
  have low : 1 ≤ blocks.length := List.length_pos_iff.mpr nonempty
  rw [newestAboveGenesis, List.drop_append_of_le_length low, List.reverse_append, newestAboveGenesis]

/-- A scan of a branch is a scan of the blocks below its next block. -/
theorem scanBranch_ok {σ : Type} {visit : σ → BlockExtendedInfo → σ × Bool} {start state : σ}
    {chain : Chain} {position : AltPosition} (nonempty : chain.db.blocks ≠ [])
    (split : position.connectionHeight ≠ 0)
    (scanned : chain.db.scanBranch visit start position.altChain (position.connectionHeight - 1) =
      .ok state) :
    state = (foldUntil visit start (newestAboveGenesis (chain.blocksBelow position))).1 := by
  have taken : chain.db.blocks.take position.connectionHeight ≠ [] := by
    rw [ne_eq, List.take_eq_nil_iff]
    exact not_or.mpr ⟨split, nonempty⟩
  have branch : (position.altChain.map fun entry => entry.2.toBlockExtendedInfo).reverse =
      position.altChain.newestFirst := List.map_reverse.symm
  rw [Chain.blocksBelow, newestAboveGenesis_append taken, branch, foldUntil_append]
  unfold Db.scanBranch at scanned
  generalize foldUntil visit start position.altChain.newestFirst = reached at scanned ⊢
  obtain ⟨next, go⟩ := reached
  cases go with
  | false =>
    cases scanned
    rfl
  | true =>
    simp only [Outcome.bind_ok, Outcome.pure_ok] at scanned
    obtain ⟨blocks, read, rfl⟩ := scanned
    have found := blocksDownFrom_ok read
    rw [Nat.sub_add_cancel (Nat.pos_of_ne_zero split)] at found
    rw [found]

/-! ## Scaling -/

theorem scaleByLastDiffs_ok {db : Db} {diff delta : Nat} (genesis : below.head? = db.blocks.head?)
    (scaled : db.scaleByLastDiffs
      (foldUntil LastDiffs.visit {} (newestAboveGenesis below)).1 diff = .ok delta) :
    delta = if lastPosDiff below = 0 then diff
      else diff * lastPowDiff below % 2 ^ 128 / lastPosDiff below := by
  rw [foldUntil_lastDiffs] at scaled
  simp only [↓reduceIte] at scaled
  change db.scaleByLastDiffs ⟨_, lastPosDiff below⟩ diff = _ at scaled
  unfold Db.scaleByLastDiffs at scaled
  dsimp only at scaled
  by_cases first : lastPosDiff below = 0
  · rw [if_pos first] at scaled ⊢
    cases scaled
    rfl
  · rw [if_neg first] at scaled ⊢
    rw [lastPowDiff, genesis]
    by_cases none : firstDifficulty false (newestAboveGenesis below) = 0
    · rw [if_pos none] at scaled ⊢
      simp only [Outcome.bind_ok, Outcome.pure_ok, Db.blockAt, Outcome.demand_ok] at scaled
      obtain ⟨bottom, found, _, rfl, rfl⟩ := scaled
      rw [List.head?_eq_getElem?, found]
      rfl
    · rw [if_neg none] at scaled ⊢
      cases scaled
      rfl

/-! ## Difficulties -/

/-- A computed difficulty is positive and fits its type. -/
theorem nextDifficulty_bounds {timestamps difficulties : List Nat} {target diff : Nat}
    (computed : nextDifficulty timestamps difficulties target = .ok diff) :
    1 ≤ diff ∧ diff < 2 ^ 128 := by
  unfold nextDifficulty at computed
  dsimp only at computed
  split at computed
  · cases computed
    decide
  · simp only [Outcome.bind_ok, Outcome.pure_ok] at computed
    obtain ⟨slow, _, medium, _, fast, _, rfl⟩ := computed
    split
    · decide
    · next positive =>
      have reduced := Nat.mod_lt (slow + medium + fast) (show 0 < 2 ^ 128 by decide)
      exact ⟨Nat.one_le_iff_ne_zero.mpr positive, by omega⟩

theorem computeNextDiff_bounds {db : Db} {pos : Bool} {diff : Nat}
    (computed : db.computeNextDiff pos = .ok diff) : 1 ≤ diff ∧ diff < 2 ^ 128 := by
  unfold Db.computeNextDiff at computed
  split at computed
  · cases computed
    decide
  · simp only [Outcome.bind_ok] at computed
    obtain ⟨_, _, computed⟩ := computed
    exact nextDifficulty_bounds computed

theorem getNextDiffConditional2_bounds {chain : Chain} {pos : Bool} {altChain : AltChain}
    {splitHeight diff : Nat}
    (computed : chain.getNextDiffConditional2 pos altChain splitHeight = .ok diff) :
    1 ≤ diff ∧ diff < 2 ^ 128 := by
  unfold Chain.getNextDiffConditional2 at computed
  split at computed
  · cases computed
    decide
  · simp only [Outcome.bind_ok] at computed
    obtain ⟨_, _, computed⟩ := computed
    exact nextDifficulty_bounds computed

/-- The correction keeps a positive difficulty positive. -/
theorem correctDifficulty_pos (n : Nat) {diff : Nat} (positive : 1 ≤ diff) :
    1 ≤ correctDifficultyWithSequenceFactor n diff := by
  induction n generalizing diff with
  | zero => exact positive
  | succ n ih => exact ih (by omega)

theorem correctDifficulty_le (n diff : Nat) :
    correctDifficultyWithSequenceFactor n diff ≤ diff := by
  induction n generalizing diff with
  | zero => exact le_rfl
  | succ n ih => exact (ih _).trans (Nat.sub_le _ _)

theorem sequenceCorrected_pos {delta : Nat} (positive : 1 ≤ delta) :
    1 ≤ sequenceCorrected E below bei delta := by
  unfold sequenceCorrected
  split
  · exact correctDifficulty_pos _ positive
  · exact positive

theorem sequenceCorrected_le (delta : Nat) : sequenceCorrected E below bei delta ≤ delta := by
  unfold sequenceCorrected
  split
  · exact correctDifficulty_le _ _
  · exact le_rfl

/-! ## What the two paths record -/

theorem cumulativeDifficulties_ok {db : Db} {isPos : Bool} {diff precise adjusted : Nat}
    (recorded : cumulativeDifficulties E db isPos diff = .ok (precise, adjusted)) :
    ∃ factor delta, db.getCurrentSequenceFactor isPos = .ok factor ∧
      (if isPos then db.getAdjustedCumulativeDifficultyForNextPos diff else pure diff) =
        .ok delta ∧
      adjusted = (chainWeight db.blocks +
        if db.blocks.length ≥ E.posMinimumHeigh then
          correctDifficultyWithSequenceFactor factor delta
        else delta) % 2 ^ 128 := by
  unfold cumulativeDifficulties at recorded
  rw [Outcome.bind_ok] at recorded
  obtain ⟨factor, counted, recorded⟩ := recorded
  refine ⟨factor, ?_⟩
  dsimp only at recorded
  cases isPos <;> split at recorded <;>
    simp only [Bool.false_eq_true, ↓reduceIte, Outcome.bind_ok, Outcome.pure_ok,
      Prod.mk.injEq] at recorded ⊢
  · obtain ⟨_, _, _, rfl, _, rfl⟩ := recorded
    exact ⟨diff, counted, rfl, rfl⟩
  · obtain ⟨_, _, _, _, _, rfl, _, rfl⟩ := recorded
    exact ⟨diff, counted, rfl, rfl⟩
  · obtain ⟨_, _, delta, scaled, _, rfl⟩ := recorded
    exact ⟨delta, counted, scaled, rfl⟩
  · obtain ⟨_, _, _, _, delta, scaled, _, rfl⟩ := recorded
    exact ⟨delta, counted, scaled, rfl⟩

theorem altCumulativeDifficulties_ok {chain : Chain} {isPos : Bool} {diff precise adjusted : Nat}
    {position : AltPosition}
    (recorded : altCumulativeDifficulties E chain isPos diff position = .ok (precise, adjusted)) :
    ∃ factor delta, chain.getCurrentSequenceFactorForAlt position.altChain isPos
        position.connectionHeight = .ok factor ∧
      (if isPos then chain.getAdjustedCumulativeDifficultyForNextAltPos position.altChain diff
        position.connectionHeight else pure diff) = .ok delta ∧
      adjusted = (position.parentAdjusted +
        if position.height ≥ E.posMinimumHeigh then
          correctDifficultyWithSequenceFactor factor delta
        else delta) % 2 ^ 128 := by
  unfold altCumulativeDifficulties at recorded
  rw [Outcome.bind_ok] at recorded
  obtain ⟨factor, counted, recorded⟩ := recorded
  refine ⟨factor, ?_⟩
  cases isPos <;>
    simp only [Bool.false_eq_true, ↓reduceIte, Outcome.bind_ok, Outcome.pure_ok,
      Prod.mk.injEq] at recorded ⊢
  · obtain ⟨_, rfl, _, _, _, rfl⟩ := recorded
    exact ⟨diff, counted, rfl, rfl⟩
  · obtain ⟨delta, scaled, _, _, _, rfl⟩ := recorded
    exact ⟨delta, counted, scaled, rfl⟩

theorem newestAboveGenesis_of_blocksDownFrom {db : Db} {blocks : List BlockExtendedInfo}
    (read : db.blocksDownFrom (db.blocks.length - 1) = .ok blocks) (nonempty : db.blocks ≠ []) :
    blocks = newestAboveGenesis db.blocks := by
  have found := blocksDownFrom_ok read
  rwa [Nat.sub_add_cancel (List.length_pos_iff.mpr nonempty), List.take_length] at found

theorem getCurrentSequenceFactor_ok {db : Db} {pos : Bool} {factor : Nat}
    (counted : db.getCurrentSequenceFactor pos = .ok factor) :
    factor = sequenceLength pos db.blocks := by
  unfold Db.getCurrentSequenceFactor at counted
  by_cases none : db.blocks = []
  · rw [none] at counted ⊢
    cases counted
    rfl
  · rw [if_neg (by simpa using none)] at counted
    simp only [Outcome.bind_ok, Outcome.pure_ok] at counted
    obtain ⟨blocks, read, rfl⟩ := counted
    rw [newestAboveGenesis_of_blocksDownFrom read none, foldUntil_sequenceVisit, Nat.zero_add]
    rfl

theorem getAdjustedForNextPos_ok {db : Db} {diff delta : Nat}
    (scaled : db.getAdjustedCumulativeDifficultyForNextPos diff = .ok delta) :
    delta = if lastPosDiff db.blocks = 0 then diff
      else diff * lastPowDiff db.blocks % 2 ^ 128 / lastPosDiff db.blocks := by
  unfold Db.getAdjustedCumulativeDifficultyForNextPos at scaled
  by_cases none : db.blocks = []
  · rw [none] at scaled ⊢
    cases scaled
    rfl
  · rw [if_neg (by simpa using none)] at scaled
    simp only [Outcome.bind_ok] at scaled
    obtain ⟨blocks, read, scaled⟩ := scaled
    rw [newestAboveGenesis_of_blocksDownFrom read none] at scaled
    exact scaleByLastDiffs_ok rfl scaled

/-- What scaling and the sequence correction add up to. -/
theorem recordedWeight_eq {factor delta height : Nat}
    (counted : factor = sequenceLength (isPosBlock bei.bl) below)
    (scaled : delta = if isPosBlock bei.bl then
        if lastPosDiff below = 0 then bei.difficulty
        else bei.difficulty * lastPowDiff below % 2 ^ 128 / lastPosDiff below
      else bei.difficulty) (tall : bei.height = height) :
    (if height ≥ E.posMinimumHeigh then correctDifficultyWithSequenceFactor factor delta
      else delta) = recordedWeight E below bei := by
  have base : (if Scaled below bei then scaledProduct below bei % 2 ^ 128 / lastPosDiff below
      else bei.difficulty) = delta := by
    rw [scaled]
    by_cases kind : isPosBlock bei.bl = true <;> by_cases first : lastPosDiff below = 0 <;>
      simp [Scaled, scaledProduct, kind, first]
  rw [recordedWeight, sequenceCorrected, base, tall, counted]

/-- A block of the main chain is recorded on the blocks below it. -/
theorem Connects.recordedOn {before after : Db} {txs : List (Hash × Transaction)}
    (connects : Connects E before bei txs after) : RecordedOn E before.blocks bei := by
  obtain ⟨positive, bounded⟩ := computeNextDiff_bounds connects.difficulty
  refine ⟨positive, bounded, ?_⟩
  obtain ⟨factor, delta, counted, scaled, adjusted⟩ := cumulativeDifficulties_ok connects.cumulative
  rw [adjusted, recordedWeight_eq (getCurrentSequenceFactor_ok counted) ?_ connects.height]
  cases kind : isPosBlock bei.bl with
  | false =>
    rw [kind] at scaled
    cases scaled
    rfl
  | true =>
    rw [kind] at scaled
    exact getAdjustedForNextPos_ok scaled

theorem head?_blocksBelow {chain : Chain} {position : AltPosition}
    (split : position.connectionHeight ≠ 0) (nonempty : chain.db.blocks ≠ []) :
    (chain.blocksBelow position).head? = chain.db.blocks.head? := by
  obtain ⟨top, rest, blocks⟩ := List.exists_cons_of_ne_nil nonempty
  obtain ⟨height, above⟩ := Nat.exists_eq_succ_of_ne_zero split
  rw [Chain.blocksBelow, blocks, above]
  rfl

/-- The parent of a new alternative block ends the chain below it. -/
theorem AltPlaced.chainWeight {chain : Chain} {bl : Block} {position : AltPosition}
    (placed : AltPlaced E chain bl position) :
    chainWeight (chain.blocksBelow position) = position.parentAdjusted := by
  unfold Virie.chainWeight Chain.blocksBelow
  cases newest : position.altChain.getLast? with
  | none =>
    have alone := List.getLast?_eq_none_iff.mp newest
    obtain ⟨parent, _, present, _, above, weight⟩ := placed.alone alone
    have inside := (List.getElem?_eq_some_iff.mp present).1
    have last : (chain.db.blocks.take position.connectionHeight).getLast? = some parent := by
      rw [List.getLast?_eq_getElem?, List.length_take, List.getElem?_take_of_lt (by omega),
        Nat.min_eq_left (by omega), present]
    rw [alone, List.map_nil, List.append_nil, last, weight]
    rfl
  | some last =>
    rw [List.getLast?_append, List.getLast?_map, newest, (placed.top last newest).2]
    rfl

/-- An accepted alternative block is recorded on the blocks below it. -/
theorem AltAccepted.recordedOn {node : Node} {bl : Block} {id : Hash} {position : AltPosition}
    {accepted : AltAcceptance} (placed : AltPlaced E node.chain bl position)
    (checked : AltAccepted E node bl id position accepted) :
    RecordedOn E (node.chain.blocksBelow position) accepted.entry.toBlockExtendedInfo := by
  obtain ⟨positive, bounded⟩ := getNextDiffConditional2_bounds checked.difficulty
  refine ⟨positive, bounded, ?_⟩
  obtain ⟨factor, delta, counted, scaled, adjusted⟩ :=
    altCumulativeDifficulties_ok checked.cumulative
  have nonempty := placed.nonempty
  have run : factor = sequenceLength (isPosBlock accepted.entry.bl)
      (node.chain.blocksBelow position) := by
    rw [scanBranch_ok nonempty checked.split counted, foldUntil_sequenceVisit, Nat.zero_add,
      checked.entryBl]
    rfl
  rw [adjusted, placed.chainWeight, recordedWeight_eq run ?_ checked.entryHeight]
  rw [checked.entryBl]
  cases kind : isPosBlock bl with
  | false =>
    rw [kind] at scaled
    cases scaled
    rfl
  | true =>
    rw [kind] at scaled
    simp only [↓reduceIte, Chain.getAdjustedCumulativeDifficultyForNextAltPos,
      Outcome.bind_ok] at scaled
    obtain ⟨last, scanned, scaled⟩ := scaled
    rw [scanBranch_ok nonempty checked.split scanned] at scaled
    exact scaleByLastDiffs_ok (head?_blocksBelow checked.split nonempty) scaled

end Weights
end Virie
