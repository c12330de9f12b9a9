import Virie.DifficultyWindow
import Virie.Storage.Chain

/-! # The difficulty forecast

The forecast takes the window of the last blocks of a type and repeats: it computes the next
difficulty, drops the oldest block and puts an assumed one in front. The assumed block comes
with the cumulative difficulty zero. From the fourth round on the fast zone begins at such a
block, where the retargeting demands that difficulties fall, and the forecast ends with an
exception. -/

open Foundation

namespace Virie

/-! ## The source -/

/-- What the forecast collects from the blocks of a type, newest first. -/
structure ForecastWindow extends DiffWindow where
  maxBlockHeight : Nat := 0
  minBlockHeight : Nat := 2 ^ 64 - 1
  lastBlockDiff : Nat := 0

/-- Collect a block of the wanted type until the window is full. -/
def ForecastWindow.visit (pos : Bool) (window : ForecastWindow) (bei : BlockExtendedInfo) :
    ForecastWindow × Bool :=
  if pos ≠ isPosBlock bei.bl then (window, true)
  else
    ({ timestamps := window.timestamps ++ [bei.bl.timestamp]
       commulativeDifficulties := window.commulativeDifficulties ++ [bei.cumulativeDiffPrecise]
       count := window.count + 1
       maxBlockHeight := max window.maxBlockHeight bei.height
       minBlockHeight := min window.minBlockHeight bei.height
       lastBlockDiff :=
         if window.lastBlockDiff = 0 then bei.difficulty else window.lastBlockDiff },
      decide (window.count + 1 < difficultyWindow))

/-- Forecast further difficulties. The retargeting leaves the timestamps sorted behind. -/
def forecastDifficulties (targetSeconds avgInterval : Nat) :
    Nat → Nat → List Nat → List Nat → Outcome (List (Nat × Nat))
  | 0, _, _, _ => pure []
  | rounds + 1, height, timestamps, cumulativeDifficulties => do
    let diff ← nextDifficulty timestamps cumulativeDifficulties targetSeconds
    let height := addU64 height avgInterval
    let kept := (timestamps.insertionSort (· ≥ ·)).dropLast
    let further ← forecastDifficulties targetSeconds avgInterval rounds height
      (addU64 (kept.headD 0) targetSeconds :: kept) (0 :: cumulativeDifficulties.dropLast)
    pure ((height, diff) :: further)

/-- The heights and difficulties of the last block of a type and of the blocks to come. -/
def Db.forecastDifficulty (db : Db) (pos : Bool) : Outcome (List (Nat × Nat)) := do
  if db.blocks.isEmpty then throw .thrown
  let blocks ← db.blocksDownFrom (db.blocks.length - 1)
  let window := (foldUntil (ForecastWindow.visit pos) {} blocks).1
  Outcome.require (window.count == difficultyWindow)
  let avgInterval := max 1 ((window.maxBlockHeight - window.minBlockHeight) / window.count)
  let further ← forecastDifficulties (difficultyTarget pos) avgInterval difficultyCut
    window.maxBlockHeight window.timestamps window.commulativeDifficulties
  pure ((window.maxBlockHeight, window.lastBlockDiff) :: further)

/-! ## What a forecast should be -/

/-- The blocks of a type above the genesis block, newest first. -/
def Db.blocksOfType (db : Db) (pos : Bool) : List BlockExtendedInfo :=
  (db.blocks.drop 1).reverse.filter fun bei => pos == isPosBlock bei.bl

/-- The chain has a window of blocks of a type, whose cumulative difficulties rise. -/
structure Db.HasWindow (db : Db) (pos : Bool) : Prop where
  enough : difficultyWindow ≤ (db.blocksOfType pos).length
  rising : (db.blocksOfType pos).Pairwise fun newer older =>
    older.cumulativeDiffPrecise < newer.cumulativeDiffPrecise

/-- The forecast starts with the last block of the type, goes on with the difficulty of the next
block, and has a height and a difficulty for every timestamp that is cut, with rising heights. -/
def Db.Forecasts (db : Db) (pos : Bool) : Prop :=
  ∃ forecast, db.forecastDifficulty pos = .ok forecast ∧
    forecast.length = difficultyCut + 1 ∧ (forecast.map Prod.fst).Pairwise (· < ·) ∧
    (∃ last, (db.blocksOfType pos).head? = some last ∧
      forecast[0]? = some (last.height, last.difficulty)) ∧
    ∃ diff, db.computeNextDiff pos = .ok diff ∧ forecast[1]?.map Prod.snd = some diff

section Forecast

variable {pos : Bool} {db : Db} {timestamps difficulties : List Nat} {target : Nat}

/-! ## Exceptions of the retargeting -/

/-- A zone that begins at the difficulty zero raises an exception. -/
theorem getAdjustmentForZone_zero {window cutOld cutLast : Nat}
    (zero : difficulties.getD (zoneBegin timestamps.length window cutOld cutLast) 0 = 0) :
    getAdjustmentForZone timestamps difficulties target window cutOld cutLast =
      .error .thrown := by
  rw [getAdjustmentForZone_eq_ite, zero]
  split
  · rw [if_neg (Nat.not_lt_zero _)]
  · rfl

variable (timestamps difficulties target) in
/-- The retargeting answers or raises an exception. -/
theorem nextDifficulty_cases : nextDifficulty timestamps difficulties target = .error .thrown ∨
    ∃ diff, nextDifficulty timestamps difficulties target = .ok diff := by
  unfold nextDifficulty
  dsimp only
  split
  · exact .inr ⟨_, rfl⟩
  rcases getAdjustmentForZone_cases
    ((timestamps.take difficultyWindow).insertionSort (· ≥ ·)) (difficulties.take difficultyWindow)
    target difficultyWindow (difficultyCut / 2) (difficultyCut / 2) with stopped | ⟨slow, slowly⟩
  · rw [stopped]
    exact .inl rfl
  rcases getAdjustmentForZone_cases
    ((timestamps.take difficultyWindow).insertionSort (· ≥ ·)) (difficulties.take difficultyWindow)
    target (difficultyWindow / 3) (difficultyCut / 8) (difficultyCut / 12)
    with stopped | ⟨medium, halfway⟩
  · rw [slowly, stopped]
    exact .inl rfl
  rcases getAdjustmentForZone_cases
    ((timestamps.take difficultyWindow).insertionSort (· ≥ ·)) (difficulties.take difficultyWindow)
    target (difficultyWindow / 18) (difficultyCut / 10) 2 with stopped | ⟨fast, quickly⟩
  · rw [slowly, halfway, stopped]
    exact .inl rfl
  · rw [slowly, halfway, quickly]
    exact .inr ⟨_, rfl⟩

/-- A full window whose third difficulty is zero raises an exception: the fast zone begins
there. -/
theorem nextDifficulty_zero (full : timestamps.length = difficultyWindow)
    (zero : difficulties.getD 2 0 = 0) :
    nextDifficulty timestamps difficulties target = .error .thrown := by
  rcases nextDifficulty_cases timestamps difficulties target with stopped | ⟨diff, computed⟩
  · exact stopped
  have begins : zoneBegin ((timestamps.take difficultyWindow).insertionSort (· ≥ ·)).length
      (difficultyWindow / 18) (difficultyCut / 10) 2 = 2 := by
    rw [List.length_insertionSort, List.length_take, full, Nat.min_self]
    rfl
  have third : (difficulties.take difficultyWindow).getD 2 0 = 0 := by
    rw [List.getD_eq_getElem?_getD, List.getElem?_take_of_lt (by decide),
      ← List.getD_eq_getElem?_getD, zero]
  have fast : getAdjustmentForZone ((timestamps.take difficultyWindow).insertionSort (· ≥ ·))
      (difficulties.take difficultyWindow) target (difficultyWindow / 18) (difficultyCut / 10) 2 =
        .error .thrown := by
    apply getAdjustmentForZone_zero
    rw [begins, third]
  unfold nextDifficulty at computed
  dsimp only at computed
  rw [if_neg (by rw [List.length_take, full]; decide)] at computed
  obtain ⟨slow, _, computed⟩ := Outcome.bind_ok.mp computed
  obtain ⟨medium, _, computed⟩ := Outcome.bind_ok.mp computed
  obtain ⟨quick, quickly, _⟩ := Outcome.bind_ok.mp computed
  rw [fast] at quickly
  cases quickly

/-! ## The rounds -/

/-- Putting a zero in front moves the zeros on. -/
theorem zeros_moved {count : Nat} (zeros : ∀ i < count, difficulties.getD i 0 = 0) :
    ∀ i < count + 1, (0 :: difficulties.dropLast).getD i 0 = 0 := by
  intro i below
  cases i with
  | zero => rfl
  | succ i =>
    rw [List.getD_cons_succ, List.getD_eq_getElem?_getD, List.getElem?_dropLast]
    split
    · rw [← List.getD_eq_getElem?_getD]
      exact zeros i (Nat.lt_of_succ_lt_succ below)
    · rfl

/-- A forecast over a full window with zeros in front raises an exception once there are three
of them. -/
theorem forecastDifficulties_thrown {avgInterval rounds height : Nat} (missing : Nat)
    (enough : missing < rounds) (full : timestamps.length = difficultyWindow)
    (zeros : ∀ i < 3 - missing, difficulties.getD i 0 = 0) (few : missing ≤ 3) :
    forecastDifficulties target avgInterval rounds height timestamps difficulties =
      .error .thrown := by
  induction missing generalizing rounds height timestamps difficulties with
  | zero =>
    cases rounds with
    | zero => exact absurd enough (Nat.not_lt_zero _)
    | succ rounds =>
      rw [forecastDifficulties, nextDifficulty_zero full (zeros 2 (by decide))]
      rfl
  | succ missing ih =>
    cases rounds with
    | zero => exact absurd enough (Nat.not_lt_zero _)
    | succ rounds =>
      rw [forecastDifficulties]
      rcases nextDifficulty_cases timestamps difficulties target with stopped | ⟨diff, computed⟩
      · rw [stopped]
        rfl
      · have next := @ih (addU64 ((timestamps.insertionSort (· ≥ ·)).dropLast.headD 0) target ::
            (timestamps.insertionSort (· ≥ ·)).dropLast) (0 :: difficulties.dropLast) rounds
          (addU64 height avgInterval) (Nat.lt_of_succ_lt_succ enough) ?_ ?_ (by omega)
        · rw [computed]
          change (forecastDifficulties target avgInterval rounds _ _ _ >>= _) = _
          rw [next]
          rfl
        · rw [List.length_cons, List.length_dropLast, List.length_insertionSort, full]
          rfl
        · have moved := zeros_moved zeros
          rwa [show 3 - (missing + 1) + 1 = 3 - missing by omega] at moved

/-! ## The window -/

/-- The window holds the last blocks of the type. -/
theorem count_collected (pos : Bool) (blocks : List BlockExtendedInfo) (window : ForecastWindow)
    (room : window.count < difficultyWindow)
    (same : window.timestamps.length = window.count) :
    (foldUntil (ForecastWindow.visit pos) window blocks).1.count = min difficultyWindow
      (window.count + (blocks.filter fun bei => pos == isPosBlock bei.bl).length) ∧
    (foldUntil (ForecastWindow.visit pos) window blocks).1.timestamps.length =
      (foldUntil (ForecastWindow.visit pos) window blocks).1.count := by
  induction blocks generalizing window with
  | nil =>
    refine ⟨?_, same⟩
    rw [List.filter_nil, List.length_nil, Nat.add_zero, Nat.min_eq_right room.le]
    rfl
  | cons bei blocks ih =>
    rw [foldUntil, List.filter_cons]
    by_cases other : pos ≠ isPosBlock bei.bl
    · have visited : ForecastWindow.visit pos window bei = (window, true) := if_pos other
      rw [visited, if_neg (by rwa [beq_iff_eq])]
      exact ih window room same
    · have kind : pos = isPosBlock bei.bl := not_not.mp other
      rw [if_pos (beq_iff_eq.mpr kind), List.length_cons]
      obtain ⟨next, visited, counted, kept⟩ : ∃ next, ForecastWindow.visit pos window bei =
          (next, decide (window.count + 1 < difficultyWindow)) ∧ next.count = window.count + 1 ∧
          next.timestamps.length = next.count := by
        refine ⟨_, if_neg other, rfl, ?_⟩
        rw [List.length_append, same]
        rfl
      rw [visited]
      by_cases more : window.count + 1 < difficultyWindow
      · rw [decide_eq_true more]
        have further := ih next (by rwa [counted]) kept
        rw [counted, Nat.add_assoc, Nat.add_comm 1] at further
        exact further
      · rw [decide_eq_false more]
        refine ⟨?_, kept⟩
        rw [counted, Nat.min_eq_left (by omega)]
        omega

/-- The blocks that a forecast visits. -/
theorem blocksDownFrom_top (some : db.blocks ≠ []) :
    db.blocksDownFrom (db.blocks.length - 1) = .ok (db.blocks.drop 1).reverse := by
  have positive := List.length_pos_iff.mpr some
  unfold Db.blocksDownFrom
  split
  · next single =>
    rw [List.drop_eq_nil_of_le (by omega)]
    rfl
  · rw [if_pos (by omega), List.take_of_length_le (by omega)]
    rfl

/-- The forecast is refused without a window of blocks of the type, and raises an exception with
one. -/
theorem forecastDifficulty_stops (db : Db) (pos : Bool) :
    db.forecastDifficulty pos = .error (if db.blocks ≠ [] ∧
      (db.blocksOfType pos).length < difficultyWindow then .refused else .thrown) := by
  unfold Db.forecastDifficulty
  by_cases none : db.blocks = []
  · have empty : db.blocks.isEmpty = true := List.isEmpty_iff.mpr none
    rw [if_pos empty, if_neg fun both => both.1 none]
    rfl
  obtain ⟨counted, kept⟩ := count_collected pos (db.blocks.drop 1).reverse {} (by decide) rfl
  change _ = min difficultyWindow (0 + (db.blocksOfType pos).length) at counted
  rw [Nat.zero_add] at counted
  rw [if_neg (by rwa [List.isEmpty_iff])]
  change (db.blocksDownFrom (db.blocks.length - 1) >>= _) = _
  rw [blocksDownFrom_top none]
  change (Outcome.require (_ == difficultyWindow) >>= _) = _
  by_cases few : (db.blocksOfType pos).length < difficultyWindow
  · rw [if_pos ⟨none, few⟩, counted, Nat.min_eq_right few.le,
      show ((db.blocksOfType pos).length == difficultyWindow) = false from
        beq_eq_false_iff_ne.mpr (Nat.ne_of_lt few)]
    rfl
  · rw [if_neg fun both => few both.2]
    rw [Nat.min_eq_left (Nat.not_lt.mp few)] at counted
    rw [counted] at kept
    rw [counted, show (difficultyWindow == difficultyWindow) = true from beq_self_eq_true _]
    change (forecastDifficulties _ _ _ _ _ _ >>= _) = _
    rw [forecastDifficulties_thrown 3 (by decide) kept (by simp) le_rfl]
    rfl

/-- No chain has a forecast of its difficulties, and a chain with a window of blocks of the type
gets an exception. -/
theorem forecastDifficulty_never (db : Db) (pos : Bool) : ¬ db.Forecasts pos ∧
    (db.HasWindow pos → db.forecastDifficulty pos = .error .thrown) := by
  have stops := forecastDifficulty_stops db pos
  constructor
  · rintro ⟨forecast, computed, _⟩
    rw [stops] at computed
    cases computed
  · intro window
    rw [stops, if_neg fun both => absurd both.2 (Nat.not_lt.mpr window.enough)]

end Forecast

/-! ## A chain with a window -/

namespace SteadyChain

/-- A proof-of-work block two minutes after the one below. -/
def block (height : Nat) : BlockExtendedInfo :=
  { (default : BlockExtendedInfo) with
    height
    bl := { (default : Block) with timestamp := 120 * height }
    difficulty := 1
    cumulativeDiffPrecise := height + 1 }

/-- A chain of the genesis block and a window of blocks. -/
def db : Db := { blocks := (List.range 721).map block }

theorem block_work (height : Nat) : isPosBlock (block height).bl = false := by
  rw [isPosBlock, show (block height).bl.flags = 0 from rfl, Nat.zero_and]
  rfl

theorem blocksOfType_eq : db.blocksOfType false = ((List.range' 1 720).map block).reverse := by
  have above : db.blocks.drop 1 = (List.range' 1 720).map block := by
    rw [db, ← List.map_drop, List.range_eq_range', List.drop_range']
  rw [Db.blocksOfType, above, List.filter_eq_self.mpr]
  intro bei member
  obtain ⟨height, _, rfl⟩ := List.mem_map.mp (List.mem_reverse.mp member)
  rw [block_work]
  rfl

theorem hasWindow : db.HasWindow false where
  enough := by
    rw [blocksOfType_eq, List.length_reverse, List.length_map, List.length_range']
    rfl
  rising := by
    rw [blocksOfType_eq, List.pairwise_reverse, List.pairwise_map]
    exact (List.pairwise_lt_range' 1).imp Nat.succ_lt_succ

/-- The chain has a window of blocks of the type with rising difficulties and gets no forecast. -/
theorem steady_unforecast : db.HasWindow false ∧ ¬ db.Forecasts false := by
  refine ⟨hasWindow, ?_⟩
  rintro ⟨forecast, computed, _⟩
  rw [forecastDifficulty_stops] at computed
  cases computed

/-- The forecast of the chain raises an exception. -/
theorem steady_thrown : db.forecastDifficulty false = .error .thrown :=
  (forecastDifficulty_never db false).2 hasWindow

end SteadyChain
end Virie
