import Virie.BranchTimestamps
import Virie.Chainstate.Payments
import Virie.Chainstate.Running
import Virie.DependencyHeight
import Virie.Foundation.KeptWindow

/-! # Rebuilt fee medians

Every block records the median of the fees in it, and at the first block of a day the median of
these over the past week, which prices aliases. A storage of an older version computes both anew,
with a window that slides over the blocks. -/

open Foundation

namespace Virie

/-! ## The median helper -/

/-- Keys with their places: those in the window, and those that have left it. The ordered items of
the source are the keys of the queue. -/
structure MedianHelper where
  queuedItems : List (Nat × Nat) := []
  recentItems : List (Nat × Nat) := []
  hadBeenInRecentItems : Bool := false

namespace MedianHelper

def pushItem (k ad : Nat) (helper : MedianHelper) : MedianHelper :=
  { helper with queuedItems := helper.queuedItems ++ [(k, ad)] }

/-- Move items out of the window up to the first that passes a test, unless none does, take recent
items that pass it back, and forget recent ones up to the first that passes another test. The
answer is false when no recent ones are left. -/
def scanItems (cb cbFinalRemove : Nat × Nat → Bool) (helper : MedianHelper) :
    Bool × MedianHelper :=
  let found := helper.queuedItems.any cb
  let moved := if found then helper.queuedItems.takeWhile fun item => !cb item else []
  let queued :=
    if found then helper.queuedItems.dropWhile fun item => !cb item else helper.queuedItems
  let recent := helper.recentItems ++ moved
  let helper : MedianHelper :=
    { queuedItems := recent.rtakeWhile cb ++ queued
      recentItems := (recent.rdropWhile cb).dropWhile fun item => !cbFinalRemove item
      hadBeenInRecentItems := helper.hadBeenInRecentItems || !moved.isEmpty }
  (!(helper.recentItems.isEmpty && helper.hadBeenInRecentItems), helper)

def getMedian (helper : MedianHelper) : Nat := median (helper.queuedItems.map Prod.fst)

end MedianHelper

def aliasCostRecentPeriod : Nat := currencyBlocksPerDay * 8

/-! ## Rebuilding -/

section Rebuilding

variable (E : Env) (db : Db)

/-- The fees of the transactions of a block as they are stored. -/
def Db.blockFees (bl : Block) : List Nat :=
  (db.blockTransactions bl).map TransactionPrefix.getTxFee

/-- One round for the block at a height; there is no result where a transaction is not stored. -/
def rebuildBlock (state : MedianHelper × List BlockExtendedInfo) (entry : BlockExtendedInfo × Nat) :
    Option (MedianHelper × List BlockExtendedInfo) := do
  let (helper, blocks) := state
  let (bei, i) := entry
  let fees ← bei.bl.txHashes.mapM fun h =>
    (db.storedTx h).map fun tx => tx.toTransactionPrefix.getTxFee
  let newBei : BlockExtendedInfo :=
    { bei with effectiveTxFeeMedian := helper.getMedian, thisBlockTxFeeMedian := median fees }
  let helper :=
    if newBei.thisBlockTxFeeMedian ≠ 0 then helper.pushItem newBei.thisBlockTxFeeMedian i
    else helper
  let isPosAllowed := decide (i ≥ E.posMinimumHeigh)
  let period := if isPosAllowed then aliasCostPeriod else aliasCostPeriod / 2
  let purgeRecentPeriod :=
    if isPosAllowed then aliasCostRecentPeriod else aliasCostRecentPeriod / 2
  let helper :=
    if period ≥ i + 1 then helper
    else
      (helper.scanItems (fun item => decide (i + 1 - period ≤ item.2)) fun item =>
        decide (purgeRecentPeriod ≥ i + 1) || decide (i + 1 - purgeRecentPeriod ≤ item.2)).2
  pure (helper, blocks ++ [newBei])

def rebuildTxFeeMedians : Option Db := do
  let (_, blocks) ← db.blocks.zipIdx.foldlM (rebuildBlock E db) ({}, [])
  pure { db with blocks }

/-- Rebuilding succeeds and leaves the median of every block and the effective median at every
height that prices are read at. -/
def RebuildKeeps : Prop :=
  ∃ rebuilt, rebuildTxFeeMedians E db = some rebuilt ∧
    ∀ i bei, db.blocks[i]? = some bei → ∃ other, rebuilt.blocks[i]? = some other ∧
      other.thisBlockTxFeeMedian = bei.thisBlockTxFeeMedian ∧
      ((∃ h, Db.getTxFeeMedianEffectiveIndex h = i) →
        other.effectiveTxFeeMedian = bei.effectiveTxFeeMedian)

/-- In every block the fees that are zero do not change the median. -/
def ZeroFeesAgree : Prop :=
  ∀ bei ∈ db.blocks, median (db.blockFees bei.bl) = median ((db.blockFees bei.bl).filter (· ≠ 0))

/-- Before every height that prices are read at a block of the past week has a fee median, or no
block before it has. -/
def WeeksPaid : Prop :=
  ∀ i < db.blocks.length, i ≠ 0 → (∃ h, Db.getTxFeeMedianEffectiveIndex h = i) →
    (∃ j bei, db.blocks[j]? = some bei ∧ i - aliasCostPeriod ≤ j ∧ j < i ∧
      bei.thisBlockTxFeeMedian ≠ 0) ∨
    ∀ j bei, db.blocks[j]? = some bei → j < i → bei.thisBlockTxFeeMedian = 0

end Rebuilding

/-! ## What the helper holds -/

section Window

variable (db : Db)

/-- The medians of blocks that are not zero, with the heights. -/
def feeMedians (blocks : List BlockExtendedInfo) : List (Nat × Nat) :=
  (blocks.zipIdx.map fun (bei, i) => (median (db.blockFees bei.bl), i)).filter (·.1 ≠ 0)

variable {db} {blocks front : List BlockExtendedInfo} {bei : BlockExtendedInfo}

theorem feeMedians_append : feeMedians db (front ++ [bei]) = feeMedians db front ++
    if median (db.blockFees bei.bl) ≠ 0 then [(median (db.blockFees bei.bl), front.length)]
    else [] := by
  rw [feeMedians, List.zipIdx_append, List.map_append, List.filter_append, feeMedians]
  congr 1
  by_cases none : median (db.blockFees bei.bl) = 0
  · simp [none]
  · simp [none]

theorem mem_feeMedians {item : Nat × Nat} : item ∈ feeMedians db blocks ↔
    ∃ bei, blocks[item.2]? = some bei ∧ median (db.blockFees bei.bl) = item.1 ∧ item.1 ≠ 0 := by
  rw [feeMedians, List.mem_filter, List.mem_map]
  constructor
  · rintro ⟨⟨⟨bei, i⟩, member, rfl⟩, some_⟩
    exact ⟨bei, List.mem_zipIdx_iff_getElem?.mp member, rfl, of_decide_eq_true some_⟩
  · rintro ⟨bei, found, same, some_⟩
    exact ⟨⟨(bei, item.2), List.mem_zipIdx_iff_getElem?.mpr found, Prod.ext same rfl⟩,
      decide_eq_true some_⟩

theorem lt_of_mem_feeMedians {item : Nat × Nat} (member : item ∈ feeMedians db blocks) :
    item.2 < blocks.length := by
  obtain ⟨bei, found, _⟩ := mem_feeMedians.mp member
  exact (List.getElem?_eq_some_iff.mp found).1

theorem feeMedians_rising : Rising Prod.snd (feeMedians db blocks) := by
  induction blocks using List.reverseRecOn with
  | nil => exact .nil
  | append_singleton front bei ih =>
    rw [feeMedians_append]
    refine List.pairwise_append.mpr ⟨ih, ?_, fun a before b new => ?_⟩
    · split
      · exact List.pairwise_singleton _ _
      · exact .nil
    · split at new
      · rw [List.mem_singleton.mp new]
        exact lt_of_mem_feeMedians before
      · cases new

/-- Queued items after a scan whose test the recent items fail. -/
theorem scanItems_queued {start : Nat} {cbFinalRemove : Nat × Nat → Bool} {helper : MedianHelper}
    (old : ∀ item ∈ helper.recentItems, item.2 < start) :
    (helper.scanItems (fun item => decide (start ≤ item.2)) cbFinalRemove).2.queuedItems =
        cutBefore Prod.snd start helper.queuedItems ∧
      ∀ item ∈ (helper.scanItems (fun item => decide (start ≤ item.2))
        cbFinalRemove).2.recentItems, item.2 < start := by
  have moved : ∀ item ∈ helper.recentItems ++
      (if (helper.queuedItems.any fun item => decide (start ≤ item.2)) = true then
        helper.queuedItems.takeWhile fun item => !decide (start ≤ item.2) else []),
      item.2 < start := by
    intro item member
    rcases List.mem_append.mp member with before | now
    · exact old item before
    · split at now
      · have passes := List.mem_takeWhile_imp now
        rw [Bool.not_eq_true', decide_eq_false_iff_not] at passes
        omega
      · cases now
  have none_ : (helper.recentItems ++
      (if (helper.queuedItems.any fun item => decide (start ≤ item.2)) = true then
        helper.queuedItems.takeWhile fun item => !decide (start ≤ item.2) else [])).rtakeWhile
          (fun item => decide (start ≤ item.2)) = [] := by
    rw [List.rtakeWhile_eq_nil_iff]
    intro any_
    have last := moved _ (List.getLast_mem any_)
    rw [decide_eq_true_eq]
    omega
  constructor
  · rw [MedianHelper.scanItems]
    dsimp only
    rw [none_, List.nil_append, cutBefore]
  · intro item member
    rw [MedianHelper.scanItems] at member
    dsimp only at member
    have inside := (List.dropWhile_sublist _).subset member
    exact moved item ((List.rdropWhile_prefix _ _).sublist.subset inside)

end Window

/-! ## What rebuilding writes -/

section Loop

variable {E : Env} {db : Db} {blocks front : List BlockExtendedInfo} {bei : BlockExtendedInfo}

/-- The items that the helper holds before the block at a height. -/
def heldMedians (db : Db) (blocks : List BlockExtendedInfo) (i : Nat) : List (Nat × Nat) :=
  newest Prod.snd (i - aliasCostPeriod) (feeMedians db (blocks.take i))

/-- A block with the medians that rebuilding writes at a height. -/
def rebuiltInfo (db : Db) (blocks : List BlockExtendedInfo) (bei : BlockExtendedInfo) (i : Nat) :
    BlockExtendedInfo :=
  { bei with
    effectiveTxFeeMedian := median ((heldMedians db blocks i).map Prod.fst)
    thisBlockTxFeeMedian := median (db.blockFees bei.bl) }

/-- What the loop has after the first blocks. -/
structure Rebuilds (db : Db) (front : List BlockExtendedInfo)
    (state : MedianHelper × List BlockExtendedInfo) : Prop where
  queued : state.1.queuedItems = heldMedians db front front.length
  recent : ∀ item ∈ state.1.recentItems, item.2 < front.length - aliasCostPeriod
  blocks : state.2 = front.zipIdx.map fun entry => rebuiltInfo db front entry.1 entry.2

theorem rebuiltInfo_append {i : Nat} (inside : i ≤ front.length) (later : List BlockExtendedInfo)
    (bei : BlockExtendedInfo) :
    rebuiltInfo db (front ++ later) bei i = rebuiltInfo db front bei i := by
  rw [rebuiltInfo, rebuiltInfo, heldMedians, heldMedians, List.take_append_of_le_length inside]

theorem mapM_fees {txHashes : List Hash}
    (stored : ∀ id ∈ txHashes, ∃ tx, db.storedTx id = some tx) :
    (txHashes.mapM fun h => (db.storedTx h).map fun tx => tx.toTransactionPrefix.getTxFee) =
      some (((txHashes.filterMap db.storedTx).map
        Transaction.toTransactionPrefix).map TransactionPrefix.getTxFee) := by
  induction txHashes with
  | nil => rfl
  | cons id rest ih =>
    obtain ⟨tx, found⟩ := stored id (.head _)
    rw [List.mapM_cons, ih fun other member => stored other (.tail _ member), found,
      List.filterMap_cons, found]
    rfl

/-- The window before a height does not change with the half period, which ends before a window
of that size is full. -/
theorem rebuildBlock_rebuilds (halfUnused : E.posMinimumHeigh ≤ aliasCostPeriod / 2)
    (stored : ∀ id ∈ bei.bl.txHashes, ∃ tx, db.storedTx id = some tx)
    {state : MedianHelper × List BlockExtendedInfo} (rebuilds : Rebuilds db front state) :
    ∃ next, rebuildBlock E db state (bei, front.length) = some next ∧
      Rebuilds db (front ++ [bei]) next := by
  obtain ⟨helper, blocks⟩ := state
  obtain ⟨queued, recent, written⟩ := rebuilds
  dsimp only at queued recent written
  rw [heldMedians, List.take_length] at queued
  have effective : helper.getMedian =
      median ((heldMedians db front front.length).map Prod.fst) := by
    rw [MedianHelper.getMedian, queued, heldMedians, List.take_length]
  have blocksNow : blocks ++ [{ bei with
      effectiveTxFeeMedian := helper.getMedian
      thisBlockTxFeeMedian := median (db.blockFees bei.bl) }] =
      (front ++ [bei]).zipIdx.map fun entry => rebuiltInfo db (front ++ [bei]) entry.1 entry.2 := by
    rw [List.zipIdx_append, List.map_append, written, effective]
    refine congrArg₂ (fun a b => a ++ b) ?_ ?_
    · refine List.map_congr_left fun entry member => ?_
      have inside := (List.getElem?_eq_some_iff.mp (List.mem_zipIdx_iff_getElem?.mp member)).1
      exact (rebuiltInfo_append (le_of_lt inside) [bei] entry.1).symm
    · rw [List.zipIdx_singleton, List.map_singleton, Nat.zero_add]
      dsimp only
      rw [rebuiltInfo_append le_rfl, rebuiltInfo]
  have pushed : (if median (db.blockFees bei.bl) ≠ 0 then
      helper.pushItem (median (db.blockFees bei.bl)) front.length else helper).queuedItems =
        newest Prod.snd (front.length - aliasCostPeriod) (feeMedians db front) ++
          (if median (db.blockFees bei.bl) ≠ 0 then
            [(median (db.blockFees bei.bl), front.length)] else []) ∧
      (if median (db.blockFees bei.bl) ≠ 0 then
        helper.pushItem (median (db.blockFees bei.bl)) front.length else helper).recentItems =
          helper.recentItems := by
    split
    · exact ⟨by rw [MedianHelper.pushItem, queued], rfl⟩
    · exact ⟨by rw [queued, List.append_nil], rfl⟩
  rw [rebuildBlock]
  dsimp only
  have fees : (bei.bl.txHashes.mapM fun h =>
      (db.storedTx h).map fun tx => tx.toTransactionPrefix.getTxFee) =
        some (db.blockFees bei.bl) := mapM_fees stored
  rw [fees, Option.bind_eq_bind, Option.bind_some]
  by_cases early : aliasCostPeriod ≥ front.length + 1
  · have skipped : (if decide (front.length ≥ E.posMinimumHeigh) then aliasCostPeriod
        else aliasCostPeriod / 2) ≥ front.length + 1 := by
      split
      · exact early
      · next before =>
        have less : front.length < E.posMinimumHeigh := by simpa using before
        omega
    refine ⟨_, rfl, ⟨?_, ?_, by exact blocksNow⟩⟩
    · dsimp only
      rw [if_pos skipped]
      refine pushed.1.trans ?_
      rw [heldMedians, List.take_length, List.length_append, List.length_singleton,
        Nat.sub_eq_zero_of_le early, Nat.sub_eq_zero_of_le (by omega), newest_zero, newest_zero,
        feeMedians_append]
    · dsimp only
      rw [if_pos skipped]
      intro item member
      have before := recent item (pushed.2 ▸ member)
      omega
  · have allowed : decide (front.length ≥ E.posMinimumHeigh) = true := by
      rw [decide_eq_true_eq]
      omega
    have starter : front.length + 1 - aliasCostPeriod =
        front.length - aliasCostPeriod + 1 := by omega
    have scanned := @scanItems_queued (front.length - aliasCostPeriod + 1)
      (fun item => decide (aliasCostRecentPeriod ≥ front.length + 1) ||
        decide (front.length + 1 - aliasCostRecentPeriod ≤ item.2))
      (if median (db.blockFees bei.bl) ≠ 0 then
        helper.pushItem (median (db.blockFees bei.bl)) front.length else helper)
      (by
        rw [pushed.2]
        intro item member
        have before := recent item member
        omega)
    rw [pushed.1] at scanned
    have rising := @feeMedians_rising db (front ++ [bei])
    have cut : cutBefore Prod.snd (front.length - aliasCostPeriod + 1)
        (newest Prod.snd (front.length - aliasCostPeriod) (feeMedians db front) ++
          (if median (db.blockFees bei.bl) ≠ 0 then
            [(median (db.blockFees bei.bl), front.length)] else [])) =
        heldMedians db (front ++ [bei]) (front ++ [bei]).length := by
      rw [heldMedians, List.take_length, List.length_append, List.length_singleton, starter,
        feeMedians_append]
      rw [feeMedians_append] at rising
      by_cases none_ : median (db.blockFees bei.bl) = 0
      · rw [if_neg (not_not.mpr none_), List.append_nil] at rising ⊢
        rw [List.append_nil]
        exact cut_newest rising
      · rw [if_pos none_] at rising ⊢
        refine cut_newest_append rising ?_
        dsimp only
        have some_ : 1 ≤ aliasCostPeriod := by decide
        omega
    refine ⟨_, rfl, ⟨?_, ?_, by exact blocksNow⟩⟩
    · dsimp only
      rw [allowed, if_pos rfl, if_pos rfl, if_neg early, starter]
      exact scanned.1.trans cut
    · dsimp only
      rw [allowed, if_pos rfl, if_pos rfl, if_neg early, List.length_append,
        List.length_singleton, starter]
      exact scanned.2

/-- The whole loop. -/
theorem rebuild_loop (halfUnused : E.posMinimumHeigh ≤ aliasCostPeriod / 2)
    {rest : List BlockExtendedInfo}
    (stored : ∀ bei ∈ rest, ∀ id ∈ bei.bl.txHashes, ∃ tx, db.storedTx id = some tx)
    {state : MedianHelper × List BlockExtendedInfo} (rebuilds : Rebuilds db front state) :
    ∃ last, (rest.zipIdx front.length).foldlM (rebuildBlock E db) state = some last ∧
      Rebuilds db (front ++ rest) last := by
  induction rest generalizing front state with
  | nil => exact ⟨state, rfl, by rwa [List.append_nil]⟩
  | cons bei rest ih =>
    obtain ⟨next, one, after⟩ :=
      rebuildBlock_rebuilds halfUnused (stored bei (.head _)) rebuilds
    obtain ⟨last, others, all⟩ := ih (fun other member => stored other (.tail _ member)) after
    rw [List.append_assoc, List.singleton_append] at all
    rw [List.length_append, List.length_singleton] at others
    refine ⟨last, ?_, all⟩
    rw [List.zipIdx_cons, List.foldlM_cons, one]
    exact others

/-- Rebuilding succeeds where the transactions are stored, and what it writes. -/
theorem rebuildTxFeeMedians_some (halfUnused : E.posMinimumHeigh ≤ aliasCostPeriod / 2)
    (stored : ∀ bei ∈ db.blocks, ∀ id ∈ bei.bl.txHashes, ∃ tx, db.storedTx id = some tx) :
    rebuildTxFeeMedians E db = some { db with
      blocks := db.blocks.zipIdx.map fun entry => rebuiltInfo db db.blocks entry.1 entry.2 } := by
  have start : Rebuilds db [] ({}, []) :=
    ⟨rfl, fun _ member => (by cases member), rfl⟩
  obtain ⟨⟨helper, blocks⟩, ran, _, _, written⟩ := rebuild_loop halfUnused stored start
  rw [List.length_nil] at ran
  rw [rebuildTxFeeMedians, ran]
  rw [List.nil_append] at written
  dsimp only at written
  rw [written]
  rfl

end Loop

/-! ## When rebuilding changes nothing -/

section Agreement

variable {E : Env} {db : Db} {blocks : List BlockExtendedInfo} {tx : TransactionPrefix}

/-- The fee of a stored transaction is the one it was admitted with. -/
theorem getTxFee_of_admitted {fee : Nat} (admitted : validateTxAmounts tx = some fee) :
    tx.getTxFee = fee := by
  have inputs : tx.vin.foldl (fun money input => addU64 money input.amount) 0 =
      tx.inputTotal % 2 ^ 64 := by
    rw [TransactionPrefix.inputTotal, ← sumU64, List.foldl_map]
  rw [TransactionPrefix.getTxFee, if_neg (by rw [not_isCoinbase_of_admitted admitted]; decide),
    inputs]
  unfold validateTxAmounts at admitted
  split at admitted
  · cases admitted
  · next amount sum =>
    rw [← (getInputsMoneyAmount_some sum).1]
    split at admitted
    · cases admitted
    · split at admitted
      · cases admitted
      · next covered =>
        rw [if_pos (by omega)]
        exact Option.some.inj admitted

theorem fees_of_admitted {txs : List TransactionPrefix} {fees : List Nat}
    (admitted : List.Forall₂ (fun tx fee => validateTxAmounts tx = some fee) txs fees) :
    txs.map TransactionPrefix.getTxFee = fees := by
  induction admitted with
  | nil => rfl
  | cons first _ ih => rw [List.map_cons, getTxFee_of_admitted first, ih]

/-- What the blocks of a chain record about fees. -/
structure RecordsFees (db : Db) : Prop where
  stored : ∀ bei ∈ db.blocks, ∀ id ∈ bei.bl.txHashes, ∃ tx, db.storedTx id = some tx
  median : ∀ bei ∈ db.blocks,
    bei.thisBlockTxFeeMedian = Virie.median ((db.blockFees bei.bl).filter (· ≠ 0))
  recalculated : ∀ i bei, db.blocks[i]? = some bei → i ≠ 0 → i % aliasMedianRecalcInterwal = 0 →
    bei.effectiveTxFeeMedian = recalculatedFeeMedian { blocks := db.blocks.take i } i
  first : ∀ bei, db.blocks[0]? = some bei →
    db.blockFees bei.bl = [] ∧ bei.effectiveTxFeeMedian = 0

theorem Built.firstEmpty (built : Built E db) :
    ∀ bei, db.blocks[0]? = some bei → bei.bl.txHashes = [] := by
  refine built.invariant (P := fun db => ∀ bei, db.blocks[0]? = some bei → bei.bl.txHashes = [])
    ?_ ?_ ?_
  · intro bei found
    simp at found
  · intro a b same all bei found
    rw [same.blocks] at found
    exact all bei found
  · intro before after bei txs _ connects genesis all other found
    rw [connects.blocks] at found
    cases below : before.blocks with
    | nil =>
      rw [below] at found
      cases found
      rw [← connects.txIds, genesis below]
      rfl
    | cons first rest =>
      rw [below, List.cons_append] at found
      exact all other (by rw [below]; exact found)

theorem Built.recordsFees (built : Built E db) : RecordsFees db := by
  refine ⟨fun bei member => ?_, fun bei member => ?_, fun i bei found above multiple => ?_,
    fun bei found => ?_⟩
  · obtain ⟨i, found⟩ := List.mem_iff_getElem?.mp member
    exact (built.pays i bei found).1
  · obtain ⟨i, found⟩ := List.mem_iff_getElem?.mp member
    obtain ⟨_, fees, pays⟩ := built.pays i bei found
    rw [pays.feeMedian, Db.blockFees, fees_of_admitted pays.admitted]
  · obtain ⟨_, fees, pays⟩ := built.pays i bei found
    have length : (db.blocks.take i).length = i :=
      List.length_take_of_le (le_of_lt (List.getElem?_eq_some_iff.mp found).1)
    have recalculated := pays.recalculated
    rw [length, if_neg above] at recalculated
    exact recalculated multiple
  · obtain ⟨_, fees, pays⟩ := built.pays 0 bei found
    have none_ := built.firstEmpty bei found
    refine ⟨?_, pays.recalculated rfl⟩
    rw [Db.blockFees, Db.blockTransactions, none_]
    rfl

/-- The medians that are not zero, in the window from a height on. -/
theorem filter_feeMedians (start : Nat) :
    ((feeMedians db blocks).filter fun item => decide (start ≤ item.2)).map Prod.fst =
      ((blocks.drop start).map fun bei => median (db.blockFees bei.bl)).filter (· ≠ 0) := by
  induction blocks using List.reverseRecOn with
  | nil => simp [feeMedians]
  | append_singleton front bei ih =>
    rw [feeMedians_append, List.filter_append, List.map_append, ih]
    by_cases inside : start ≤ front.length
    · rw [List.drop_append_of_le_length inside, List.map_append, List.filter_append]
      refine congrArg₂ (fun a b : List Nat => a ++ b) rfl ?_
      by_cases none_ : median (db.blockFees bei.bl) = 0
      · simp [none_]
      · simp [none_, inside]
    · have short : front.drop start = [] := List.drop_eq_nil_of_le (by omega)
      have shortToo : (front ++ [bei]).drop start = [] :=
        List.drop_eq_nil_of_le (by rw [List.length_append, List.length_singleton]; omega)
      rw [short, shortToo]
      split
      · simp [inside]
      · rfl

/-- The helper holds the items of the window, except where there are none but an older one. -/
theorem newest_median_iff (start : Nat) :
    median ((newest Prod.snd start (feeMedians db blocks)).map Prod.fst) =
        median (((feeMedians db blocks).filter fun item => decide (start ≤ item.2)).map Prod.fst) ↔
      (∃ item ∈ feeMedians db blocks, start ≤ item.2) ∨ feeMedians db blocks = [] := by
  rw [newest]
  split
  · next any_ =>
    obtain ⟨item, member, new⟩ := List.any_eq_true.mp any_
    exact ⟨fun _ => .inl ⟨item, member, of_decide_eq_true new⟩, fun _ => rfl⟩
  · next old =>
    have none_ : ¬ ∃ item ∈ feeMedians db blocks, start ≤ item.2 := by
      rintro ⟨item, member, new⟩
      exact old (List.any_eq_true.mpr ⟨item, member, decide_eq_true new⟩)
    have empty : ((feeMedians db blocks).filter fun item => decide (start ≤ item.2)) = [] :=
      List.filter_eq_nil_iff.mpr fun item member new =>
        none_ ⟨item, member, of_decide_eq_true new⟩
    rw [empty, or_iff_right none_]
    cases last : (feeMedians db blocks).getLast? with
    | none => exact ⟨fun _ => List.getLast?_eq_none_iff.mp last, fun _ => rfl⟩
    | some item =>
      obtain ⟨_, _, _, some_⟩ := mem_feeMedians.mp (List.mem_of_getLast? last)
      have single : median ([item].map Prod.fst) = item.1 := by simp [median]
      refine ⟨fun same => absurd ?_ some_, fun all => ?_⟩
      · rw [← single]
        exact same
      · rw [all] at last
        cases last

theorem effectiveIndex_multiple (h : Nat) :
    Db.getTxFeeMedianEffectiveIndex h % aliasMedianRecalcInterwal = 0 := by
  rw [Db.getTxFeeMedianEffectiveIndex]
  split
  · rfl
  · exact Nat.mod_eq_zero_of_dvd (Nat.dvd_sub_mod _)

/-- Where the medians of blocks are kept, the effective median at a height is kept just when the
past week has a fee median or no earlier block has one. -/
theorem effective_kept_iff (records : RecordsFees db) (agree : ZeroFeesAgree db) {i : Nat}
    {bei : BlockExtendedInfo} (found : db.blocks[i]? = some bei) (above : i ≠ 0)
    (multiple : i % aliasMedianRecalcInterwal = 0) :
    (rebuiltInfo db db.blocks bei i).effectiveTxFeeMedian = bei.effectiveTxFeeMedian ↔
      (∃ j bei, db.blocks[j]? = some bei ∧ i - aliasCostPeriod ≤ j ∧ j < i ∧
        bei.thisBlockTxFeeMedian ≠ 0) ∨
      ∀ j bei, db.blocks[j]? = some bei → j < i → bei.thisBlockTxFeeMedian = 0 := by
  have same : ∀ bei ∈ db.blocks, median (db.blockFees bei.bl) = bei.thisBlockTxFeeMedian :=
    fun bei member => (agree bei member).trans (records.median bei member).symm
  have length : (db.blocks.take i).length = i :=
    List.length_take_of_le (le_of_lt (List.getElem?_eq_some_iff.mp found).1)
  have window : median (((feeMedians db (db.blocks.take i)).filter fun item =>
      decide (i - aliasCostPeriod ≤ item.2)).map Prod.fst) =
        recalculatedFeeMedian { blocks := db.blocks.take i } i := by
    have fees : ∀ start, ((db.blocks.take i).drop start).map (fun bei =>
        median (db.blockFees bei.bl)) =
          ((db.blocks.take i).drop start).map BlockExtendedInfo.thisBlockTxFeeMedian := fun start =>
      List.map_congr_left fun bei member =>
        same bei ((List.take_sublist _ _).subset ((List.drop_sublist _ _).subset member))
    rw [filter_feeMedians, recalculatedFeeMedian, fees]
    rcases Nat.eq_zero_or_pos (i - aliasCostPeriod) with early | late
    · rw [early, Nat.max_eq_left (Nat.zero_le 1)]
      cases whole : db.blocks with
      | nil =>
        rw [whole] at found
        simp at found
      | cons first rest =>
        have none_ : first.thisBlockTxFeeMedian = 0 := by
          have fees := (records.first first (by rw [whole]; rfl)).1
          rw [← same first (by rw [whole]; exact .head _), fees]
          rfl
        obtain ⟨k, rfl⟩ := Nat.exists_eq_succ_of_ne_zero above
        rw [List.take_succ_cons, List.drop_zero, List.drop_one, List.tail_cons, List.map_cons,
          List.filter_cons_of_neg (by simp [none_])]
        exact median_perm ((List.reverse_perm _).symm.map _ |>.filter _)
    · rw [Nat.max_eq_right late]
      exact median_perm ((List.reverse_perm _).symm.map _ |>.filter _)
  have here : ∀ j, j < i → (db.blocks.take i)[j]? = db.blocks[j]? := fun j below => by
    rw [List.getElem?_take, if_pos below]
  rw [records.recalculated i bei found above multiple, ← window, rebuiltInfo, heldMedians]
  dsimp only
  rw [newest_median_iff]
  refine or_congr ⟨?_, ?_⟩ ⟨?_, ?_⟩
  · rintro ⟨item, member, new⟩
    have below := lt_of_mem_feeMedians member
    rw [length] at below
    obtain ⟨other, there, median, some_⟩ := mem_feeMedians.mp member
    rw [here _ below] at there
    refine ⟨item.2, other, there, new, below, ?_⟩
    rwa [← same other (List.mem_of_getElem? there), median]
  · rintro ⟨j, other, there, new, below, some_⟩
    rw [← same other (List.mem_of_getElem? there)] at some_
    exact ⟨(median (db.blockFees other.bl), j),
      mem_feeMedians.mpr ⟨other, (here j below).trans there, rfl, some_⟩, new⟩
  · intro none_ j other there below
    by_contra some_
    rw [← same other (List.mem_of_getElem? there)] at some_
    have member : (median (db.blockFees other.bl), j) ∈ feeMedians db (db.blocks.take i) :=
      mem_feeMedians.mpr ⟨other, (here j below).trans there, rfl, some_⟩
    rw [none_] at member
    cases member
  · intro all
    refine List.eq_nil_iff_forall_not_mem.mpr fun item member => ?_
    have below := lt_of_mem_feeMedians member
    rw [length] at below
    obtain ⟨other, there, median, some_⟩ := mem_feeMedians.mp member
    rw [here _ below] at there
    rw [← median, same other (List.mem_of_getElem? there)] at some_
    exact some_ (all item.2 other there below)

/-- What rebuilding leaves, block by block. -/
theorem rebuildKeeps_iff_infos (halfUnused : E.posMinimumHeigh ≤ aliasCostPeriod / 2)
    (records : RecordsFees db) :
    RebuildKeeps E db ↔ ∀ i bei, db.blocks[i]? = some bei →
      median (db.blockFees bei.bl) = bei.thisBlockTxFeeMedian ∧
        ((∃ h, Db.getTxFeeMedianEffectiveIndex h = i) →
          (rebuiltInfo db db.blocks bei i).effectiveTxFeeMedian = bei.effectiveTxFeeMedian) := by
  have entries : ∀ i bei, db.blocks[i]? = some bei →
      (db.blocks.zipIdx.map fun entry => rebuiltInfo db db.blocks entry.1 entry.2)[i]? =
        some (rebuiltInfo db db.blocks bei i) := by
    intro i bei found
    rw [List.getElem?_map, List.getElem?_zipIdx, found]
    simp only [Option.map_some, Nat.zero_add]
  rw [RebuildKeeps, rebuildTxFeeMedians_some halfUnused records.stored]
  constructor
  · rintro ⟨rebuilt, same, keeps⟩ i bei found
    cases same
    obtain ⟨other, there, medians, effective⟩ := keeps i bei found
    rw [entries i bei found] at there
    cases there
    exact ⟨medians, effective⟩
  · intro all
    exact ⟨_, rfl, fun i bei found => ⟨_, entries i bei found, all i bei found⟩⟩

theorem rebuildKeeps_iff_fees (halfUnused : E.posMinimumHeigh ≤ aliasCostPeriod / 2)
    (records : RecordsFees db) : RebuildKeeps E db ↔ ZeroFeesAgree db ∧ WeeksPaid db := by
  rw [rebuildKeeps_iff_infos halfUnused records]
  constructor
  · intro all
    have agree : ZeroFeesAgree db := by
      intro bei member
      obtain ⟨i, found⟩ := List.mem_iff_getElem?.mp member
      exact (all i bei found).1.trans (records.median bei member)
    refine ⟨agree, fun i inside above price => ?_⟩
    have found : db.blocks[i]? = some db.blocks[i] := List.getElem?_eq_getElem inside
    obtain ⟨h, rfl⟩ := price
    exact (effective_kept_iff records agree found above (effectiveIndex_multiple h)).mp
      ((all _ _ found).2 ⟨h, rfl⟩)
  · rintro ⟨agree, paid⟩ i bei found
    have member := List.mem_of_getElem? found
    refine ⟨(agree bei member).trans (records.median bei member).symm, fun price => ?_⟩
    by_cases above : i = 0
    · subst above
      rw [rebuiltInfo, (records.first bei found).2]
      rfl
    · have inside := (List.getElem?_eq_some_iff.mp found).1
      have paidNow := paid i inside above price
      obtain ⟨h, rfl⟩ := price
      exact (effective_kept_iff records agree found above (effectiveIndex_multiple h)).mpr paidNow

end Agreement

/-- In every reachable state rebuilding the medians changes nothing that prices depend on just when
fees that are zero change no median of a block, and before no height with a recalculated median a
week without fees follows a block with some. The half period of the time before proof of stake has
to end before it matters. -/
theorem rebuildKeeps_iff {E : Env} {node : Node}
    (reached : (nodeSystem E anyBlock).Reachable node)
    (halfUnused : E.posMinimumHeigh ≤ aliasCostPeriod / 2) :
    RebuildKeeps E node.chain.db ↔ ZeroFeesAgree node.chain.db ∧ WeeksPaid node.chain.db :=
  rebuildKeeps_iff_fees halfUnused (NodeBuilt.reachable reached).1.built.recordsFees

/-! ## A free transaction -/

namespace FreeTransaction

open OlderMultisig

/-- An environment in which a service attachment may name an offer to cancel. -/
def offersEnv : Env := { env with cancelOfferTxId := fun _ => some ⟨5⟩ }

/-- A transaction that cancels an offer and pays no fee. -/
def free : Transaction :=
  { move 104 1 (.toKey ⟨⟨1⟩, 0⟩) with
    vout := [⟨coin, .toKey ⟨⟨1⟩, 0⟩⟩]
    extra := [.extraAttachmentInfo ⟨10, ⟨1⟩, 1⟩]
    attachment := [.txServiceAttachment
      ⟨bcOffersServiceId, bcOffersServiceInstructionDel, "", [], 0⟩] }

/-- A chain whose last block has a transaction that pays a fee and the one that pays none. -/
def halved : Node :=
  (nodeSystem offersEnv anyBlock).after (addNewBlock offersEnv genesis (Node.fresh 1000000)).2
    (((List.range' 1 12).map fun height => Event.submitBlock (mined height 0 [])) ++
      [.incomingTx (move 103 0 (.toKey ⟨⟨1⟩, 0⟩)) 100 false, .incomingTx free 100 false,
        .submitBlock (mined 13 txMinimumFee [⟨103⟩, ⟨104⟩])])

/-- The median of the fees in the block is the one fee, and rebuilding halves it. -/
theorem median_halved : (nodeSystem offersEnv anyBlock).Reachable halved ∧
    ¬ RebuildKeeps offersEnv halved.chain.db := by
  have reached : (nodeSystem offersEnv anyBlock).Reachable halved := by
    refine System.Reachable.after ?_ _
    exact .start ⟨genesis, 1000000, trivial, rfl, by decide, rfl⟩
  have halves : ∃ bei, halved.chain.db.blocks[13]? = some bei ∧
      median (halved.chain.db.blockFees bei.bl) = txMinimumFee / 2 ∧
      bei.thisBlockTxFeeMedian = txMinimumFee := by
    have read : (halved.chain.db.blocks[13]?.map fun bei =>
        (median (halved.chain.db.blockFees bei.bl), bei.thisBlockTxFeeMedian)) =
          some (txMinimumFee / 2, txMinimumFee) := by
      decide +kernel
    obtain ⟨bei, found, medians⟩ := Option.map_eq_some_iff.mp read
    exact ⟨bei, found, (Prod.mk.inj medians).1, (Prod.mk.inj medians).2⟩
  refine ⟨reached, fun keeps => ?_⟩
  have records := (NodeBuilt.reachable reached).1.built.recordsFees
  obtain ⟨bei, found, computed, recorded⟩ := halves
  have same := ((rebuildKeeps_iff_infos (by decide) records).mp keeps 13 bei found).1
  rw [computed, recorded] at same
  exact absurd same (by decide)

/-- Blocks with one transaction each, all of the first day. -/
theorem rebuildKeeps_node : RebuildKeeps env node.chain.db := by
  refine (rebuildKeeps_iff node_reachable (by decide)).mpr ⟨?_, fun i inside above price => ?_⟩
  · unfold ZeroFeesAgree
    decide +kernel
  · have short : node.chain.db.blocks.length = 15 := by decide +kernel
    obtain ⟨h, rfl⟩ := price
    have multiple := effectiveIndex_multiple h
    have day : aliasMedianRecalcInterwal = 1440 := by decide
    rw [day] at multiple
    omega

end FreeTransaction
end Virie
