import Virie.Difficulty

/-! # Retargeting over a window

The difficulty of the next block averages three zones of a window of blocks. A zone relates
the work of its blocks to the time they took, where the timestamps are sorted on their own. A
window longer than the retargeting window is cut to it before the timestamps are sorted, so
the blocks beyond it do not count. -/

open Foundation

namespace Virie

/-- Where a zone begins in a window of the given length, newest first. -/
def zoneBegin (length window cutOld cutLast : Nat) : Nat :=
  let cutLength := window - (cutOld + cutLast)
  if length > cutLength + cutLast then cutLast
  else if length > cutLength then length - cutLength
  else 0

/-- Where a zone ends. -/
def zoneEnd (length window cutOld cutLast : Nat) : Nat :=
  min (zoneBegin length window cutOld cutLast + (window - (cutOld + cutLast))) length

/-- The work of the blocks between two positions, for the target time, over the time they took. -/
def workOverTime (timestamps difficulties : List Nat) (target first last : Nat) : Nat :=
  ((difficulties.getD first 0 - difficulties.getD last 0) * target) ⌈/⌉
    max 1 (timestamps.getD first 0 - timestamps.getD last 0)

/-- The adjustment of a zone is exact: it lies inside the window, neither difference is below
zero, and it is the work over the time, rounded up. -/
structure ZoneExact (sorted difficulties : List Nat) (target window cutOld cutLast zone : Nat) :
    Prop where
  adjusts : getAdjustmentForZone sorted difficulties target window cutOld cutLast = .ok zone
  first : zoneBegin sorted.length window cutOld cutLast + 2 ≤
    zoneEnd sorted.length window cutOld cutLast
  inside : zoneEnd sorted.length window cutOld cutLast ≤ sorted.length
  time : sorted.getD (zoneEnd sorted.length window cutOld cutLast - 1) 0 ≤
    sorted.getD (zoneBegin sorted.length window cutOld cutLast) 0
  work : difficulties.getD (zoneEnd sorted.length window cutOld cutLast - 1) 0 <
    difficulties.getD (zoneBegin sorted.length window cutOld cutLast) 0
  value : zone = workOverTime sorted difficulties target
    (zoneBegin sorted.length window cutOld cutLast)
    (zoneEnd sorted.length window cutOld cutLast - 1)

/-- The work of a window at the target time leaves room for the sum of three zones. -/
def RoomForZones (difficulties : List Nat) (target : Nat) : Prop :=
  ∀ newest ∈ difficulties, ∀ oldest ∈ difficulties, 3 * ((newest - oldest) * target) < 2 ^ 128

/-- The timestamps that count, newest first. -/
def sortedWindow (timestamps : List Nat) : List Nat :=
  (timestamps.take difficultyWindow).insertionSort (· ≥ ·)

section Window

variable {timestamps other difficulties sorted : List Nat} {target window cutOld cutLast : Nat}

/-! ## The cut -/

theorem zone_inside (wide : cutOld + cutLast + 2 ≤ window) {length : Nat} (two : 2 ≤ length) :
    zoneBegin length window cutOld cutLast + 2 ≤ zoneEnd length window cutOld cutLast ∧
      zoneEnd length window cutOld cutLast ≤ length := by
  unfold zoneEnd zoneBegin
  dsimp only
  split
  · omega
  · split <;> omega

theorem getD_mem {list : List Nat} {i : Nat} (inside : i < list.length) :
    list.getD i 0 ∈ list := by
  rw [List.getD_eq_getElem _ _ inside]
  exact List.getElem_mem inside

/-- A list in order, read at two positions in order. -/
theorem getD_rel {r : Nat → Nat → Prop} {list : List Nat} (ordered : list.Pairwise r) {i j : Nat}
    (apart : i < j) (inside : j < list.length) : r (list.getD i 0) (list.getD j 0) := by
  rw [List.getD_eq_getElem _ _ (Nat.lt_trans apart inside), List.getD_eq_getElem _ _ inside]
  exact List.pairwise_iff_getElem.mp ordered i j _ _ apart

/-! ## One zone -/

/-- A zone is adjusted if it has two positions and its difficulties rise, and raises an exception
otherwise. -/
theorem getAdjustmentForZone_eq_ite (sorted difficulties : List Nat)
    (target window cutOld cutLast : Nat) :
    getAdjustmentForZone sorted difficulties target window cutOld cutLast =
      if zoneBegin sorted.length window cutOld cutLast + 2 ≤
          zoneEnd sorted.length window cutOld cutLast then
        if difficulties.getD (zoneEnd sorted.length window cutOld cutLast - 1) 0 <
            difficulties.getD (zoneBegin sorted.length window cutOld cutLast) 0 then
          .ok (min (workOverTime sorted difficulties target
            (zoneBegin sorted.length window cutOld cutLast)
            (zoneEnd sorted.length window cutOld cutLast - 1)) (2 ^ 128 - 1))
        else .error .thrown
      else .error .thrown := by
  have last : zoneEnd sorted.length window cutOld cutLast ≤ sorted.length := Nat.min_le_right _ _
  have span : ∀ time : Nat, (if time = 0 then 1 else time) = max 1 time := by
    intro time
    split <;> omega
  unfold getAdjustmentForZone
  dsimp only
  change (if ¬ (zoneBegin sorted.length window cutOld cutLast + 2 ≤
    zoneEnd sorted.length window cutOld cutLast ∧
      zoneEnd sorted.length window cutOld cutLast ≤ sorted.length) then _ else _) = _
  by_cases inside : zoneBegin sorted.length window cutOld cutLast + 2 ≤
      zoneEnd sorted.length window cutOld cutLast
  · rw [if_neg (not_not.mpr ⟨inside, last⟩), if_pos inside]
    change (if ¬ difficulties.getD (zoneBegin sorted.length window cutOld cutLast) 0 >
      difficulties.getD (zoneEnd sorted.length window cutOld cutLast - 1) 0 then _ else _) = _
    by_cases work : difficulties.getD (zoneEnd sorted.length window cutOld cutLast - 1) 0 <
        difficulties.getD (zoneBegin sorted.length window cutOld cutLast) 0
    · rw [if_neg (not_not.mpr work), if_pos work, workOverTime, Nat.ceilDiv_eq_add_pred_div, ← span]
      rfl
    · rw [if_pos work, if_neg work]
      rfl
  · rw [if_pos (not_and.mpr fun both => absurd both inside), if_neg inside]
    rfl

/-- A zone is adjusted or raises an exception. -/
theorem getAdjustmentForZone_cases (sorted difficulties : List Nat)
    (target window cutOld cutLast : Nat) :
    getAdjustmentForZone sorted difficulties target window cutOld cutLast = .error .thrown ∨
      ∃ zone, getAdjustmentForZone sorted difficulties target window cutOld cutLast =
        .ok zone := by
  rw [getAdjustmentForZone_eq_ite]
  split
  · split
    · exact .inr ⟨_, rfl⟩
    · exact .inl rfl
  · exact .inl rfl

/-- A quotient rounded up is at most its dividend. -/
theorem ceilDiv_le (work : Nat) {time : Nat} (positive : 0 < time) : work ⌈/⌉ time ≤ work := by
  rw [ceilDiv_le_iff_le_mul positive]
  exact Nat.le_mul_of_pos_left work positive

/-- Every zone of a window of at least two blocks with falling difficulties is exact, and three
of them can be added. -/
theorem exists_zoneExact (window cutOld cutLast : Nat) (wide : cutOld + cutLast + 2 ≤ window)
    (two : 2 ≤ sorted.length)
    (same : difficulties.length = sorted.length) (ordered : sorted.Pairwise (· ≥ ·))
    (falling : difficulties.Pairwise (· > ·)) (room : RoomForZones difficulties target) :
    ∃ zone, ZoneExact sorted difficulties target window cutOld cutLast zone ∧
      3 * zone < 2 ^ 128 := by
  obtain ⟨first, last⟩ := zone_inside wide two
  have apart : zoneBegin sorted.length window cutOld cutLast <
      zoneEnd sorted.length window cutOld cutLast - 1 := by omega
  have bound : zoneEnd sorted.length window cutOld cutLast - 1 < sorted.length := by omega
  have boundToo : zoneEnd sorted.length window cutOld cutLast - 1 < difficulties.length := by
    rwa [same]
  have time := getD_rel ordered apart bound
  have work := getD_rel falling apart boundToo
  have adjusts := getAdjustmentForZone_eq_ite sorted difficulties target window cutOld cutLast
  rw [if_pos first, if_pos work] at adjusts
  have least := ceilDiv_le ((difficulties.getD (zoneBegin sorted.length window cutOld cutLast) 0 -
    difficulties.getD (zoneEnd sorted.length window cutOld cutLast - 1) 0) * target)
    (Nat.lt_of_lt_of_le Nat.zero_lt_one (Nat.le_max_left 1
      (sorted.getD (zoneBegin sorted.length window cutOld cutLast) 0 -
        sorted.getD (zoneEnd sorted.length window cutOld cutLast - 1) 0)))
  have sums := room _ (getD_mem (Nat.lt_trans apart boundToo)) _ (getD_mem boundToo)
  have fits : 3 * workOverTime sorted difficulties target
      (zoneBegin sorted.length window cutOld cutLast)
      (zoneEnd sorted.length window cutOld cutLast - 1) < 2 ^ 128 :=
    Nat.lt_of_le_of_lt (Nat.mul_le_mul_left 3 least) sums
  rw [Nat.min_eq_left (by omega)] at adjusts
  exact ⟨_, ⟨adjusts, first, last, time, work, rfl⟩, fits⟩

/-! ## The average -/

/-- The order of the timestamps that count does not matter. -/
theorem sortedWindow_perm (same : (timestamps.take difficultyWindow).Perm
    (other.take difficultyWindow)) : sortedWindow timestamps = sortedWindow other := by
  refine List.Perm.eq_of_pairwise (fun a b _ _ above below => Nat.le_antisymm below above)
    (List.pairwise_insertionSort _ _) (List.pairwise_insertionSort _ _) ?_
  exact (List.perm_insertionSort _ _).trans (same.trans (List.perm_insertionSort _ _).symm)

theorem length_sortedWindow (timestamps : List Nat) :
    (sortedWindow timestamps).length = min difficultyWindow timestamps.length := by
  rw [sortedWindow, List.length_insertionSort, List.length_take]

/-- The next difficulty from its three zones. -/
theorem nextDifficulty_zones {slow medium fast : Nat} (two : 2 ≤ timestamps.length)
    (slowly : getAdjustmentForZone (sortedWindow timestamps)
      (difficulties.take difficultyWindow) target difficultyWindow (difficultyCut / 2)
      (difficultyCut / 2) = .ok slow)
    (halfway : getAdjustmentForZone (sortedWindow timestamps)
      (difficulties.take difficultyWindow) target (difficultyWindow / 3) (difficultyCut / 8)
      (difficultyCut / 12) = .ok medium)
    (quickly : getAdjustmentForZone (sortedWindow timestamps)
      (difficulties.take difficultyWindow) target (difficultyWindow / 18) (difficultyCut / 10) 2 =
        .ok fast) :
    nextDifficulty timestamps difficulties target =
      .ok (if (slow + medium + fast) % 2 ^ 128 / 3 = 0 then difficultyStarter
        else (slow + medium + fast) % 2 ^ 128 / 3) := by
  have long : ¬ (timestamps.take difficultyWindow).length ≤ 1 := by
    rw [List.length_take]
    have wide : 2 ≤ difficultyWindow := by decide
    omega
  unfold nextDifficulty
  dsimp only
  rw [if_neg long]
  change (getAdjustmentForZone (sortedWindow timestamps) _ _ _ _ _ >>= _) = _
  rw [slowly]
  change (getAdjustmentForZone (sortedWindow timestamps) _ _ _ _ _ >>= _) = _
  rw [halfway]
  change (getAdjustmentForZone (sortedWindow timestamps) _ _ _ _ _ >>= _) = _
  rw [quickly]
  rfl

/-- For every list of timestamps and as many falling difficulties, with room for the sum of the
zones, the three zones are exact, the next difficulty is their average and at least one, and
another order of the timestamps that count gives the same. -/
theorem nextDifficulty_exact (two : 2 ≤ timestamps.length)
    (same : difficulties.length = timestamps.length) (falling : difficulties.Pairwise (· > ·))
    (room : RoomForZones difficulties target) :
    ∃ slow medium fast diff,
      ZoneExact (sortedWindow timestamps) (difficulties.take difficultyWindow) target
        difficultyWindow (difficultyCut / 2) (difficultyCut / 2) slow ∧
      ZoneExact (sortedWindow timestamps) (difficulties.take difficultyWindow) target
        (difficultyWindow / 3) (difficultyCut / 8) (difficultyCut / 12) medium ∧
      ZoneExact (sortedWindow timestamps) (difficulties.take difficultyWindow) target
        (difficultyWindow / 18) (difficultyCut / 10) 2 fast ∧
      nextDifficulty timestamps difficulties target = .ok diff ∧
      diff = max 1 ((slow + medium + fast) / 3) ∧
      ∀ other : List Nat,
        (timestamps.take difficultyWindow).Perm (other.take difficultyWindow) →
        nextDifficulty other difficulties target = .ok diff := by
  have kept : (difficulties.take difficultyWindow).length = (sortedWindow timestamps).length := by
    rw [length_sortedWindow, List.length_take, same]
  have several : 2 ≤ (sortedWindow timestamps).length := by
    rw [length_sortedWindow]
    exact Nat.le_min.mpr ⟨by decide, two⟩
  have ordered : (sortedWindow timestamps).Pairwise (· ≥ ·) := List.pairwise_insertionSort _ _
  have fallingKept := falling.sublist (List.take_sublist difficultyWindow difficulties)
  have roomKept : RoomForZones (difficulties.take difficultyWindow) target :=
    fun newest first oldest last =>
      room newest (List.mem_of_mem_take first) oldest (List.mem_of_mem_take last)
  obtain ⟨slow, slowly, slowFits⟩ := exists_zoneExact difficultyWindow (difficultyCut / 2)
    (difficultyCut / 2) (by decide) several kept ordered fallingKept roomKept
  obtain ⟨medium, halfway, mediumFits⟩ := exists_zoneExact (difficultyWindow / 3)
    (difficultyCut / 8) (difficultyCut / 12) (by decide) several kept ordered fallingKept roomKept
  obtain ⟨fast, quickly, fastFits⟩ := exists_zoneExact (difficultyWindow / 18)
    (difficultyCut / 10) 2 (by decide) several kept ordered fallingKept roomKept
  have whole : (slow + medium + fast) % 2 ^ 128 = slow + medium + fast :=
    Nat.mod_eq_of_lt (by omega)
  have average : ∀ res : Nat, (if res = 0 then difficultyStarter else res) = max 1 res := by
    intro res
    change (if res = 0 then 1 else res) = _
    split <;> omega
  have computed := nextDifficulty_zones two slowly.adjusts halfway.adjusts quickly.adjusts
  rw [whole, average] at computed
  refine ⟨slow, medium, fast, _, slowly, halfway, quickly, computed, rfl, fun other permuted => ?_⟩
  have twoToo : 2 ≤ other.length := by
    have lengths := permuted.length_eq
    rw [List.length_take, List.length_take] at lengths
    have wide : 2 ≤ difficultyWindow := by decide
    omega
  have sameSorted := sortedWindow_perm permuted
  rw [sameSorted] at slowly halfway quickly
  have again := nextDifficulty_zones twoToo slowly.adjusts halfway.adjusts quickly.adjusts
  rw [whole, average] at again
  exact again

end Window

/-! ## Timestamps beyond the window -/

namespace LongWindow

/-- The timestamps between the newest and the oldest one, with a pause. -/
def middle : List Nat := (List.range' 1687 33).reverse ++ (List.range' 1 686).reverse

/-- One timestamp more than the window has. -/
def timestamps : List Nat := 1720 :: (middle ++ [0])

/-- The same timestamps with the newest and the oldest one exchanged. -/
def exchanged : List Nat := 0 :: (middle ++ [1720])

def difficulties : List Nat := (List.range 721).reverse

theorem exchanged_perm : timestamps.Perm exchanged := by
  have moved : (1720 :: middle ++ [0]).Perm (0 :: 1720 :: middle) := List.perm_append_singleton _ _
  exact moved.trans ((List.perm_append_singleton _ _).symm.cons 0)

theorem length_difficulties : difficulties.length = timestamps.length := by
  simp [difficulties, timestamps, middle]

theorem difficulties_room : RoomForZones difficulties 120 := by
  intro newest first oldest _
  have bound : newest < 721 := List.mem_range.mp (List.mem_reverse.mp first)
  omega

/-- A timestamp beyond the window does not count, so that exchanging it with another one changes
the next difficulty. -/
theorem exchanged_differs : timestamps.Perm exchanged ∧ difficulties.length = timestamps.length ∧
    difficulties.Pairwise (· > ·) ∧ RoomForZones difficulties 120 ∧
    nextDifficulty timestamps difficulties 120 ≠ nextDifficulty exchanged difficulties 120 := by
  refine ⟨exchanged_perm, length_difficulties, ?_, difficulties_room, by decide +kernel⟩
  exact List.pairwise_reverse.mpr List.pairwise_lt_range

/-- Two blocks a minute apart. -/
theorem nextDifficulty_two : ∃ diff, nextDifficulty [60, 0] [5, 3] 120 = .ok diff ∧
    nextDifficulty [0, 60] [5, 3] 120 = .ok diff := by
  have room : RoomForZones [5, 3] 120 := by
    unfold RoomForZones
    decide
  obtain ⟨_, _, _, diff, _, _, _, computed, _, permuted⟩ :=
    @nextDifficulty_exact [60, 0] [5, 3] 120 (by decide) rfl (by decide) room
  exact ⟨diff, computed, permuted [0, 60] (List.Perm.swap _ _ _)⟩

end LongWindow
end Virie
