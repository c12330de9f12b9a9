import Virie.Wallet.Minting

/-! # The walk of a scan

The turns of a scan walk outward from the first multiple of the step after its start. A scan ends
in one of three ways: every turn of every entry was tried, or a kernel met the difficulty, or the
scan was interrupted. -/

open Foundation

namespace Virie
namespace Wallet

/-! ## The turns of a scan -/

/-- The turns from a distance on: one in the past and one in the future for each distance. -/
theorem Turn.upTo_from {distance count limit : Nat} (away : 0 < distance)
    (reach : posScanStep * (distance + count) = posScanWindow + posScanStep)
    (enough : 2 * count < limit) :
    Turn.upTo limit ⟨true, posScanStep * distance⟩ =
      (List.range' distance count).flatMap fun distance =>
        [⟨true, posScanStep * distance⟩, ⟨false, posScanStep * distance⟩] := by
  induction count generalizing distance limit with
  | zero =>
    obtain ⟨limit, rfl⟩ := Nat.exists_eq_add_of_lt enough
    refine if_neg fun within => ?_
    rw [Nat.add_zero] at reach
    have : posScanStep * distance ≤ posScanWindow := within
    have : 0 < posScanStep := by decide
    omega
  | succ count ih =>
    obtain ⟨limit, rfl⟩ : ∃ more, limit = more + 2 := ⟨limit - 2, by omega⟩
    have later : Turn.upTo limit ⟨true, posScanStep * (distance + 1)⟩ = _ :=
      ih (Nat.succ_pos distance) (by rw [Nat.succ_add_eq_add_succ]; exact reach) (by omega)
    have within : posScanStep * distance ≤ posScanWindow := by
      rw [Nat.mul_add, Nat.mul_add, Nat.mul_one] at reach
      omega
    have apart : posScanStep * distance ≠ 0 :=
      Nat.ne_of_gt (Nat.mul_pos (by decide) away)
    have outside : Turn.nextTurn ⟨true, posScanStep * distance⟩ =
        ⟨false, posScanStep * distance⟩ := by
      rw [Turn.nextTurn, if_neg apart, if_pos rfl]
    have further : Turn.nextTurn ⟨false, posScanStep * distance⟩ =
        ⟨true, posScanStep * (distance + 1)⟩ := by
      rw [Turn.nextTurn, if_neg apart, if_neg Bool.false_ne_true, Nat.mul_succ]
    rw [Turn.upTo, if_pos within, outside, Turn.upTo, if_pos within, further, later,
      List.range'_succ, List.flatMap_cons]
    rfl

theorem Turn.all_eq :
    Turn.all = ⟨true, 0⟩ :: (List.range' 1 (posScanWindow / posScanStep)).flatMap fun distance =>
      [⟨true, posScanStep * distance⟩, ⟨false, posScanStep * distance⟩] := by
  have first : Turn.nextTurn ⟨true, 0⟩ = ⟨true, posScanStep * 1⟩ := by
    rw [Turn.nextTurn, if_pos rfl, Nat.zero_add, Nat.mul_one]
  have reach : posScanStep * (1 + posScanWindow / posScanStep) = posScanWindow + posScanStep := by
    simp only [posScanStep, posScanWindow]
  have enough : 2 * (posScanWindow / posScanStep) < 2 * posScanWindow + 1 := by
    simp only [posScanStep, posScanWindow]
    omega
  rw [Turn.all, Turn.upTo, if_pos (Nat.zero_le _), first, Turn.upTo_from Nat.one_pos reach enough]

theorem subU64_of_le {a b : Nat} (word : a < 2 ^ 64) (le : b ≤ a) : subU64 a b = a - b := by
  unfold subU64
  omega

theorem addU64_of_lt {a b : Nat} (word : a + b < 2 ^ 64) : addU64 a b = a + b :=
  Nat.mod_eq_of_lt word

/-- A loop that stays among the words walks outward from its first timestamp. -/
theorem Turn.timestamps_eq {adjusted : Nat} (low : posScanWindow ≤ adjusted)
    (high : adjusted + posScanWindow < 2 ^ 64) :
    Turn.all.map (fun turn => turn.timestamp adjusted) =
      outward adjusted posScanStep (posScanWindow / posScanStep) := by
  have reach : ∀ distance ∈ List.range' 1 (posScanWindow / posScanStep),
      posScanStep * distance ≤ posScanWindow := by
    decide
  have below : ∀ {step}, step ≤ posScanWindow → subU64 adjusted step = adjusted - step :=
    fun within => subU64_of_le (by omega) (by omega)
  have above : ∀ {step}, step ≤ posScanWindow → addU64 adjusted step = adjusted + step :=
    fun within => addU64_of_lt (by omega)
  have start : Turn.timestamp ⟨true, 0⟩ adjusted = adjusted := by
    rw [Turn.timestamp, if_pos rfl, below (Nat.zero_le _), Nat.sub_zero]
  have sides : ∀ distance ∈ List.range' 1 (posScanWindow / posScanStep),
      [Turn.timestamp ⟨true, posScanStep * distance⟩ adjusted,
        Turn.timestamp ⟨false, posScanStep * distance⟩ adjusted] =
      [adjusted - posScanStep * distance, adjusted + posScanStep * distance] := by
    intro distance member
    have within := reach distance member
    rw [Turn.timestamp, Turn.timestamp, if_pos rfl, if_neg Bool.false_ne_true, below within,
      above within]
  rw [Turn.all_eq, List.map_cons, List.map_flatMap, outward, outwardFrom, start]
  simp only [List.map_cons, List.map_nil]
  rw [List.flatMap_congr sides]

/-- The first timestamp is the first multiple of the step after the start of the scan. -/
theorem adjustedStarterTimestamp_spec {start : Nat} (low : posScanStep ≤ start)
    (high : start + posScanStep < 2 ^ 64) :
    adjustedStarterTimestamp start % posScanStep = 0 ∧ start < adjustedStarterTimestamp start ∧
      adjustedStarterTimestamp start ≤ start + posScanStep := by
  have back : subU64 start posScanStep = start - posScanStep := subU64_of_le (by omega) low
  have grid : (start - posScanStep) % posScanStep ≤ posScanStep * 2 := by
    unfold posScanStep
    omega
  have up : subU64 (posScanStep * 2) ((start - posScanStep) % posScanStep) =
      posScanStep * 2 - (start - posScanStep) % posScanStep := subU64_of_le (by decide) grid
  unfold adjustedStarterTimestamp
  dsimp only
  rw [back, up, addU64_of_lt (by omega)]
  unfold posScanStep at *
  omega

/-! ## The loops of a scan -/

section Scan

variable {E : Env} {world : ScanWorld} {cxt : MiningContext} {entry : PosEntry} {i j ts : Nat}
  {scan after : Scan} {turns : List Turn} {ended : ScanEnd}

/-- A kernel that meets the difficulty of its output. -/
structure KernelMeets (E : Env) (cxt : MiningContext) (entry : PosEntry) (ts : Nat) : Prop where
  weight : entry.amount ≠ 0
  meets : checkHash (E.stakeKernelHash ⟨cxt.sm, ts, entry.keyimage⟩)
    (cxt.basicDiff / entry.amount) = true

/-- The timestamps a loop tries on its turns. -/
def triedOn (world : ScanWorld) (cxt : MiningContext) (turns : List Turn) : List Nat :=
  (turns.map fun turn => turn.timestamp (adjustedStarterTimestamp world.timstampStart)).filter
    fun ts => !decide (ts < cxt.rsp.starterTimestamp)

theorem triedOn_cons {turn : Turn} :
    triedOn world cxt (turn :: turns) =
      if turn.timestamp (adjustedStarterTimestamp world.timstampStart) < cxt.rsp.starterTimestamp
      then triedOn world cxt turns
      else turn.timestamp (adjustedStarterTimestamp world.timstampStart) ::
        triedOn world cxt turns := by
  by_cases early :
      turn.timestamp (adjustedStarterTimestamp world.timstampStart) < cxt.rsp.starterTimestamp
  · rw [if_pos early, triedOn, List.map_cons, List.filter_cons_of_neg]
    · rfl
    · rw [decide_eq_true early]
      exact Bool.false_ne_true
  · rw [if_neg early, triedOn, List.map_cons, List.filter_cons_of_pos]
    · rfl
    · rw [decide_eq_false early]
      rfl

theorem idleCheck_ok {goesOn : Bool} (checked : idleCheck world scan = .ok goesOn after) :
    after.tried = scan.tried := by
  unfold idleCheck at checked
  rw [Procedure.get_bind] at checked
  split at checked
  · split at checked
    · rw [Procedure.set_bind] at checked
      obtain ⟨_, rfl⟩ := Procedure.pure_ok.mp checked
      rfl
    · obtain ⟨_, rfl⟩ := Procedure.pure_ok.mp checked
      rfl
  · rw [Procedure.set_bind] at checked
    obtain ⟨_, rfl⟩ := Procedure.pure_ok.mp checked
    rfl

/-- A kernel check records its timestamp and answers whether the kernel meets the difficulty. -/
theorem tryKernel_ok {hit : Bool} (tried : tryKernel E cxt i entry ts scan = .ok hit after) :
    after.tried = scan.tried ++ [(i, ts)] ∧ (hit = true → KernelMeets E cxt entry ts) := by
  unfold tryKernel at tried
  by_cases weightless : entry.amount = 0
  · simp only [weightless, ↓reduceIte] at tried
    obtain ⟨_, _, thrown, _⟩ := Procedure.bind_ok.mp tried
    exact absurd thrown (by simp only [Procedure.throw_ok, not_false_eq_true])
  · simp only [weightless, ↓reduceIte] at tried
    obtain ⟨_, recorded, modified, tried⟩ := Procedure.bind_ok.mp tried
    obtain rfl := Procedure.modify_ok.mp modified
    obtain ⟨rfl, rfl⟩ := Procedure.pure_ok.mp tried
    exact ⟨rfl, fun meets => ⟨weightless, meets⟩⟩

/-- The turns of an entry end in one of three ways: all its timestamps were tried, or one of them
has a kernel, or the scan was interrupted. -/
theorem scanTurns_ok (ran : scanTurns E world cxt i entry turns scan = .ok ended after) :
    (ended = .passed ∧
      after.tried = scan.tried ++ (triedOn world cxt turns).map fun ts => (i, ts)) ∨
    ended = .interrupted ∨
    ∃ ts ∈ triedOn world cxt turns, ended = .found i ts ∧ KernelMeets E cxt entry ts := by
  induction turns generalizing scan with
  | nil =>
    obtain ⟨rfl, rfl⟩ := Procedure.pure_ok.mp ran
    exact .inl ⟨rfl, (List.append_nil _).symm⟩
  | cons turn rest ih =>
    unfold scanTurns at ran
    obtain ⟨n, middle, counted, ran⟩ := Procedure.bind_ok.mp ran
    obtain ⟨_, rfl⟩ := Procedure.reading_ok.mp counted
    obtain ⟨goesOn, checked, idle, ran⟩ := Procedure.bind_ok.mp ran
    have kept := idleCheck_ok idle
    cases goesOn with
    | false =>
      obtain ⟨rfl, _⟩ := Procedure.pure_ok.mp ran
      exact .inr (.inl rfl)
    | true =>
      simp only [Bool.not_true, Bool.false_eq_true, ↓reduceIte] at ran
      rw [triedOn_cons]
      by_cases early : turn.timestamp (adjustedStarterTimestamp world.timstampStart) <
          cxt.rsp.starterTimestamp
      · rw [if_pos early] at ran ⊢
        rw [← kept]
        exact ih ran
      · rw [if_neg early] at ran ⊢
        by_cases stopped : world.stop n = true
        · rw [if_pos stopped] at ran
          obtain ⟨rfl, _⟩ := Procedure.pure_ok.mp ran
          exact .inr (.inl rfl)
        · rw [if_neg stopped] at ran
          obtain ⟨hit, tried, kernel, ran⟩ := Procedure.bind_ok.mp ran
          obtain ⟨recorded, meets⟩ := tryKernel_ok kernel
          cases hit with
          | true =>
            obtain ⟨rfl, _⟩ := Procedure.pure_ok.mp ran
            exact .inr (.inr ⟨_, List.mem_cons_self, rfl, meets rfl⟩)
          | false =>
            rcases ih ran with ⟨passed, all⟩ | interrupted | ⟨ts, member, found, meets⟩
            · refine .inl ⟨passed, ?_⟩
              rw [all, recorded, kept, List.append_assoc]
              rfl
            · exact .inr (.inl interrupted)
            · exact .inr (.inr ⟨ts, List.mem_cons_of_mem _ member, found, meets⟩)

/-- The same for the entries from a number on. -/
theorem scanEntries_ok {entries : List PosEntry}
    (ran : scanEntries E world cxt i entries scan = .ok ended after) :
    (ended = .passed ∧ after.tried = scan.tried ++ (List.range' i entries.length).flatMap fun n =>
      (triedOn world cxt Turn.all).map fun ts => (n, ts)) ∨
    ended = .interrupted ∨
    ∃ n entry, entries[n]? = some entry ∧ ∃ ts ∈ triedOn world cxt Turn.all,
      ended = .found (i + n) ts ∧ KernelMeets E cxt entry ts := by
  induction entries generalizing i scan with
  | nil =>
    obtain ⟨rfl, rfl⟩ := Procedure.pure_ok.mp ran
    exact .inl ⟨rfl, (List.append_nil _).symm⟩
  | cons entry rest ih =>
    unfold scanEntries at ran
    obtain ⟨endedHere, middle, here, ran⟩ := Procedure.bind_ok.mp ran
    rcases scanTurns_ok here with ⟨rfl, tried⟩ | rfl | ⟨ts, member, rfl, meets⟩
    · rw [if_pos rfl] at ran
      rcases ih ran with ⟨passed, all⟩ | interrupted | ⟨n, other, place, ts, member, found, meets⟩
      · refine .inl ⟨passed, ?_⟩
        rw [all, tried, List.length_cons, List.range'_succ, List.flatMap_cons, List.append_assoc]
      · exact .inr (.inl interrupted)
      · refine .inr (.inr ⟨n + 1, other, place, ts, member, ?_, meets⟩)
        rw [found, Nat.add_assoc, Nat.add_comm 1 n]
    · rw [if_neg (by decide)] at ran
      obtain ⟨rfl, _⟩ := Procedure.pure_ok.mp ran
      exact .inr (.inl rfl)
    · rw [if_neg (by simp only [reduceCtorEq, not_false_eq_true])] at ran
      obtain ⟨rfl, _⟩ := Procedure.pure_ok.mp ran
      exact .inr (.inr ⟨0, entry, rfl, ts, member, rfl, meets⟩)

end Scan

end Wallet
end Virie
