import Mathlib

/-! # Walking outward

A walk from a start to both sides of it: first the start, then at each distance the position
below and the one above. As long as the walk does not leave the numbers, it meets every position
of its grid within its reach once. -/

namespace Foundation

/-- The positions at distances `k`, `k + 1` and so on, `count` of them, to both sides of a start. -/
def outwardFrom (start step k count : Nat) : List Nat :=
  (List.range' k count).flatMap fun distance => [start - step * distance, start + step * distance]

/-- The positions of a walk outward, in its order. -/
def outward (start step count : Nat) : List Nat := start :: outwardFrom start step 1 count

section Outward

variable {start step k count position : Nat}

theorem outwardFrom_succ :
    outwardFrom start step k (count + 1) =
      (start - step * k) :: (start + step * k) :: outwardFrom start step (k + 1) count := by
  simp only [outwardFrom, List.range'_succ, List.flatMap_cons, List.cons_append, List.nil_append]

theorem mem_outwardFrom :
    position ∈ outwardFrom start step k count ↔
      ∃ distance, k ≤ distance ∧ distance < k + count ∧
        (position = start - step * distance ∨ position = start + step * distance) := by
  simp only [outwardFrom, List.mem_flatMap, List.mem_range'_1, List.mem_cons, List.not_mem_nil,
    or_false, and_assoc]

theorem mem_outward :
    position ∈ outward start step count ↔
      ∃ distance ≤ count,
        position = start - step * distance ∨ position = start + step * distance := by
  rw [outward, List.mem_cons, mem_outwardFrom]
  constructor
  · rintro (rfl | ⟨distance, _, near, side⟩)
    · exact ⟨0, Nat.zero_le _, .inr (by omega)⟩
    · exact ⟨distance, by omega, side⟩
  · rintro ⟨distance, near, side⟩
    rcases Nat.eq_zero_or_pos distance with rfl | away
    · exact .inl (by omega)
    · exact .inr ⟨distance, by omega, by omega, side⟩

/-- A walk with room below it meets the positions of its grid that lie within its reach. -/
theorem mem_outward_iff (forward : 0 < step) (room : step * count ≤ start) :
    position ∈ outward start step count ↔
      position % step = start % step ∧ start - step * count ≤ position ∧
        position ≤ start + step * count := by
  rw [mem_outward]
  constructor
  · rintro ⟨distance, near, side⟩
    have reach : step * distance ≤ step * count := Nat.mul_le_mul_left step near
    rcases side with rfl | rfl
    · refine ⟨?_, by omega, by omega⟩
      have back : start - step * distance + step * distance = start := by omega
      calc (start - step * distance) % step
          = (start - step * distance + step * distance) % step :=
            (Nat.add_mul_mod_self_left _ _ _).symm
        _ = start % step := by rw [back]
    · exact ⟨Nat.add_mul_mod_self_left _ _ _, by omega, by omega⟩
  · rintro ⟨grid, above, below⟩
    rcases Nat.le_total position start with before | after
    · obtain ⟨distance, apart⟩ := (Nat.modEq_iff_dvd' before).mp grid
      refine ⟨distance, ?_, .inl (by omega)⟩
      exact Nat.le_of_mul_le_mul_left (by omega : step * distance ≤ step * count) forward
    · obtain ⟨distance, apart⟩ := (Nat.modEq_iff_dvd' after).mp grid.symm
      refine ⟨distance, ?_, .inr (by omega)⟩
      exact Nat.le_of_mul_le_mul_left (by omega : step * distance ≤ step * count) forward

theorem nodup_outwardFrom (forward : 0 < step) (away : 0 < k)
    (room : step * (k + count) ≤ start + step) : (outwardFrom start step k count).Nodup := by
  induction count generalizing k with
  | zero => exact List.nodup_nil
  | succ count ih =>
    have rest := ih (Nat.succ_pos k) (by rw [Nat.succ_add_eq_add_succ]; exact room)
    have later : ∀ position ∈ outwardFrom start step (k + 1) count,
        position + step * k < start ∨ start + step * k < position := by
      intro position member
      obtain ⟨distance, beyond, near, side⟩ := mem_outwardFrom.mp member
      have further : step * (k + 1) ≤ step * distance := Nat.mul_le_mul_left step beyond
      have within : step * (distance + 1) ≤ step * (k + (count + 1)) :=
        Nat.mul_le_mul_left step (by omega)
      rw [Nat.mul_add, Nat.mul_one] at further within
      omega
    have positive : 0 < step * k := Nat.mul_pos forward away
    have first : step * (k + 1) ≤ step * (k + (count + 1)) := Nat.mul_le_mul_left step (by omega)
    rw [Nat.mul_add, Nat.mul_one] at first
    rw [outwardFrom_succ]
    refine List.nodup_cons.mpr ⟨fun member => ?_, List.nodup_cons.mpr ⟨fun member => ?_, rest⟩⟩
    · rcases List.mem_cons.mp member with same | member
      · omega
      · have := later _ member
        omega
    · have := later _ member
      omega

/-- A walk with room below it meets no position twice. -/
theorem nodup_outward (forward : 0 < step) (room : step * count ≤ start) :
    (outward start step count).Nodup := by
  refine List.nodup_cons.mpr ⟨fun member => ?_, nodup_outwardFrom forward Nat.one_pos ?_⟩
  · obtain ⟨distance, away, near, side⟩ := mem_outwardFrom.mp member
    have positive : 0 < step * distance := Nat.mul_pos forward away
    have within : step * distance ≤ step * count := Nat.mul_le_mul_left step (by omega)
    omega
  · rw [Nat.add_comm, Nat.mul_add, Nat.mul_one]
    omega

end Outward
end Foundation
