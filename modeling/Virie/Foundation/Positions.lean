import Mathlib

/-! # Positions in a list

A selection of the elements of a list is known by the positions it was made from, which rise.
The lemmas here say how such lists of positions change when one place is written again. -/

namespace Foundation

variable {α β : Type}

/-- Rising numbers grow by their distance at least. -/
theorem rising_gap {positions : List Nat} (rising : positions.Pairwise (· < ·)) {i p : Nat}
    (found : positions[i]? = some p) (gap : Nat) {q : Nat}
    (later : positions[i + gap]? = some q) : p + gap ≤ q := by
  induction gap generalizing q with
  | zero =>
    rw [Nat.add_zero, found] at later
    exact Nat.le_of_eq (Option.some.inj later)
  | succ gap ih =>
    obtain ⟨inside, rfl⟩ := List.getElem?_eq_some_iff.mp later
    have within : i + gap < positions.length := Nat.lt_of_succ_lt inside
    have before : p + gap ≤ positions[i + gap] := ih (List.getElem?_eq_getElem within)
    have step : positions[i + gap] < positions[i + (gap + 1)] :=
      List.pairwise_iff_getElem.mp rising _ _ within inside (Nat.lt_succ_self _)
    exact Nat.lt_of_le_of_lt before step

/-- Writing its own number to a place keeps numbers rising exactly when all places before it
hold their own numbers. -/
theorem rising_set_iff {positions : List Nat} (rising : positions.Pairwise (· < ·)) {p : Nat}
    (inside : p < positions.length) :
    (positions.set p p).Pairwise (· < ·) ↔ ∀ i < p, positions[i]? = some i := by
  have atLeast : ∀ i (below : i < positions.length), i ≤ positions[i] := by
    intro i below
    have start : 0 < positions.length := by omega
    have reached := rising_gap rising (List.getElem?_eq_getElem start) i
      (q := positions[i]) (by rw [Nat.zero_add]; exact List.getElem?_eq_getElem below)
    omega
  constructor
  · intro kept i less
    have here : (positions.set p p)[i]? = some positions[i] := by
      rw [List.getElem?_set_ne (Nat.ne_of_gt less), List.getElem?_eq_getElem]
    have there : (positions.set p p)[i + (p - i)]? = some p := by
      rw [Nat.add_sub_cancel' (Nat.le_of_lt less), List.getElem?_set_self inside]
    have gap := rising_gap kept here (p - i) there
    have above := atLeast i (by omega)
    rw [List.getElem?_eq_getElem (by omega)]
    congr 1
    omega
  · intro own
    rw [List.pairwise_iff_getElem] at rising ⊢
    intro i j below belowToo less
    rw [List.length_set] at below belowToo
    have old := rising i j below belowToo less
    rw [List.getElem_set, List.getElem_set]
    split
    · rename_i same
      subst same
      rw [if_neg (Nat.ne_of_lt less)]
      exact Nat.lt_of_le_of_lt (atLeast _ below) old
    · split
      · rename_i _ same
        subst same
        have here := own i less
        rw [List.getElem?_eq_getElem below] at here
        rw [Option.some.inj here]
        exact less
      · exact old

section Keys

variable [DecidableEq α]

/-- The positions of different keys, in the order of the keys. -/
theorem pairwise_idxOf {keys : List α} (distinct : keys.Nodup) :
    keys.Pairwise fun lower upper => keys.idxOf lower < keys.idxOf upper := by
  rw [List.pairwise_iff_getElem]
  intro i j inside insideToo less
  rw [distinct.idxOf_getElem, distinct.idxOf_getElem]
  exact less

/-- The first position of an element is not behind any other one. -/
theorem idxOf_getElem_le {keys : List α} {i : Nat} (inside : i < keys.length) :
    keys.idxOf keys[i] ≤ i := by
  by_contra later
  have different := List.not_of_lt_findIdx (Nat.lt_of_not_le later)
  simp at different

end Keys

/-! ## Related lists -/

theorem forall₂_getElem? {R : α → β → Prop} {as : List α} {bs : List β}
    (related : List.Forall₂ R as bs) {i : Nat} {a : α} {b : β} (left : as[i]? = some a)
    (right : bs[i]? = some b) : R a b := by
  induction related generalizing i with
  | nil => cases left
  | cons first _ ih =>
    cases i with
    | zero =>
      cases left
      cases right
      exact first
    | succ i => exact ih left right

theorem forall₂_set {R : α → β → Prop} {as : List α} {bs : List β}
    (related : List.Forall₂ R as bs) {a : α} {b : β} (new : R a b) (i : Nat) :
    List.Forall₂ R (as.set i a) (bs.set i b) := by
  induction related generalizing i with
  | nil => exact .nil
  | cons first rest ih =>
    cases i with
    | zero => exact .cons new rest
    | succ i => exact .cons first (ih i)

/-- An element of the second list is related to one of the first. -/
theorem forall₂_exists_left {R : α → β → Prop} {as : List α} {bs : List β}
    (related : List.Forall₂ R as bs) {b : β} (member : b ∈ bs) : ∃ a ∈ as, R a b := by
  induction related with
  | nil => cases member
  | cons first _ ih =>
    rcases List.mem_cons.mp member with rfl | later
    · exact ⟨_, List.mem_cons_self, first⟩
    · obtain ⟨a, inside, related⟩ := ih later
      exact ⟨a, List.mem_cons_of_mem _ inside, related⟩

/-- A list mapped without failure is related to its image. -/
theorem forall₂_of_mapM {f : α → Option β} {as : List α} {bs : List β}
    (mapped : as.mapM f = some bs) : List.Forall₂ (fun a b => f a = some b) as bs := by
  induction as generalizing bs with
  | nil =>
    obtain rfl := Option.some.inj mapped
    exact .nil
  | cons a as ih =>
    simp only [List.mapM_cons, Option.bind_eq_bind, Option.bind_eq_some_iff, Option.pure_def,
      Option.some.injEq] at mapped
    obtain ⟨b, first, rest, others, rfl⟩ := mapped
    exact .cons first (ih others)

end Foundation
