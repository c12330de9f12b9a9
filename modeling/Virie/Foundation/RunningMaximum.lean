import Mathlib

/-! # Running maxima with resets

A running maximum collects the values of the elements of a list. An element that resets it
makes it forget what came before. It ends at the maximum of all values exactly when no element
that resets it forgets a value that is above all values from there on. -/

namespace Foundation

variable {α β : Type} [LinearOrder β] [OrderBot β]

/-- The highest value of a list, the least of all values when the list is empty. -/
def highest (values : List β) : β := values.foldr max ⊥

theorem highest_cons (value : β) (values : List β) :
    highest (value :: values) = max value (highest values) := rfl

theorem highest_append (first second : List β) :
    highest (first ++ second) = max (highest first) (highest second) := by
  induction first with
  | nil => exact (bot_sup_eq (highest second)).symm
  | cons value first ih => rw [List.cons_append, highest_cons, ih, highest_cons, max_assoc]

theorem le_highest {value : β} {values : List β} (member : value ∈ values) :
    value ≤ highest values := by
  induction member with
  | head values => exact le_max_left _ _
  | tail other _ ih => exact ih.trans (le_max_right _ _)

/-- Go through a list, collecting the highest value of the elements and forgetting it at an
element that resets it. -/
def runningMax (resets : α → Bool) (values : α → List β) (start : β) (items : List α) : β :=
  items.foldl (fun reached item =>
    if resets item then highest (values item) else max reached (highest (values item))) start

section RunningMax

variable (resets : α → Bool) (values : α → List β)

theorem runningMax_reset {item : α} (reset : resets item = true) (start : β) (items : List α) :
    runningMax resets values start (item :: items) =
      runningMax resets values (highest (values item)) items := by
  rw [runningMax, List.foldl_cons, if_pos reset]
  rfl

theorem runningMax_raise {item : α} (raises : ¬ resets item = true) (start : β) (items : List α) :
    runningMax resets values start (item :: items) =
      runningMax resets values (max start (highest (values item))) items := by
  rw [runningMax, List.foldl_cons, if_neg raises]
  rfl

/-- A running maximum is not above the values it has seen. -/
theorem runningMax_le (start : β) (items : List α) :
    runningMax resets values start items ≤ max start (highest (items.flatMap values)) := by
  induction items generalizing start with
  | nil => exact le_max_left _ _
  | cons item items ih =>
    rw [List.flatMap_cons, highest_append, ← max_assoc]
    by_cases reset : resets item = true
    · rw [runningMax_reset resets values reset]
      exact (ih _).trans (max_le_max_right _ (le_max_right _ _))
    · rw [runningMax_raise resets values reset]
      exact ih _

/-- A running maximum ends at the highest value exactly when no reset forgets a value above all
values from the reset on. -/
theorem runningMax_eq_iff (start : β) (items : List α) :
    runningMax resets values start items = max start (highest (items.flatMap values)) ↔
      ∀ earlier item later, items = earlier ++ item :: later → resets item = true →
        max start (highest (earlier.flatMap values)) ≤
          highest ((item :: later).flatMap values) := by
  induction items generalizing start with
  | nil =>
    refine iff_of_true (max_eq_left bot_le).symm ?_
    rintro (_ | ⟨first, earlier⟩) item later split
    · cases split
    · cases split
  | cons first items ih =>
    have whole : max start (highest ((first :: items).flatMap values)) =
        max (max start (highest (values first))) (highest (items.flatMap values)) := by
      rw [List.flatMap_cons, highest_append, max_assoc]
    rw [whole]
    by_cases reset : resets first = true
    · rw [runningMax_reset resets values reset]
      have below := runningMax_le resets values (highest (values first)) items
      constructor
      · intro same earlier item later split stops
        have kept : runningMax resets values (highest (values first)) items =
            max (highest (values first)) (highest (items.flatMap values)) := by
          refine le_antisymm below ?_
          rw [same, max_assoc]
          exact le_max_right _ _
        have covered : start ≤ max (highest (values first)) (highest (items.flatMap values)) := by
          rw [← kept, same, max_assoc]
          exact le_max_left _ _
        rcases earlier with _ | ⟨other, earlier⟩
        · cases split
          rw [List.flatMap_cons, highest_append]
          exact max_le covered bot_le
        · rw [List.cons_append, List.cons.injEq] at split
          obtain ⟨rfl, rfl⟩ := split
          have rest := (ih _).mp kept earlier item later rfl stops
          rw [List.flatMap_append, highest_append] at covered
          rw [List.flatMap_cons, highest_append]
          refine max_le (covered.trans ?_) rest
          rw [← max_assoc]
          exact max_le rest le_rfl
      · intro condition
        have first_covered := condition [] first items rfl reset
        have kept := (ih (highest (values first))).mpr fun earlier item later split stops => by
          have rest := condition (first :: earlier) item later (by rw [split]; rfl) stops
          rw [List.flatMap_cons, highest_append] at rest
          exact (le_max_right _ _).trans rest
        rw [kept, max_assoc]
        refine le_antisymm (le_max_right _ _) (max_le ?_ le_rfl)
        rw [List.flatMap_cons, highest_append] at first_covered
        exact (le_max_left _ _).trans first_covered
    · rw [runningMax_raise resets values reset, ih]
      constructor
      · intro condition earlier item later split stops
        rcases earlier with _ | ⟨other, earlier⟩
        · cases split
          exact absurd stops reset
        · rw [List.cons_append, List.cons.injEq] at split
          obtain ⟨rfl, rfl⟩ := split
          have rest := condition earlier item later rfl stops
          rwa [List.flatMap_cons, highest_append, ← max_assoc]
      · intro condition earlier item later split stops
        have rest := condition (first :: earlier) item later (by rw [split]; rfl) stops
        rwa [List.flatMap_cons, highest_append, ← max_assoc] at rest

end RunningMax
end Foundation
