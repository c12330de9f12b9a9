import Mathlib

/-! # Scans that may end early

A scan visits a list with an accumulator until a visit asks it to stop. Scanning a
concatenation is scanning its parts in turn, and a scan depends on its visitor only
at the elements of the list. -/

namespace Foundation

variable {σ α : Type}

/-- Visit the elements in order until a visit answers `false`. -/
def foldUntil (visit : σ → α → σ × Bool) : σ → List α → σ × Bool
  | state, [] => (state, true)
  | state, head :: tail =>
    match visit state head with
    | (next, true) => foldUntil visit next tail
    | (next, false) => (next, false)

theorem foldUntil_append (visit : σ → α → σ × Bool) (state : σ) (first second : List α) :
    foldUntil visit state (first ++ second) =
      match foldUntil visit state first with
      | (next, true) => foldUntil visit next second
      | (next, false) => (next, false) := by
  induction first generalizing state with
  | nil => rfl
  | cons head tail ih =>
    simp only [List.cons_append, foldUntil]
    rcases visit state head with ⟨next, go⟩
    cases go with
    | true => exact ih next
    | false => rfl

end Foundation
