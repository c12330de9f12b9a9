import Mathlib.Data.List.Basic

/-! # Nested begins

Begins and ends are nested. Some begins open a frame of their own, others are only counted on the
frame on top. A stack of frames with their counts stands for the list of the begins that are still
open, the newest first, each with the frame it opened. -/

namespace Foundation

/-- A frame with the number of begins that are counted on it. -/
structure Frame (κ : Type) where
  key : κ
  nested : Nat

/-- The frames that open begins lead to. -/
inductive Nests {κ : Type} : List (Frame κ) → List (Option κ) → Prop
  | empty : Nests [] []
  | opened {frames : List (Frame κ)} {begins : List (Option κ)} (key : κ)
      (below : Nests frames begins) : Nests (⟨key, 0⟩ :: frames) (some key :: begins)
  | counted {key : κ} {nested : Nat} {frames : List (Frame κ)} {begins : List (Option κ)}
      (below : Nests (⟨key, nested⟩ :: frames) begins) :
      Nests (⟨key, nested + 1⟩ :: frames) (none :: begins)

namespace Nests

variable {κ : Type} {frames : List (Frame κ)} {begins : List (Option κ)} {key : κ}
  {nested : Nat}

/-- Nothing is open exactly when there is no frame. -/
theorem nil_iff (nests : Nests frames begins) : frames = [] ↔ begins = [] := by
  cases nests with
  | empty => simp
  | opened key below => simp
  | counted below => simp

/-- The last begin on a frame that counts nothing is the one that opened it. -/
theorem last (nests : Nests (⟨key, 0⟩ :: frames) begins) :
    begins.head? = some (some key) ∧ Nests frames begins.tail := by
  cases nests with
  | opened key below => exact ⟨rfl, below⟩

/-- The last begin on a frame that counts begins is one of them. -/
theorem uncount (nests : Nests (⟨key, nested + 1⟩ :: frames) begins) :
    begins.head? = some none ∧ Nests (⟨key, nested⟩ :: frames) begins.tail := by
  cases nests with
  | counted below => exact ⟨rfl, below⟩

end Nests
end Foundation
