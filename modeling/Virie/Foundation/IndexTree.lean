import Mathlib

/-! # Index trees

A tree that holds the elements of a list for access by their index in a number of steps
logarithmic in the length: the first element stands at the root, and the others take turns
between the two subtrees. Access through the tree is access to the list. -/

namespace Foundation

variable {α : Type}

inductive IndexTree (α : Type) where
  | leaf
  | node (odd : IndexTree α) (first : α) (even : IndexTree α)

/-- Every second element, from the first one on. -/
def alternate : List α → List α
  | [] => []
  | [a] => [a]
  | a :: _ :: rest => a :: alternate rest

theorem alternate_getElem? (elements : List α) (i : Nat) :
    (alternate elements)[i]? = elements[2 * i]? := by
  induction elements using alternate.induct generalizing i with
  | case1 => rfl
  | case2 a =>
    cases i with
    | zero => rfl
    | succ i => rfl
  | case3 a b rest ih =>
    cases i with
    | zero => rfl
    | succ i =>
      rw [alternate, List.getElem?_cons_succ, ih]
      rfl

theorem length_alternate (elements : List α) :
    2 * (alternate elements).length ≤ elements.length + 1 := by
  induction elements using alternate.induct with
  | case1 => exact Nat.zero_le _
  | case2 a => exact Nat.le_refl 2
  | case3 a b rest ih =>
    rw [alternate, List.length_cons, List.length_cons, List.length_cons]
    omega

namespace IndexTree

/-- The tree of a list, of at most a given depth. -/
def ofList : Nat → List α → IndexTree α
  | 0, _ => leaf
  | _ + 1, [] => leaf
  | depth + 1, a :: rest => node (ofList depth (alternate rest)) a
      (ofList depth (alternate rest.tail))

def get? : IndexTree α → Nat → Option α
  | leaf, _ => none
  | node odd first even, i =>
    if i = 0 then some first
    else if i % 2 = 1 then odd.get? (i / 2)
    else even.get? (i / 2 - 1)

/-- A tree of sufficient depth gives the elements of the list. -/
theorem get?_ofList (depth : Nat) (elements : List α) (fits : elements.length < 2 ^ depth)
    (i : Nat) : (ofList depth elements).get? i = elements[i]? := by
  induction depth generalizing elements i with
  | zero =>
    rw [Nat.pow_zero, Nat.lt_one_iff, List.length_eq_zero_iff] at fits
    rw [fits]
    rfl
  | succ depth ih =>
    cases elements with
    | nil => rfl
    | cons a rest =>
      rw [List.length_cons, Nat.pow_succ] at fits
      have shortOdd := length_alternate rest
      have shortEven := length_alternate rest.tail
      rw [List.length_tail] at shortEven
      rw [ofList, get?]
      by_cases zero : i = 0
      · rw [if_pos zero, zero]
        rfl
      rw [if_neg zero]
      by_cases odd : i % 2 = 1
      · rw [if_pos odd, ih _ (by omega), alternate_getElem?]
        have index : i = 2 * (i / 2) + 1 := by
          omega
        conv_rhs => rw [index]
        rw [List.getElem?_cons_succ]
      · rw [if_neg odd, ih _ (by omega), alternate_getElem?, List.getElem?_tail]
        have index : i = 2 * (i / 2 - 1) + 1 + 1 := by
          omega
        conv_rhs => rw [index]
        rw [List.getElem?_cons_succ]

end IndexTree
end Foundation
