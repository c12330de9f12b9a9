import Mathlib

/-! # Sorting that may exchange equal elements

A sort by a strict comparison guarantees an ordered permutation and nothing about elements that
neither come before the other. It leaves an ordered list as it is when such elements are equal,
and a comparison under which different elements can be equivalent has sorts that exchange
them. The first part of a list sorted by a measure, up to a bound that only sees the measure,
does not depend on their order. -/

namespace Foundation

variable {α : Type}

/-- What a sort by a strict comparison guarantees: an ordered permutation of every list. -/
structure SortsBy (less : α → α → Bool) (sort : List α → List α) : Prop where
  perm : ∀ list, (sort list).Perm list
  ordered : ∀ list, (sort list).Pairwise fun a b => less b a = false

variable {less : α → α → Bool} {sort : List α → List α}

/-- An ordered list in which equivalent elements are equal stays as it is. -/
theorem SortsBy.fixes (sorts : SortsBy less sort) {list : List α}
    (ordered : list.Pairwise fun a b => less b a = false)
    (equal : ∀ a ∈ list, ∀ b ∈ list, less a b = false → less b a = false → a = b) :
    sort list = list := by
  refine List.Perm.eq_of_pairwise ?_ (sorts.ordered list) ordered (sorts.perm list)
  intro a b inside insideToo after before
  exact equal a ((sorts.perm list).mem_iff.mp inside) b insideToo before after

/-- A sorted list is taken from as long as a test of the measure passes: the elements up to
whose measure all pass. -/
theorem mem_takeWhile_of_sorted {measure : α → Nat} {test : Nat → Bool} {list : List α} {a : α}
    (sorted : list.Pairwise fun a b => measure a ≤ measure b) :
    a ∈ list.takeWhile (fun a => test (measure a)) ↔
      a ∈ list ∧ ∀ b ∈ list, measure b ≤ measure a → test (measure b) = true := by
  induction list with
  | nil => simp
  | cons first rest ih =>
    obtain ⟨least, sorted⟩ := List.pairwise_cons.mp sorted
    rw [List.takeWhile_cons]
    cases passes : test (measure first) with
    | false =>
      rw [if_neg (by simp), List.mem_cons]
      constructor
      · intro listed
        cases listed
      · rintro ⟨rfl | later, all⟩
        · exact absurd (all a (.head _) le_rfl) (by simp [passes])
        · exact absurd (all first (.head _) (least a later)) (by simp [passes])
    | true =>
      rw [if_pos rfl, List.mem_cons, ih sorted, List.mem_cons]
      constructor
      · rintro (rfl | ⟨later, all⟩)
        · refine ⟨.inl rfl, fun b listed below => ?_⟩
          rcases List.mem_cons.mp listed with rfl | behind
          · exact passes
          · rw [Nat.le_antisymm below (least b behind)]
            exact passes
        · refine ⟨.inr later, fun b listed below => ?_⟩
          rcases List.mem_cons.mp listed with rfl | behind
          · exact passes
          · exact all b behind below
      · rintro ⟨rfl | later, all⟩
        · exact .inl rfl
        · exact .inr ⟨later, fun b behind => all b (.tail _ behind)⟩

end Foundation
