import Mathlib

/-! # Windows that keep their last item

Items arrive at rising positions. A window over them is cut at a position that rises too, but is
left alone while nothing in it is new enough. Then it holds the last item, however old that is. -/

namespace Foundation

section Windows

variable {α : Type} (position : α → Nat)

/-- The positions rise. -/
def Rising (items : List α) : Prop := items.Pairwise fun a b => position a < position b

/-- Drop the items before a position, unless that would leave none. -/
def cutBefore (start : Nat) (items : List α) : List α :=
  if items.any fun item => decide (start ≤ position item) then
    items.dropWhile fun item => !decide (start ≤ position item)
  else items

/-- The items from a position on, or the last one where there are none. -/
def newest (start : Nat) (items : List α) : List α :=
  if items.any fun item => decide (start ≤ position item) then
    items.filter fun item => decide (start ≤ position item)
  else items.getLast?.toList

variable {position} {items : List α} {start : Nat} {x : α}

theorem dropWhile_rising (rising : Rising position items) :
    (items.dropWhile fun item => !decide (start ≤ position item)) =
      items.filter fun item => decide (start ≤ position item) := by
  induction items with
  | nil => rfl
  | cons a rest ih =>
    obtain ⟨above, others⟩ := List.pairwise_cons.mp rising
    by_cases new : start ≤ position a
    · have all : (a :: rest).filter (fun item => decide (start ≤ position item)) = a :: rest := by
        refine List.filter_eq_self.mpr fun b member => decide_eq_true ?_
        rcases List.mem_cons.mp member with rfl | later
        · exact new
        · exact le_of_lt (lt_of_le_of_lt new (above b later))
      rw [all, List.dropWhile_cons_of_neg (by simpa using new)]
    · rw [List.dropWhile_cons_of_pos (by simpa using new), ih others,
        List.filter_cons_of_neg (by simpa using new)]

theorem newest_zero : newest position 0 items = items := by
  rw [newest]
  cases items with
  | nil => rfl
  | cons a rest => simp

theorem newest_sublist : (newest position start items).Sublist items := by
  rw [newest]
  split
  · exact List.filter_sublist
  · cases last : items.getLast? with
    | none => exact List.nil_sublist _
    | some a => exact List.singleton_sublist.mpr (List.mem_of_getLast? last)

/-- Only the last item can be the one that is just too old. -/
theorem filter_eq_last (rising : Rising position items)
    (some_ : ∃ a ∈ items, start ≤ position a) (none_ : ∀ a ∈ items, ¬ start + 1 ≤ position a) :
    (items.filter fun item => decide (start ≤ position item)) = items.getLast?.toList := by
  rcases List.eq_nil_or_concat items with rfl | ⟨front, last, rfl⟩
  · rfl
  · rw [List.concat_eq_append] at *
    have below := (List.pairwise_append.mp rising).2.2
    have top := none_ last (List.mem_append_right _ (.head _))
    have older : ∀ a ∈ front, ¬ start ≤ position a := by
      intro a member
      have less := below a member last (.head _)
      omega
    have here : start ≤ position last := by
      obtain ⟨a, member, new⟩ := some_
      rcases List.mem_append.mp member with front_ | single
      · exact absurd new (older a front_)
      · rwa [List.mem_singleton.mp single] at new
    have empty : (front.filter fun item => decide (start ≤ position item)) = [] :=
      List.filter_eq_nil_iff.mpr fun a member => by simpa using older a member
    rw [List.filter_append, empty, List.getLast?_concat]
    simp [here]

/-- What is new enough for the next start, of the newest items. -/
theorem filter_newest : ((newest position start items).filter fun item =>
    decide (start + 1 ≤ position item)) =
      items.filter fun item => decide (start + 1 ≤ position item) := by
  rw [newest]
  split
  · rw [List.filter_filter]
    refine List.filter_congr fun a _ => ?_
    by_cases new : start + 1 ≤ position a
    · simp [new, show start ≤ position a by omega]
    · simp [new]
  · next old =>
    have none_ : ∀ a ∈ items, ¬ start + 1 ≤ position a := by
      intro a member new
      refine old (List.any_eq_true.mpr ⟨a, member, decide_eq_true ?_⟩)
      omega
    have empty : (items.filter fun item => decide (start + 1 ≤ position item)) = [] :=
      List.filter_eq_nil_iff.mpr fun a member => by simpa using none_ a member
    rw [empty]
    refine List.filter_eq_nil_iff.mpr fun a member => ?_
    rw [Option.mem_toList] at member
    simpa using none_ a (List.mem_of_getLast? member)

/-- A cut at the next position leaves the newest items. -/
theorem cut_newest (rising : Rising position items) :
    cutBefore position (start + 1) (newest position start items) =
      newest position (start + 1) items := by
  have part := @newest_sublist α position items start
  by_cases new : ∃ a ∈ items, start + 1 ≤ position a
  · obtain ⟨a, member, here⟩ := new
    have inside : a ∈ newest position start items := by
      have filtered : a ∈ items.filter fun item => decide (start + 1 ≤ position item) :=
        List.mem_filter.mpr ⟨member, decide_eq_true here⟩
      rw [← filter_newest] at filtered
      exact (List.mem_filter.mp filtered).1
    rw [cutBefore, if_pos (List.any_eq_true.mpr ⟨a, inside, decide_eq_true here⟩),
      dropWhile_rising (rising.sublist part), filter_newest, newest,
      if_pos (List.any_eq_true.mpr ⟨a, member, decide_eq_true here⟩)]
  · have none_ : ∀ a ∈ items, ¬ start + 1 ≤ position a := fun a member here =>
      new ⟨a, member, here⟩
    have whole : ∀ others : List α, others.Sublist items →
        (others.any fun item => decide (start + 1 ≤ position item)) = false := by
      intro others sublist
      rw [List.any_eq_false]
      exact fun a member => by simpa using none_ a (sublist.subset member)
    rw [cutBefore, whole _ part, if_neg Bool.false_ne_true, newest, newest,
      whole _ (List.Sublist.refl items), if_neg Bool.false_ne_true]
    split
    · next some_ =>
      obtain ⟨a, member, here⟩ := List.any_eq_true.mp some_
      exact filter_eq_last rising ⟨a, member, of_decide_eq_true here⟩ none_
    · rfl

/-- A cut after an item has arrived that is new enough. -/
theorem cut_newest_append (rising : Rising position (items ++ [x]))
    (here : start + 1 ≤ position x) :
    cutBefore position (start + 1) (newest position start items ++ [x]) =
      newest position (start + 1) (items ++ [x]) := by
  have part : (newest position start items ++ [x]).Sublist (items ++ [x]) :=
    newest_sublist.append_right [x]
  have any_ : ∀ front : List α,
      ((front ++ [x]).any fun item => decide (start + 1 ≤ position item)) = true := fun front =>
    List.any_eq_true.mpr ⟨x, List.mem_append_right _ (.head _), decide_eq_true here⟩
  rw [cutBefore, if_pos (any_ _), dropWhile_rising (rising.sublist part), List.filter_append,
    filter_newest, newest, if_pos (any_ _), List.filter_append]

end Windows
end Foundation
