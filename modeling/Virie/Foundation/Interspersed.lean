import Mathlib.Data.List.Basic

/-! # Lists with added items

One list may come out of another one by adding items of certain kinds anywhere between its own,
which stay in order. Whatever looks only at items of other kinds does not see the difference. -/

namespace Foundation

variable {α β : Type} {added : α → Prop} {xs ys zs : List α}

/-- The second list has the items of the first one in order, and otherwise added items. -/
inductive Interspersed (added : α → Prop) : List α → List α → Prop
  | nil : Interspersed added [] []
  | item {a : α} {xs ys : List α} (rest : Interspersed added xs ys) :
      Interspersed added (a :: xs) (a :: ys)
  | extra {b : α} {xs ys : List α} (own : added b) (rest : Interspersed added xs ys) :
      Interspersed added xs (b :: ys)

namespace Interspersed

theorem refl (xs : List α) : Interspersed added xs xs := by
  induction xs with
  | nil => exact .nil
  | cons a xs ih => exact .item ih

theorem of_added (own : ∀ b ∈ ys, added b) : Interspersed added [] ys := by
  induction ys with
  | nil => exact .nil
  | cons b ys ih => exact .extra (own b (.head _)) (ih fun c member => own c (.tail _ member))

theorem append {us vs : List α} (front : Interspersed added xs ys)
    (back : Interspersed added us vs) : Interspersed added (xs ++ us) (ys ++ vs) := by
  induction front with
  | nil => exact back
  | item _ ih => exact .item ih
  | extra own _ ih => exact .extra own ih

/-- Added items at the end. -/
theorem append_added (front : Interspersed added xs ys) (own : ∀ b ∈ zs, added b) :
    Interspersed added xs (ys ++ zs) := by
  have whole := front.append (of_added own)
  rwa [List.append_nil] at whole

theorem trans (first : Interspersed added xs ys) (second : Interspersed added ys zs) :
    Interspersed added xs zs := by
  induction second generalizing xs with
  | nil => exact first
  | item _ ih =>
    cases first with
    | item rest => exact .item (ih rest)
    | extra own rest => exact .extra own (ih rest)
  | extra own _ ih => exact .extra own (ih first)

theorem map {other : β → Prop} (f : α → β) (kept : ∀ a, added a → other (f a))
    (shuffled : Interspersed added xs ys) : Interspersed other (xs.map f) (ys.map f) := by
  induction shuffled with
  | nil => exact .nil
  | item _ ih => exact .item ih
  | extra own _ ih => exact .extra (kept _ own) ih

theorem mem {b : α} (shuffled : Interspersed added xs ys) (member : b ∈ ys) :
    b ∈ xs ∨ added b := by
  induction shuffled with
  | nil => cases member
  | item _ ih =>
    rcases List.mem_cons.mp member with rfl | later
    · exact .inl (.head _)
    · exact (ih later).imp_left (List.mem_cons_of_mem _)
  | extra own _ ih =>
    rcases List.mem_cons.mp member with rfl | later
    · exact .inr own
    · exact ih later

theorem subset (shuffled : Interspersed added xs ys) : xs ⊆ ys := by
  induction shuffled with
  | nil => exact List.Subset.refl []
  | item _ ih => exact List.cons_subset_cons _ ih
  | extra own _ ih => exact List.subset_cons_of_subset _ ih

/-- Without the kinds that may be added nothing was added. -/
theorem filter_eq {keep : α → Bool} (dropped : ∀ a, added a → keep a = false)
    (shuffled : Interspersed added xs ys) : ys.filter keep = xs.filter keep := by
  induction shuffled with
  | nil => rfl
  | @item a xs ys _ ih => rw [List.filter_cons, List.filter_cons, ih]
  | @extra b xs ys own _ ih => rw [List.filter_cons, dropped b own, ih, if_neg Bool.false_ne_true]

/-- What is found among the items of other kinds is the same. -/
theorem findSome?_eq {value : α → Option β} (none : ∀ a, added a → value a = none)
    (shuffled : Interspersed added xs ys) : ys.findSome? value = xs.findSome? value := by
  induction shuffled with
  | nil => rfl
  | item _ ih => rw [List.findSome?_cons, List.findSome?_cons, ih]
  | @extra b xs ys own _ ih => rw [List.findSome?_cons, none b own, ih]

theorem any_eq {p : α → Bool} (none : ∀ a, added a → p a = false)
    (shuffled : Interspersed added xs ys) : ys.any p = xs.any p := by
  induction shuffled with
  | nil => rfl
  | item _ ih => rw [List.any_cons, List.any_cons, ih]
  | @extra b xs ys own _ ih => rw [List.any_cons, none b own, ih, Bool.false_or]

theorem mono {other : α → Prop} (kept : ∀ a, added a → other a)
    (shuffled : Interspersed added xs ys) : Interspersed other xs ys := by
  induction shuffled with
  | nil => exact .nil
  | item _ ih => exact .item ih
  | extra own _ ih => exact .extra (kept _ own) ih

end Interspersed

end Foundation
