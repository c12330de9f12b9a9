import Mathlib

/-! # Places in a sorted list

A strict weak order compares by something that it may not see: two elements are alike when neither
comes before the other. In a sorted list the elements before a given one stand first, so that
counting them tells whether the element at a place is alike. Two sorted arrangements of the same
elements have like elements at every place. -/

namespace Foundation

variable {α : Type}

/-- A strict comparison in which being alike is transitive. -/
structure WeakOrder (less : α → α → Bool) : Prop where
  asymm : ∀ {a b}, less a b = true → less b a = false
  split : ∀ {a c}, less a c = true → ∀ b, less a b = true ∨ less b c = true

/-- Neither comes before the other. -/
def Alike (less : α → α → Bool) (a b : α) : Prop := less a b = false ∧ less b a = false

/-- No element comes before an earlier one. -/
def Arranged (less : α → α → Bool) (list : List α) : Prop :=
  list.Pairwise fun a b => less b a = false

/-- The comparison by a key. -/
theorem WeakOrder.ofKey {K : Type} [LinearOrder K] (key : α → K) :
    WeakOrder fun a b => decide (key a < key b) where
  asymm {a b} before := by
    rw [decide_eq_true_eq] at before
    exact decide_eq_false (not_lt_of_gt before)
  split {a c} before b := by
    simp only [decide_eq_true_eq] at before ⊢
    rcases lt_or_ge (key a) (key b) with first | behind
    · exact .inl first
    · exact .inr (behind.trans_lt before)

section Order

variable {less : α → α → Bool}

/-- The comparison in the other direction. -/
theorem WeakOrder.flip (order : WeakOrder less) : WeakOrder fun a b => less b a where
  asymm before := order.asymm before
  split before b := (order.split before b).symm

theorem Arranged.reverse {list : List α} (arranged : Arranged less list) :
    Arranged (fun a b => less b a) list.reverse :=
  List.pairwise_reverse.mpr arranged

theorem Arranged.filter {list : List α} (arranged : Arranged less list) (keeps : α → Bool) :
    Arranged less (list.filter keeps) :=
  List.Pairwise.filter keeps arranged

/-- A merge sort arranges. -/
theorem WeakOrder.arranged_mergeSort (order : WeakOrder less) (list : List α) :
    Arranged less (list.mergeSort fun a b => !less b a) := by
  have sorted := @List.pairwise_mergeSort α (fun a b => !less b a)
    (fun a b c first second => by
      rw [Bool.not_eq_true'] at first second ⊢
      rw [Bool.eq_false_iff]
      intro before
      rcases order.split before b with left | right
      · rw [second] at left
        cases left
      · rw [first] at right
        cases right)
    (fun a b => by
      cases before : less b a with
      | false => rfl
      | true => rw [order.asymm before]; rfl) list
  exact sorted.imp fun after => (Bool.not_eq_true' _).mp after

/-- A property that passes to the first element and fails there fails everywhere. -/
theorem countP_of_first_fails {holds : α → Bool} {first : α} {rest : List α}
    (before : ∀ b ∈ rest, holds b = true → holds first = true) (fails : holds first = false) :
    rest.countP holds = 0 := by
  rw [List.countP_eq_zero]
  intro b member later
  rw [before b member later] at fails
  cases fails

/-- Where a property of an element passes to the earlier ones, it holds at the places below its
count. -/
theorem holds_iff_lt_countP {holds : α → Bool} {list : List α}
    (passes : list.Pairwise fun a b => holds b = true → holds a = true) {place : Nat} {a : α}
    (there : list[place]? = some a) : holds a = true ↔ place < list.countP holds := by
  induction list generalizing place with
  | nil => cases there
  | cons first rest ih =>
    obtain ⟨before, passesRest⟩ := List.pairwise_cons.mp passes
    rw [List.countP_cons]
    cases place with
    | zero =>
      obtain rfl := Option.some.inj there
      cases here : holds first with
      | true =>
        rw [if_pos rfl]
        exact iff_of_true rfl (Nat.succ_pos _)
      | false =>
        rw [countP_of_first_fails before here, if_neg Bool.false_ne_true]
        exact iff_of_false Bool.false_ne_true (Nat.lt_irrefl 0)
    | succ place =>
      have inRest : rest[place]? = some a := there
      rw [ih passesRest inRest]
      cases here : holds first with
      | true => rw [if_pos rfl, Nat.succ_lt_succ_iff]
      | false =>
        rw [countP_of_first_fails before here, if_neg Bool.false_ne_true]
        exact iff_of_false (Nat.not_lt_zero _) (Nat.not_lt_zero _)

/-- An element belongs at a place among others: at most as many come before it, and more come not
after it. -/
def InPlace (less : α → α → Bool) (others : List α) (place : Nat) (a : α) : Prop :=
  others.countP (fun b => less b a) ≤ place ∧ place < others.countP fun b => !less a b

/-- The places of an element are those of the elements it is alike to. -/
theorem WeakOrder.alike_iff_inPlace (order : WeakOrder less) {list : List α}
    (arranged : Arranged less list) {place : Nat} {b : α} (there : list[place]? = some b) (a : α) :
    Alike less a b ↔ InPlace less list place a := by
  have smaller : less b a = true ↔ place < list.countP fun c => less c a := by
    refine @holds_iff_lt_countP α (fun c => less c a) list (arranged.imp ?_) place b there
    intro first second ordered before
    rcases order.split before first with bad | good
    · rw [ordered] at bad
      cases bad
    · exact good
  have notLarger : (!less a b) = true ↔ place < list.countP fun c => !less a c := by
    refine @holds_iff_lt_countP α (fun c => !less a c) list (arranged.imp ?_) place b there
    intro first second ordered after
    rw [Bool.not_eq_true'] at after ⊢
    rw [Bool.eq_false_iff]
    intro before
    rcases order.split before second with bad | worse
    · rw [after] at bad
      cases bad
    · rw [ordered] at worse
      cases worse
  unfold Alike InPlace
  rw [← notLarger, Bool.not_eq_true', and_comm (a := less a b = false), ← Nat.not_lt, ← smaller,
    Bool.not_eq_true]

/-- In an arrangement every element is in place. -/
theorem WeakOrder.inPlace_of_arranged (order : WeakOrder less) {list : List α}
    (arranged : Arranged less list) {place : Nat} {a : α} (there : list[place]? = some a) :
    InPlace less list place a := by
  have self : less a a = false := by
    rw [Bool.eq_false_iff]
    intro before
    rw [order.asymm before] at before
    cases before
  exact (order.alike_iff_inPlace arranged there a).mp ⟨self, self⟩

/-- Places do not depend on the arrangement of the others. -/
theorem inPlace_perm {others more : List α} (perm : others.Perm more) {place : Nat} {a : α} :
    InPlace less others place a ↔ InPlace less more place a := by
  unfold InPlace
  rw [perm.countP_eq, perm.countP_eq]

/-- Two arrangements of the same elements, one by another comparison: pages of both have like
elements at every place exactly when the elements of the one are in place. -/
theorem WeakOrder.forall₂_page_iff (order : WeakOrder less) {left right : List α}
    (perm : left.Perm right) (arranged : Arranged less right) (offset limit : Nat) :
    List.Forall₂ (Alike less) ((left.drop offset).take limit) ((right.drop offset).take limit) ↔
      ∀ place a, offset ≤ place → place < offset + limit → left[place]? = some a →
        InPlace less left place a := by
  rw [List.forall₂_iff_get]
  constructor
  · rintro ⟨_, alike⟩ place a reached bounded there
    obtain ⟨inside, rfl⟩ := List.getElem?_eq_some_iff.mp there
    have insideToo : place < right.length := perm.length_eq ▸ inside
    have here := alike (place - offset)
      (by rw [List.length_take, List.length_drop]; omega)
      (by rw [List.length_take, List.length_drop]; omega)
    simp only [List.get_eq_getElem, List.getElem_take, List.getElem_drop,
      Nat.add_sub_cancel' reached] at here
    exact (inPlace_perm perm).mpr ((order.alike_iff_inPlace arranged
      (List.getElem?_eq_getElem insideToo) _).mp here)
  · intro inPlace
    refine ⟨by rw [List.length_take, List.length_take, List.length_drop, List.length_drop,
      perm.length_eq], fun place inside insideToo => ?_⟩
    rw [List.length_take, List.length_drop] at inside insideToo
    have here : offset + place < left.length := by omega
    have there : offset + place < right.length := by omega
    have placed := inPlace (offset + place) left[offset + place] (Nat.le_add_right _ _)
      (by omega) (List.getElem?_eq_getElem here)
    simp only [List.get_eq_getElem, List.getElem_take, List.getElem_drop]
    exact (order.alike_iff_inPlace arranged (List.getElem?_eq_getElem there) _).mpr
      ((inPlace_perm perm).mp placed)

end Order

end Foundation
