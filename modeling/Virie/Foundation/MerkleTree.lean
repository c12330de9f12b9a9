import Mathlib

/-! # Trees of hashes

Values are combined in pairs, level by level, until one is left. Run on trees instead of hashes,
the same levels give the tree whose root the result is: the leaves of the tree are the values in
their order, and its shape depends on their number alone. Trees of one shape with one root have the
same leaves unless two pairs that were hashed collide. -/

namespace Foundation

/-- Combine neighbours. -/
def pairUp {α : Type} (combine : α → α → α) : List α → List α
  | a :: b :: rest => combine a b :: pairUp combine rest
  | [_] => []
  | [] => []

/-- Combine neighbours on several levels. -/
def pairLevels {α : Type} (combine : α → α → α) : Nat → List α → List α
  | 0, values => values
  | levels + 1, values => pairLevels combine levels (pairUp combine values)

section Pairs

variable {α β : Type} {combine : α → α → α} {combine' : β → β → β}

theorem pairUp_length {n : Nat} {values : List α} (even : values.length = 2 * n) :
    (pairUp combine values).length = n := by
  induction n generalizing values with
  | zero =>
    rw [List.length_eq_zero_iff.1 even]
    rfl
  | succ n ih =>
    obtain ⟨a, b, rest, rfl⟩ : ∃ a b rest, values = a :: b :: rest := by
      cases values with
      | nil => cases even
      | cons a rest =>
        cases rest with
        | nil => simp at even; omega
        | cons b rest => exact ⟨a, b, rest, rfl⟩
    rw [pairUp, List.length_cons, ih (by simpa [Nat.mul_succ] using even)]

theorem pairUp_map {f : α → β} (respects : ∀ a b, f (combine a b) = combine' (f a) (f b))
    (values : List α) : (pairUp combine values).map f = pairUp combine' (values.map f) := by
  induction values using pairUp.induct with
  | case1 a b rest ih => simp only [pairUp, List.map_cons, respects, ih]
  | case2 a => rfl
  | case3 => rfl

theorem pairLevels_map {f : α → β} (respects : ∀ a b, f (combine a b) = combine' (f a) (f b))
    (levels : Nat) (values : List α) :
    (pairLevels combine levels values).map f = pairLevels combine' levels (values.map f) := by
  induction levels generalizing values with
  | zero => rfl
  | succ levels ih => rw [pairLevels, ih, pairUp_map respects, pairLevels]

theorem pairLevels_succ (levels : Nat) (values : List α) :
    pairLevels combine (levels + 1) values = pairUp combine (pairLevels combine levels values) := by
  induction levels generalizing values with
  | zero => rfl
  | succ levels ih => rw [pairLevels, ih, pairLevels]

theorem pairLevels_length {n levels : Nat} {values : List α}
    (power : values.length = 2 ^ levels * n) : (pairLevels combine levels values).length = n := by
  induction levels generalizing values with
  | zero => simpa [pairLevels] using power
  | succ levels ih =>
    rw [pairLevels]
    refine ih (pairUp_length ?_)
    rw [power, Nat.pow_succ']
    ring

end Pairs

/-- A binary tree with values at its leaves. -/
inductive MerkleTree (α : Type) where
  | leaf (value : α)
  | node (left right : MerkleTree α)
deriving DecidableEq

namespace MerkleTree

variable {α : Type} {hash : α → α → α} {tree other : MerkleTree α}

/-- The leaves from left to right. -/
def leaves : MerkleTree α → List α
  | leaf value => [value]
  | node left right => left.leaves ++ right.leaves

/-- The hash of the tree. -/
def root (hash : α → α → α) : MerkleTree α → α
  | leaf value => value
  | node left right => hash (left.root hash) (right.root hash)

/-- The tree without its values. -/
def shape : MerkleTree α → MerkleTree Unit
  | leaf _ => leaf ()
  | node left right => node left.shape right.shape

/-- The pairs that are hashed for the root. -/
def pairs (hash : α → α → α) : MerkleTree α → List (α × α)
  | leaf _ => []
  | node left right => (left.root hash, right.root hash) :: (left.pairs hash ++ right.pairs hash)

/-- No pair of the one list and other pair of the other list have the same hash. -/
def CollisionFree (hash : α → α → α) (first second : List (α × α)) : Prop :=
  ∀ p ∈ first, ∀ q ∈ second, hash p.1 p.2 = hash q.1 q.2 → p = q

/-- The root determines a tree of a known shape. -/
theorem eq_of_root (alike : tree.shape = other.shape)
    (free : CollisionFree hash (tree.pairs hash) (other.pairs hash))
    (same : tree.root hash = other.root hash) : tree = other := by
  induction tree generalizing other with
  | leaf value =>
    cases other with
    | leaf value' => exact congrArg leaf same
    | node left right => cases alike
  | node left right leftIh rightIh =>
    cases other with
    | leaf value => cases alike
    | node left' right' =>
      obtain ⟨leftAlike, rightAlike⟩ := MerkleTree.node.inj alike
      have pair := free _ List.mem_cons_self _ List.mem_cons_self same
      obtain ⟨leftSame, rightSame⟩ := Prod.mk.inj pair
      have deeper : ∀ {p : α × α}, p ∈ left.pairs hash ++ right.pairs hash →
          ∀ {q : α × α}, q ∈ left'.pairs hash ++ right'.pairs hash →
          hash p.1 p.2 = hash q.1 q.2 → p = q := fun first _ second =>
        free _ (List.mem_cons_of_mem _ first) _ (List.mem_cons_of_mem _ second)
      have leftEq := leftIh leftAlike (fun p first q second =>
        deeper (List.mem_append_left _ first) (List.mem_append_left _ second)) leftSame
      have rightEq := rightIh rightAlike (fun p first q second =>
        deeper (List.mem_append_right _ first) (List.mem_append_right _ second)) rightSame
      rw [leftEq, rightEq]

/-- Combining neighbours keeps the leaves in order. -/
theorem pairUp_leaves {n : Nat} {trees : List (MerkleTree α)} (even : trees.length = 2 * n) :
    (pairUp node trees).flatMap leaves = trees.flatMap leaves := by
  induction n generalizing trees with
  | zero =>
    rw [List.length_eq_zero_iff.1 even]
    rfl
  | succ n ih =>
    cases trees with
    | nil => cases even
    | cons a rest =>
      cases rest with
      | nil => simp at even; omega
      | cons b rest =>
        rw [pairUp, List.flatMap_cons, ih (by simpa [Nat.mul_succ] using even),
          List.flatMap_cons, List.flatMap_cons, leaves, List.append_assoc]

theorem pairLevels_leaves {n levels : Nat} {trees : List (MerkleTree α)}
    (power : trees.length = 2 ^ levels * n) :
    (pairLevels node levels trees).flatMap leaves = trees.flatMap leaves := by
  induction levels generalizing trees with
  | zero => rfl
  | succ levels ih =>
    have even : trees.length = 2 * (2 ^ levels * n) := by
      rw [power, Nat.pow_succ']
      ring
    rw [pairLevels, ih (pairUp_length even), pairUp_leaves even]

end MerkleTree
end Foundation
