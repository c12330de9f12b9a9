import Mathlib

/-! # Keyed containers

A key-value container of a database: at most one value under a key, enumerated
in key order. Two containers are equal when they answer every lookup alike, so
an update followed by its inverse is an equation between containers. -/

namespace Foundation

/-- The orders that may key a container: lawful comparisons whose `eq` is equality. -/
class Key (K : Type) extends Ord K where
  trans : Std.TransCmp (compare : K → K → Ordering)
  lawful : Std.LawfulEqCmp (compare : K → K → Ordering)

attribute [instance] Key.trans Key.lawful

instance : Key Nat where
  trans := inferInstance
  lawful := inferInstance

instance : Key String where
  trans := inferInstance
  lawful := inferInstance

/-- An injective measure into a key type makes its domain a key type. -/
abbrev Key.ofInjective {K L : Type} [Key L] (measure : K → L)
    (injective : ∀ a b, measure a = measure b → a = b) : Key K where
  compare := compareOn measure
  trans := inferInstanceAs (Std.TransCmp (compareOn measure))
  lawful :=
    { compare_self := fun {a} => (Std.ReflCmp.compare_self : compare (measure a) (measure a) = .eq)
      eq_of_compare := fun same => injective _ _ (Std.LawfulEqCmp.eq_of_compare same) }

/-- Pairs are ordered by their first and then by their second component. -/
instance {K L : Type} [Key K] [Key L] : Key (K × L) where
  compare := compareLex (compareOn Prod.fst) (compareOn Prod.snd)
  trans := inferInstance
  lawful :=
    { compare_self := Std.ReflCmp.compare_self
      eq_of_compare := by
        intro a b same
        obtain ⟨first, second⟩ := compareLex_eq_eq.mp same
        exact Prod.ext (Std.LawfulEqCmp.eq_of_compare first)
          (Std.LawfulEqCmp.eq_of_compare second) }

/-- A finite map from keys to values. -/
structure Container (K V : Type) [Key K] where
  entries : Std.ExtTreeMap K V compare

namespace Container

variable {K V W : Type} [Key K]

/-- The container without entries. -/
def empty : Container K V := ⟨∅⟩

instance : EmptyCollection (Container K V) := ⟨empty⟩
instance : Inhabited (Container K V) := ⟨empty⟩

/-- The value under a key. -/
def get (c : Container K V) (k : K) : Option V := c.entries[k]?

/-- Put a value under a key, replacing the one there. -/
def set (c : Container K V) (k : K) (v : V) : Container K V := ⟨c.entries.insert k v⟩

/-- Remove a key. -/
def erase (c : Container K V) (k : K) : Container K V := ⟨c.entries.erase k⟩

/-- The number of keys. -/
def size (c : Container K V) : Nat := c.entries.size

/-- All entries, in key order. -/
def toList (c : Container K V) : List (K × V) := c.entries.toList

/-- Change every value. -/
def map (f : K → V → W) (c : Container K V) : Container K W := ⟨c.entries.map f⟩

/-- Whether a key has a value. -/
def has (c : Container K V) (k : K) : Bool := (c.get k).isSome

/-- Update the value under a key, starting from a default. -/
def modify (c : Container K V) (k : K) (default : V) (f : V → V) : Container K V :=
  c.set k (f ((c.get k).getD default))

@[ext] theorem ext {a b : Container K V} (same : ∀ k, a.get k = b.get k) : a = b := by
  cases a
  cases b
  exact congrArg Container.mk (Std.ExtTreeMap.ext_getElem? same)

@[simp] theorem get_empty (k : K) : (∅ : Container K V).get k = none :=
  Std.ExtTreeMap.getElem?_empty

theorem get_set [DecidableEq K] (c : Container K V) (k : K) (v : V) (l : K) :
    (c.set k v).get l = if k = l then some v else c.get l := by
  simp only [get, set, Std.ExtTreeMap.getElem?_insert, Std.LawfulEqCmp.compare_eq_iff_eq]

theorem get_erase [DecidableEq K] (c : Container K V) (k l : K) :
    (c.erase k).get l = if k = l then none else c.get l := by
  simp only [get, erase, Std.ExtTreeMap.getElem?_erase, Std.LawfulEqCmp.compare_eq_iff_eq]

@[simp] theorem get_set_self (c : Container K V) (k : K) (v : V) :
    (c.set k v).get k = some v := by
  simp only [get, set, Std.ExtTreeMap.getElem?_insert_self]

@[simp] theorem get_map (f : K → V → W) (c : Container K V) (k : K) :
    (c.map f).get k = (c.get k).map (f k) :=
  Std.ExtTreeMap.getElem?_map

theorem get_set_of_ne (c : Container K V) {k l : K} (v : V) (apart : k ≠ l) :
    (c.set k v).get l = c.get l := by
  classical rw [get_set, if_neg apart]

@[simp] theorem get_erase_self (c : Container K V) (k : K) : (c.erase k).get k = none := by
  simp only [get, erase, Std.ExtTreeMap.getElem?_erase_self]

theorem get_erase_of_ne (c : Container K V) {k l : K} (apart : k ≠ l) :
    (c.erase k).get l = c.get l := by
  classical rw [get_erase, if_neg apart]

@[simp] theorem set_set (c : Container K V) (k : K) (v w : V) :
    (c.set k v).set k w = c.set k w := by
  classical
  ext1 l
  simp only [get_set]
  split <;> rfl

@[simp] theorem set_get (c : Container K V) (k : K) (v : V) (present : c.get k = some v) :
    c.set k v = c := by
  classical
  ext1 l
  rw [get_set]
  split
  · next same => rw [← same, present]
  · rfl

/-- Removing a key just put under a fresh name restores the container. -/
@[simp] theorem erase_set (c : Container K V) (k : K) (v : V) (fresh : c.get k = none) :
    (c.set k v).erase k = c := by
  classical
  ext1 l
  rw [get_erase]
  split
  · next same => rw [← same, fresh]
  · next apart => rw [get_set_of_ne c v apart]

theorem mem_toList (c : Container K V) (k : K) (v : V) :
    (k, v) ∈ c.toList ↔ c.get k = some v :=
  Std.ExtTreeMap.mem_toList_iff_getElem?_eq_some

/-- Entries are enumerated in key order. -/
theorem sorted_toList (c : Container K V) :
    c.toList.Pairwise fun a b => compare a.1 b.1 = .lt :=
  Std.ExtTreeMap.ordered_keys_toList

theorem has_iff (c : Container K V) (k : K) : c.has k = true ↔ ∃ v, c.get k = some v :=
  Option.isSome_iff_exists

theorem get_eq_none_of_not_has (c : Container K V) (k : K) (absent : ¬ c.has k = true) :
    c.get k = none := by
  rwa [has, Option.not_isSome_iff_eq_none] at absent

theorem get_modify [DecidableEq K] (c : Container K V) (k : K) (default : V) (f : V → V) (l : K) :
    (c.modify k default f).get l =
      if k = l then some (f ((c.get k).getD default)) else c.get l :=
  get_set c k _ l

/-! ### Counting -/

/-- The number of entries that pass a test. -/
def count (c : Container K V) (test : K → V → Bool) : Nat :=
  c.toList.countP fun entry => test entry.1 entry.2

theorem nodup_toList (c : Container K V) : c.toList.Nodup := by
  apply c.sorted_toList.imp
  rintro ⟨k, v⟩ ⟨l, w⟩ less same
  cases same
  have equal : compare k k = .eq := Std.ReflCmp.compare_self
  cases less.symm.trans equal

theorem nodup_keys (c : Container K V) : (c.toList.map Prod.fst).Nodup := by
  rw [List.Nodup, List.pairwise_map]
  apply c.sorted_toList.imp
  intro a b less same
  rw [same] at less
  have equal : compare b.1 b.1 = .eq := Std.ReflCmp.compare_self
  cases less.symm.trans equal

/-- A fresh key adds one entry. -/
theorem toList_set_perm (c : Container K V) {k : K} (v : V) (fresh : c.get k = none) :
    List.Perm (c.set k v).toList ((k, v) :: c.toList) := by
  classical
  have absent : (k, v) ∉ c.toList := by
    rw [mem_toList, fresh]
    simp
  apply (List.perm_ext_iff_of_nodup (nodup_toList _)
    (List.nodup_cons.mpr ⟨absent, nodup_toList c⟩)).mpr
  rintro ⟨l, w⟩
  rw [mem_toList, get_set, List.mem_cons, mem_toList]
  by_cases same : k = l
  · subst same
    rw [if_pos rfl, fresh]
    simp [eq_comm]
  · rw [if_neg same]
    simp [Ne.symm same]

theorem count_set_of_none (c : Container K V) {k : K} (v : V) (fresh : c.get k = none)
    (test : K → V → Bool) :
    (c.set k v).count test = c.count test + if test k v then 1 else 0 := by
  rw [count, (toList_set_perm c v fresh).countP_eq, List.countP_cons]
  rfl

theorem set_erase_of_some (c : Container K V) {k : K} {v : V} (found : c.get k = some v) :
    (c.erase k).set k v = c := by
  classical
  ext1 l
  rw [get_set, get_erase]
  by_cases same : k = l
  · rw [if_pos same, ← same, found]
  · rw [if_neg same, if_neg same]

/-- Removing a key removes its entry. -/
theorem count_erase_of_some (c : Container K V) {k : K} {v : V} (found : c.get k = some v)
    (test : K → V → Bool) :
    c.count test = (c.erase k).count test + if test k v then 1 else 0 := by
  rw [← count_set_of_none _ v (get_erase_self c k), set_erase_of_some c found]

/-- The sum of a weight over the entries. -/
def total (c : Container K V) (weight : K → V → Nat) : Nat :=
  (c.toList.map fun entry => weight entry.1 entry.2).sum

theorem total_set_of_none (c : Container K V) {k : K} (v : V) (fresh : c.get k = none)
    (weight : K → V → Nat) : (c.set k v).total weight = c.total weight + weight k v := by
  rw [total, ((toList_set_perm c v fresh).map _).sum_eq, List.map_cons, List.sum_cons, Nat.add_comm]
  rfl

theorem total_erase_of_some (c : Container K V) {k : K} {v : V} (found : c.get k = some v)
    (weight : K → V → Nat) : c.total weight = (c.erase k).total weight + weight k v := by
  rw [← total_set_of_none _ v (get_erase_self c k), set_erase_of_some c found]

/-- Erasing several keys keeps the entries of the other ones. -/
theorem get_eraseAll [DecidableEq K] (c : Container K V) (keys : List K) (l : K) :
    (keys.foldl erase c).get l = if l ∈ keys then none else c.get l := by
  induction keys generalizing c with
  | nil => rfl
  | cons key rest ih =>
    rw [List.foldl_cons, ih, get_erase]
    by_cases later : l ∈ rest
    · rw [if_pos later, if_pos (List.mem_cons_of_mem _ later)]
    · rw [if_neg later]
      by_cases here : key = l
      · subst here
        rw [if_pos rfl, if_pos List.mem_cons_self]
      · rw [if_neg here, if_neg (List.not_mem_cons_of_ne_of_not_mem (Ne.symm here) later)]

theorem total_eraseAll [DecidableEq K] (c : Container K V) (keys : List K)
    (weight : K → V → Nat) :
    (keys.foldl erase c).total weight =
      ((c.toList.filter fun entry => entry.1 ∉ keys).map
        fun entry => weight entry.1 entry.2).sum := by
  classical
  have perm : List.Perm (keys.foldl erase c).toList
      (c.toList.filter fun entry => entry.1 ∉ keys) := by
    apply (List.perm_ext_iff_of_nodup (nodup_toList _) ((nodup_toList c).filter _)).mpr
    rintro ⟨l, w⟩
    rw [mem_toList, get_eraseAll, List.mem_filter, mem_toList]
    by_cases erased : l ∈ keys
    · simp [erased]
    · simp [erased]
  rw [total, (perm.map _).sum_eq]

/-! ### Counters -/

/-- A container counts what a function says: it has an entry just where the number is not zero. -/
def Counts (c : Container K Nat) (number : K → Nat) : Prop :=
  ∀ k, c.get k = if number k = 0 then none else some (number k)

/-- One less; a counter that reaches zero is dropped and a missing one passed over. -/
def countDown (c : Container K Nat) (k : K) : Container K Nat :=
  match c.get k with
  | none | some 0 => c
  | some 1 => c.erase k
  | some (number + 2) => c.set k (number + 1)

namespace Counts

variable {c : Container K Nat} {number other : K → Nat}

theorem congr (counts : c.Counts number) (same : ∀ k, number k = other k) : c.Counts other := by
  intro k
  rw [← same, counts]

theorem unique (counts : c.Counts number) (others : c.Counts other) (k : K) :
    number k = other k := by
  have same := (counts k).symm.trans (others k)
  split at same
  · next none =>
    split at same
    · next zero => rw [none, zero]
    · cases same
  · split at same
    · cases same
    · exact Option.some.inj same

theorem empty : (∅ : Container K Nat).Counts fun _ => 0 := fun k => get_empty k

theorem getD (counts : c.Counts number) (k : K) : (c.get k).getD 0 = number k := by
  rw [counts k]
  split
  · next zero => exact zero.symm
  · rfl

theorem up [DecidableEq K] (counts : c.Counts number) (k : K) :
    (c.modify k 0 (· + 1)).Counts fun l => number l + if k = l then 1 else 0 := by
  intro l
  dsimp only
  rw [get_modify]
  by_cases same : k = l
  · subst same
    simp only [↓reduceIte, counts.getD, Nat.add_eq_zero_iff, Nat.one_ne_zero, and_false]
  · simp only [if_neg same, Nat.add_zero]
    exact counts l

theorem upAll [DecidableEq K] (counts : c.Counts number) (keys : List K) :
    (keys.foldl (fun c k => c.modify k 0 (· + 1)) c).Counts
      fun l => number l + keys.count l := by
  induction keys generalizing c number with
  | nil => exact counts
  | cons key rest ih =>
    refine (ih (counts.up key)).congr fun l => ?_
    rw [List.count_cons]
    simp only [beq_iff_eq]
    omega

theorem down [DecidableEq K] (counts : c.Counts number) (k : K) :
    (c.countDown k).Counts fun l => number l - if k = l then 1 else 0 := by
  intro l
  dsimp only
  have here := counts k
  have others : ¬k = l → c.get l = if (number l - if k = l then 1 else 0) = 0 then none
      else some (number l - if k = l then 1 else 0) := by
    intro apart
    simp only [if_neg apart, Nat.sub_zero]
    exact counts l
  unfold countDown
  cases positive : number k with
  | zero =>
    rw [positive, if_pos rfl] at here
    rw [here]
    dsimp only
    by_cases same : k = l
    · subst same
      simp only [here, positive, Nat.zero_sub, ↓reduceIte]
    · exact others same
  | succ less =>
    rw [positive, if_neg (Nat.succ_ne_zero _)] at here
    rw [here]
    cases less with
    | zero =>
      dsimp only
      rw [get_erase]
      by_cases same : k = l
      · subst same
        simp only [positive, ↓reduceIte, Nat.zero_add, Nat.sub_self]
      · rw [if_neg same]
        exact others same
    | succ less =>
      dsimp only
      rw [get_set]
      by_cases same : k = l
      · subst same
        simp only [positive, ↓reduceIte, Nat.add_sub_cancel, Nat.add_eq_zero_iff, Nat.one_ne_zero,
          and_false]
      · rw [if_neg same]
        exact others same

theorem downAll [DecidableEq K] (counts : c.Counts number) (keys : List K) :
    (keys.foldl countDown c).Counts fun l => number l - keys.count l := by
  induction keys generalizing c number with
  | nil => exact counts
  | cons key rest ih =>
    refine (ih (counts.down key)).congr fun l => ?_
    rw [List.count_cons]
    simp only [beq_iff_eq]
    omega

end Counts

end Container

/-! ## Sets of keys -/

/-- A finite set of keys, enumerated in key order. -/
abbrev KeySet (K : Type) [Key K] := Container K Unit

namespace KeySet

variable {K : Type} [Key K]

def insert (s : KeySet K) (k : K) : KeySet K := Container.set s k ()

def contains (s : KeySet K) (k : K) : Bool := Container.has s k

/-- The least key. -/
def first (s : KeySet K) : Option K := (Container.toList s).head?.map Prod.fst

def isEmpty (s : KeySet K) : Bool := (Container.toList s).isEmpty

theorem contains_insert [DecidableEq K] (s : KeySet K) (k l : K) :
    (s.insert k).contains l = (decide (k = l) || s.contains l) := by
  simp only [contains, insert, Container.has, Container.get_set]
  split <;> simp_all

theorem contains_erase [DecidableEq K] (s : KeySet K) (k l : K) :
    contains (Container.erase s k) l = (!decide (k = l) && s.contains l) := by
  simp only [contains, Container.has, Container.get_erase]
  split <;> simp_all

/-- Sets with the same members are equal. -/
theorem ext_contains {a b : KeySet K} (same : ∀ k, a.contains k = b.contains k) : a = b := by
  apply Container.ext
  intro k
  have alike := same k
  unfold contains Container.has at alike
  cases left : a.get k <;> cases right : b.get k <;> simp_all

theorem isEmpty_iff (s : KeySet K) : s.isEmpty = true ↔ ∀ k, s.contains k = false := by
  unfold isEmpty
  rw [List.isEmpty_iff, List.eq_nil_iff_forall_not_mem]
  constructor
  · intro none k
    by_contra present
    rw [Bool.not_eq_false, contains, Container.has_iff] at present
    obtain ⟨v, found⟩ := present
    exact none (k, v) ((Container.mem_toList s k v).mpr found)
  · rintro absent ⟨k, v⟩ member
    have found := (Container.mem_toList s k v).mp member
    have missing := absent k
    simp [contains, Container.has, found] at missing

/-- Inserting several keys adds just these. -/
theorem contains_insertAll [DecidableEq K] (s : KeySet K) (keys : List K) (l : K) :
    (keys.foldl insert s).contains l = true ↔ s.contains l = true ∨ l ∈ keys := by
  induction keys generalizing s with
  | nil => simp
  | cons key rest ih =>
    rw [List.foldl_cons, ih, contains_insert, List.mem_cons, Bool.or_eq_true, decide_eq_true_eq,
      eq_comm, or_assoc, or_left_comm]

/-! ### Sets that index a container -/

section Indexes

variable {I V : Type} [Key I] [DecidableEq I] {s t : KeySet K} {c : Container I V}
  {keys : V → List K}

/-- A set holds just the keys that are read off the entries of a container. -/
def Indexes (s : KeySet K) (c : Container I V) (keys : V → List K) : Prop :=
  ∀ k, s.contains k = true ↔ ∃ i v, c.get i = some v ∧ k ∈ keys v

/-- An entry adds its keys. It may replace one whose keys it has. -/
theorem Indexes.set (indexes : s.Indexes c keys) {i : I} {v : V}
    (replaced : ∀ old, c.get i = some old → ∀ k ∈ keys old, k ∈ keys v)
    (added : ∀ k, t.contains k = true ↔ s.contains k = true ∨ k ∈ keys v) :
    t.Indexes (Container.set c i v) keys := by
  intro k
  rw [added, indexes]
  constructor
  · rintro (⟨j, w, found, has⟩ | own)
    · by_cases same : i = j
      · subst same
        exact ⟨i, v, Container.get_set_self _ _ _, replaced w found k has⟩
      · exact ⟨j, w, by rwa [Container.get_set_of_ne _ _ same], has⟩
    · exact ⟨i, v, Container.get_set_self _ _ _, own⟩
  · rintro ⟨j, w, found, has⟩
    rw [Container.get_set] at found
    split at found
    · cases found
      exact .inr has
    · exact .inl ⟨j, w, found, has⟩

/-- Erased entries drop their keys, when no other entry has one of them. -/
theorem Indexes.eraseAll (indexes : s.Indexes c keys) {erased : List I} {dropped : List K}
    (own : ∀ i ∈ erased, ∀ v, c.get i = some v → ∀ k ∈ keys v, k ∈ dropped)
    (apart : ∀ i v, i ∉ erased → c.get i = some v → ∀ k ∈ keys v, k ∉ dropped)
    (kept : ∀ k, t.contains k = true ↔ s.contains k = true ∧ k ∉ dropped) :
    t.Indexes (erased.foldl Container.erase c) keys := by
  intro k
  rw [kept, indexes]
  constructor
  · rintro ⟨⟨i, v, found, has⟩, remains⟩
    by_cases gone : i ∈ erased
    · exact absurd (own i gone v found k has) remains
    · exact ⟨i, v, by rwa [Container.get_eraseAll, if_neg gone], has⟩
  · rintro ⟨i, v, found, has⟩
    rw [Container.get_eraseAll] at found
    split at found
    · cases found
    · next stays => exact ⟨⟨i, v, found, has⟩, apart i v stays found k has⟩

end Indexes

end KeySet

/-! ## Arrays under keys -/

/-- A container of arrays with a length counter. An emptied array and an absent one have
the same counter and answer alike, so the emptied one is dropped. -/
structure ArrayContainer (K V : Type) [Key K] where
  arrays : Container K (List V)
  nonempty : ∀ k, arrays.get k ≠ some []

namespace ArrayContainer

variable {K V : Type} [Key K]

def empty : ArrayContainer K V := ⟨∅, by simp⟩

instance : EmptyCollection (ArrayContainer K V) := ⟨empty⟩

/-- The items under a key. -/
def items (c : ArrayContainer K V) (k : K) : List V := (c.arrays.get k).getD []

def getItemSize (c : ArrayContainer K V) (k : K) : Nat := (c.items k).length

def getSubitem (c : ArrayContainer K V) (k : K) (i : Nat) : Option V := (c.items k)[i]?

def pushBackItem (c : ArrayContainer K V) (k : K) (v : V) : ArrayContainer K V where
  arrays := c.arrays.set k (c.items k ++ [v])
  nonempty := by
    classical
    intro l
    rw [Container.get_set]
    split
    · simp
    · exact c.nonempty l

def popBackItem (c : ArrayContainer K V) (k : K) : ArrayContainer K V :=
  match kept : (c.items k).dropLast with
  | [] =>
    { arrays := c.arrays.erase k
      nonempty := by
        classical
        intro l
        rw [Container.get_erase]
        split
        · simp
        · exact c.nonempty l }
  | head :: tail =>
    { arrays := c.arrays.set k (head :: tail)
      nonempty := by
        classical
        intro l
        rw [Container.get_set]
        split
        · simp
        · exact c.nonempty l }

@[simp] theorem items_empty (k : K) : (∅ : ArrayContainer K V).items k = [] := by
  change ((∅ : Container K (List V)).get k).getD [] = []
  simp

theorem items_pushBackItem [DecidableEq K] (c : ArrayContainer K V) (k : K) (v : V) (l : K) :
    (c.pushBackItem k v).items l = if k = l then c.items k ++ [v] else c.items l := by
  simp only [items, pushBackItem, Container.get_set]
  split <;> rfl

theorem items_popBackItem [DecidableEq K] (c : ArrayContainer K V) (k l : K) :
    (c.popBackItem k).items l = if k = l then (c.items k).dropLast else c.items l := by
  unfold popBackItem
  split
  · next kept =>
    simp only [items, Container.get_erase] at kept ⊢
    split
    · rw [kept]
      rfl
    · rfl
  · next head tail kept =>
    simp only [items, Container.get_set] at kept ⊢
    split
    · rw [kept]
      rfl
    · rfl

/-- Containers with the same items under every key are equal. -/
@[ext] theorem ext {a b : ArrayContainer K V} (same : ∀ k, a.items k = b.items k) : a = b := by
  obtain ⟨first, firstFull⟩ := a
  obtain ⟨second, secondFull⟩ := b
  have equal : first = second := by
    apply Container.ext
    intro k
    have alike := same k
    have leftFull := firstFull k
    have rightFull := secondFull k
    simp only [items] at alike
    cases left : first.get k <;> cases right : second.get k <;> simp_all
  subst equal
  rfl

/-- Popping the item just pushed restores the container. -/
@[simp] theorem popBackItem_pushBackItem (c : ArrayContainer K V) (k : K) (v : V) :
    (c.pushBackItem k v).popBackItem k = c := by
  classical
  ext1 l
  rw [items_popBackItem]
  split
  · next same =>
    subst same
    rw [items_pushBackItem, if_pos rfl, List.dropLast_concat]
  · next apart => rw [items_pushBackItem, if_neg apart]

end ArrayContainer
end Foundation
