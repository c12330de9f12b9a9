import Virie.Foundation.Container

/-! # The cache of an accessor

`cache_base` remembers at most a fixed number of accesses, in the order of their recency. A key
that is set again gets a second node of the list of accesses, and dropping an old node drops the
value of its key whichever node that value belongs to. `isolation_lock` says which threads may
use the cache: every thread, or only the one that is in a write transaction. -/

open Foundation

namespace Virie.Accessors

/-- The thread in a write transaction, to which the cache is reserved. -/
structure IsolationLock (T : Type) where
  currentWriterThread : Option T
deriving DecidableEq

/-- Whether the calling thread may use the cache. -/
def IsolationLock.allows {T : Type} [DecidableEq T] (isolation : IsolationLock T) (t : T) : Bool :=
  match isolation.currentWriterThread with
  | none => true
  | some writer => writer = t

/-- Values of keys, each with its node of the list of accesses, the most recent one first. -/
structure CacheBase (K V : Type) [Key K] where
  maxAllowedElements : Nat
  mostRecentAccessed : List (Nat × K)
  data : Container K (V × Nat)
  nextNode : Nat

namespace CacheBase

variable {K V : Type} [Key K]

/-- The value remembered for a key. -/
def cached (c : CacheBase K V) (k : K) : Option V := (c.data.get k).map Prod.fst

/-- Move the node of the key to the front. -/
def touch (c : CacheBase K V) (k : K) : CacheBase K V :=
  match c.data.get k with
  | none => c
  | some (_, node) =>
      { c with
        mostRecentAccessed :=
          (node, k) :: c.mostRecentAccessed.filter fun access => access.1 ≠ node }

/-- Drop the oldest access, and the value of its key. -/
def dropOldest (c : CacheBase K V) : CacheBase K V :=
  match c.mostRecentAccessed.getLast? with
  | none => c
  | some (_, k) =>
      { c with data := c.data.erase k, mostRecentAccessed := c.mostRecentAccessed.dropLast }

def trim (c : CacheBase K V) : CacheBase K V :=
  dropOldest^[c.mostRecentAccessed.length - c.maxAllowedElements] c

def get (c : CacheBase K V) (k : K) : Option V × CacheBase K V := (c.cached k, c.touch k)

def set (c : CacheBase K V) (k : K) (v : V) : CacheBase K V :=
  trim
    { c with
      mostRecentAccessed := (c.nextNode, k) :: c.mostRecentAccessed
      data := c.data.set k (v, c.nextNode)
      nextNode := c.nextNode + 1 }

def clear (c : CacheBase K V) : CacheBase K V := { c with data := ∅, mostRecentAccessed := [] }

def erase (c : CacheBase K V) (k : K) : CacheBase K V :=
  match c.data.get k with
  | none => c
  | some (_, node) =>
      { c with
        mostRecentAccessed := c.mostRecentAccessed.filter fun access => access.1 ≠ node
        data := c.data.erase k }

/-! ## What is remembered -/

@[simp] theorem cached_touch (c : CacheBase K V) (k l : K) : (c.touch k).cached l = c.cached l := by
  unfold touch
  cases c.data.get k with
  | none => rfl
  | some entry => rfl

@[simp] theorem cached_clear (c : CacheBase K V) (l : K) : c.clear.cached l = none := by
  rw [cached, clear, Container.get_empty, Option.map_none]

theorem cached_erase_self (c : CacheBase K V) (k : K) : (c.erase k).cached k = none := by
  unfold erase
  cases found : c.data.get k with
  | none => rw [cached, found, Option.map_none]
  | some entry => rw [cached, Container.get_erase_self, Option.map_none]

theorem cached_of_erase {c : CacheBase K V} {k l : K} {w : V}
    (remembered : (c.erase k).cached l = some w) : c.cached l = some w := by
  classical
  unfold erase at remembered
  cases found : c.data.get k with
  | none =>
    rw [found] at remembered
    exact remembered
  | some entry =>
    rw [found] at remembered
    change ((c.data.erase k).get l).map Prod.fst = some w at remembered
    rw [Container.get_erase] at remembered
    split at remembered
    · cases remembered
    · exact remembered

theorem cached_of_dropOldest {c : CacheBase K V} {l : K} {w : V}
    (remembered : c.dropOldest.cached l = some w) : c.cached l = some w := by
  classical
  unfold dropOldest at remembered
  cases oldest : c.mostRecentAccessed.getLast? with
  | none =>
    rw [oldest] at remembered
    exact remembered
  | some access =>
    rw [oldest] at remembered
    change ((c.data.erase access.2).get l).map Prod.fst = some w at remembered
    rw [Container.get_erase] at remembered
    split at remembered
    · cases remembered
    · exact remembered

theorem cached_of_trim {c : CacheBase K V} {l : K} {w : V}
    (remembered : c.trim.cached l = some w) : c.cached l = some w := by
  unfold trim at remembered
  generalize c.mostRecentAccessed.length - c.maxAllowedElements = excess at remembered
  induction excess with
  | zero => exact remembered
  | succ excess ih =>
    rw [Function.iterate_succ_apply'] at remembered
    exact ih (cached_of_dropOldest remembered)

/-- Setting a key remembers nothing new but its value. -/
theorem cached_of_set {c : CacheBase K V} {k l : K} {v w : V}
    (remembered : (c.set k v).cached l = some w) : l = k ∧ w = v ∨ l ≠ k ∧ c.cached l = some w := by
  classical
  have added := cached_of_trim remembered
  change ((c.data.set k (v, c.nextNode)).get l).map Prod.fst = some w at added
  rw [Container.get_set] at added
  split at added
  · next same =>
    cases added
    exact .inl ⟨same.symm, rfl⟩
  · next apart => exact .inr ⟨fun same => apart same.symm, added⟩

end CacheBase
end Virie.Accessors
