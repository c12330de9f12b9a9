import Mathlib.Logic.Basic

/-! # Recursive locks

A recursive lock has one owner at a time, and the owner may take it again. It is free once the
owner has released it as often as it was taken. -/

namespace Foundation

/-- A free lock, or its owner with the number of times the lock was taken again. -/
inductive RecursiveLock (T : Type) where
  | free
  | held (owner : T) (again : Nat)
deriving DecidableEq

namespace RecursiveLock

variable {T : Type} [DecidableEq T] {lock : RecursiveLock T} {t u : T}

/-- How many times a thread holds the lock. -/
def depth (t : T) : RecursiveLock T → Nat
  | free => 0
  | held owner again => if owner = t then again + 1 else 0

/-- Whether a thread takes the lock without waiting. -/
def mayTake (t : T) : RecursiveLock T → Bool
  | free => true
  | held owner _ => owner = t

/-- Take the lock, which is free or already owned. -/
def take (t : T) : RecursiveLock T → RecursiveLock T
  | free => held t 0
  | held owner again => if owner = t then held owner (again + 1) else held owner again

/-- Release the lock once; only its owner does. -/
def release (t : T) : RecursiveLock T → RecursiveLock T
  | free => free
  | held owner again =>
    if owner = t then
      if again = 0 then free else held owner (again - 1)
    else held owner again

theorem depth_take (may : lock.mayTake t = true) : (lock.take t).depth t = lock.depth t + 1 := by
  cases lock with
  | free => exact if_pos rfl
  | held owner again =>
    have own : owner = t := of_decide_eq_true may
    rw [take, if_pos own, depth, if_pos own, depth, if_pos own]

theorem depth_take_of_ne (may : lock.mayTake t = true) (other : u ≠ t) :
    (lock.take t).depth u = lock.depth u := by
  cases lock with
  | free => exact if_neg (Ne.symm other)
  | held owner again =>
    have own : owner = t := of_decide_eq_true may
    have apart : owner ≠ u := fun same => other (same.symm.trans own)
    rw [take, if_pos own, depth, if_neg apart, depth, if_neg apart]

theorem depth_release : (lock.release t).depth t = lock.depth t - 1 := by
  cases lock with
  | free => rfl
  | held owner again =>
    by_cases own : owner = t
    · by_cases last : again = 0
      · simp [release, depth, own, last]
      · simp [release, depth, own, last]
        omega
    · simp [release, depth, own]

theorem depth_release_of_ne (other : u ≠ t) : (lock.release t).depth u = lock.depth u := by
  cases lock with
  | free => rfl
  | held owner again =>
    by_cases own : owner = t
    · have apart : owner ≠ u := fun same => other (same.symm.trans own)
      by_cases last : again = 0
      · rw [release, if_pos own, if_pos last, depth, depth, if_neg apart]
      · rw [release, if_pos own, if_neg last, depth, depth, if_neg apart, if_neg apart]
    · rw [release, if_neg own]

end RecursiveLock
end Foundation
