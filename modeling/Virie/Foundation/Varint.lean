import Mathlib

/-! # Variable-length numbers

A number is written in groups of seven bits, the lowest first; every byte but the last one has
its highest bit set. A reader of a given width stops at the last byte, at the end of the bytes, at
a byte with too many bits or at a zero byte that is not the first one. It reports which of these
happened and has in any case a number to offer, the bits read until then. -/

namespace Foundation

/-- How the reading of a variable-length number ended. -/
inductive VarintEnd where
  | complete
  | truncated
  | overflow
  | nonCanonical
deriving DecidableEq

/-- Write a number. -/
def writeVarint (i : Nat) : List UInt8 :=
  if i ≥ 128 then UInt8.ofNat (i % 128 + 128) :: writeVarint (i / 128) else [UInt8.ofNat i]

/-- Read a number of some bits, from a shift and the bits below it on. A group is added where the
bits below it have been read, so that adding it sets its bits. -/
def readVarint (bits shift i : Nat) : List UInt8 → VarintEnd × Nat × List UInt8
  | [] => (.truncated, i, [])
  | byte :: rest =>
    if shift + 7 ≥ bits ∧ byte.toNat ≥ 2 ^ (bits - shift) then (.overflow, i, rest)
    else if byte = 0 ∧ shift ≠ 0 then (.nonCanonical, i, rest)
    else if byte.toNat < 128 then (.complete, i + byte.toNat % 128 * 2 ^ shift, rest)
    else readVarint bits (shift + 7) (i + byte.toNat % 128 * 2 ^ shift) rest

theorem writeVarint_ne_nil (i : Nat) : writeVarint i ≠ [] := by
  rw [writeVarint]
  split
  · exact List.cons_ne_nil _ _
  · exact List.cons_ne_nil _ _

theorem writeVarint_small {i : Nat} (small : i < 128) : writeVarint i = [UInt8.ofNat i] := by
  rw [writeVarint, if_neg (by omega)]

theorem writeVarint_length_next {i : Nat} (more : i ≥ 128) :
    (writeVarint i).length = (writeVarint (i / 128)).length + 1 := by
  rw [writeVarint, if_pos more, List.length_cons]

/-- A larger number does not take fewer bytes. -/
theorem writeVarint_length_mono {small large : Nat} (less : small ≤ large) :
    (writeVarint small).length ≤ (writeVarint large).length := by
  induction large using Nat.strongRecOn generalizing small with
  | ind large ih =>
    by_cases more : small ≥ 128
    · have next := ih (large / 128) (by omega) (Nat.div_le_div_right (c := 128) less)
      rw [writeVarint_length_next more, writeVarint_length_next (more.trans less)]
      exact Nat.succ_le_succ next
    · rw [writeVarint_small (Nat.lt_of_not_ge more)]
      exact List.length_pos_iff.mpr (writeVarint_ne_nil large)

theorem toNat_ofNat_of_lt {n : Nat} (small : n < 256) : (UInt8.ofNat n).toNat = n := by
  rw [UInt8.toNat_ofNat', Nat.mod_eq_of_lt small]

/-- A group of seven bits at a shift and the groups above it make up a number at that shift. -/
theorem group_add (low high shift : Nat) :
    low * 2 ^ shift + high * 2 ^ (shift + 7) = (low + 128 * high) * 2 ^ shift := by
  rw [Nat.pow_add]
  ring

/-- What was written is read again. -/
theorem readVarint_writeVarint {bits shift i v : Nat} (rest : List UInt8) (inside : shift < bits)
    (fits : v < 2 ^ (bits - shift)) (nonzero : shift ≠ 0 → v ≠ 0) :
    readVarint bits shift i (writeVarint v ++ rest) = (.complete, i + v * 2 ^ shift, rest) := by
  induction v using Nat.strongRecOn generalizing shift i with
  | ind v ih =>
    rw [writeVarint]
    by_cases more : v ≥ 128
    · rw [if_pos more]
      have byte : (UInt8.ofNat (v % 128 + 128)).toNat = v % 128 + 128 :=
        toNat_ofNat_of_lt (by omega)
      have room : shift + 7 < bits := by
        by_contra full
        have few : 2 ^ (bits - shift) ≤ 2 ^ 7 := Nat.pow_le_pow_right (by decide) (by omega)
        omega
      have notZero : UInt8.ofNat (v % 128 + 128) ≠ 0 := by
        intro zero
        have none : (UInt8.ofNat (v % 128 + 128)).toNat = 0 := by rw [zero]; rfl
        omega
      have split : 2 ^ (bits - shift) = 128 * 2 ^ (bits - (shift + 7)) := by
        have whole : bits - shift = 7 + (bits - (shift + 7)) := by omega
        rw [whole, Nat.pow_add]
      have above : v / 128 < 2 ^ (bits - (shift + 7)) := by
        rw [split] at fits
        exact Nat.div_lt_of_lt_mul fits
      rw [List.cons_append, readVarint, if_neg (by omega), if_neg (fun zero => notZero zero.1),
        if_neg (by omega), byte, ih (v / 128) (by omega) room above (by omega), Nat.add_assoc]
      have low : (v % 128 + 128) % 128 = v % 128 := by omega
      rw [low, group_add, Nat.mod_add_div]
    · rw [if_neg more]
      have byte : (UInt8.ofNat v).toNat = v := toNat_ofNat_of_lt (by omega)
      have allowed : ¬ (UInt8.ofNat v = 0 ∧ shift ≠ 0) := by
        rintro ⟨zero, later⟩
        apply nonzero later
        rw [← byte, zero]
        rfl
      rw [List.singleton_append, readVarint, byte, if_neg (by omega), if_neg allowed,
        if_pos (by omega), Nat.mod_eq_of_lt (by omega)]

/-- Bytes that are read completely are the ones that are written for the number. -/
theorem writeVarint_of_complete {bits shift i n : Nat} {bytes rest : List UInt8}
    (read : readVarint bits shift i bytes = (.complete, n, rest)) :
    ∃ v, n = i + v * 2 ^ shift ∧ bytes = writeVarint v ++ rest ∧ (shift ≠ 0 → v ≠ 0) := by
  induction bytes generalizing shift i with
  | nil => cases read
  | cons byte bytes ih =>
    have small := byte.toNat_lt
    rw [readVarint] at read
    split at read
    · cases read
    split at read
    · cases read
    rename_i allowed
    split at read
    · rename_i last
      cases read
      refine ⟨byte.toNat, by rw [Nat.mod_eq_of_lt last], ?_, fun later zero => allowed ⟨?_, later⟩⟩
      · rw [writeVarint, if_neg (by omega), UInt8.ofNat_toNat]
        rfl
      · exact UInt8.toNat_inj.mp zero
    · rename_i more
      obtain ⟨v, rfl, rfl, nonzero⟩ := ih read
      have positive : v ≠ 0 := nonzero (by omega)
      refine ⟨byte.toNat % 128 + 128 * v, ?_, ?_, fun _ => by omega⟩
      · rw [Nat.add_assoc, group_add]
      · have group : (byte.toNat % 128 + 128 * v) % 128 + 128 = byte.toNat := by
          have top : byte.toNat < 256 := small
          omega
        have above : (byte.toNat % 128 + 128 * v) / 128 = v := by omega
        have large : byte.toNat % 128 + 128 * v ≥ 128 := by omega
        rw [writeVarint.eq_1 (byte.toNat % 128 + 128 * v), if_pos large, group, above,
          UInt8.ofNat_toNat]
        rfl

/-- However the reading ends, the number offered has the width that was asked for. -/
theorem readVarint_lt {bits shift i : Nat} {bytes rest : List UInt8} {ending : VarintEnd} {n : Nat}
    (read : readVarint bits shift i bytes = (ending, n, rest)) (inside : shift < bits)
    (below : i < 2 ^ shift) : n < 2 ^ bits := by
  have grown : 2 ^ shift ≤ 2 ^ bits := Nat.pow_le_pow_right (by decide) (Nat.le_of_lt inside)
  induction bytes generalizing shift i with
  | nil =>
    cases read
    omega
  | cons byte bytes ih =>
    rw [readVarint] at read
    split at read
    · cases read
      omega
    rename_i bounded
    split at read
    · cases read
      omega
    split at read
    · rename_i last
      cases read
      rw [Nat.mod_eq_of_lt last]
      by_cases full : shift + 7 ≥ bits
      · have few : byte.toNat < 2 ^ (bits - shift) := by omega
        have whole : 2 ^ (bits - shift) * 2 ^ shift = 2 ^ bits := by
          rw [← Nat.pow_add, Nat.sub_add_cancel (Nat.le_of_lt inside)]
        have group : (byte.toNat + 1) * 2 ^ shift ≤ 2 ^ (bits - shift) * 2 ^ shift :=
          Nat.mul_le_mul_right _ few
        rw [Nat.add_mul, whole] at group
        omega
      · have group : (byte.toNat + 1) * 2 ^ shift ≤ 128 * 2 ^ shift :=
          Nat.mul_le_mul_right _ last
        have above : 2 ^ (shift + 7) ≤ 2 ^ bits := Nat.pow_le_pow_right (by decide) (by omega)
        rw [Nat.pow_add] at above
        rw [Nat.add_mul] at group
        omega
    · rename_i more
      have room : shift + 7 < bits := by
        by_contra full
        have few : 2 ^ (bits - shift) ≤ 2 ^ 7 := Nat.pow_le_pow_right (by decide) (by omega)
        omega
      have group : (byte.toNat % 128 + 1) * 2 ^ shift ≤ 128 * 2 ^ shift :=
        Nat.mul_le_mul_right _ (by omega)
      refine ih read room ?_ (Nat.pow_le_pow_right (by decide) (Nat.le_of_lt room))
      rw [Nat.pow_add]
      rw [Nat.add_mul] at group
      omega

end Foundation
