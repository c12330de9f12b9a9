import Virie.Construction
import Virie.Foundation.Sorting

/-! # The offsets of a ring

An input lists its ring members as indexes, each relative to the one before, and references by
id after them. Decoding stops at the first reference after the first offset, but takes any first
offset for an index, and raises an exception when an index follows a reference there. Encoding
sorts the offsets with a comparison under which all references are equivalent, and the sort may
exchange them. -/

open Foundation

namespace Virie

/-! ## The encoder over an arbitrary sort -/

/-- The comparison of the encoder: indexes by size and before references, which are not
compared. -/
def offsetLess : TxoutRef → TxoutRef → Bool
  | .index i, .index j => decide (i < j)
  | .index _, .byId _ => true
  | .byId _, _ => false

/-- Sort the offsets and make the indexes relative. -/
def relativeOffsets (sort : List TxoutRef → List TxoutRef) (off : List TxoutRef) :
    List TxoutRef :=
  if off.length < 2 then off else relativeIndexes 0 (sort off)

/-- Indexes and then references. -/
def offsetsOf (indexes : List Nat) (refs : List RefById) : List TxoutRef :=
  indexes.map .index ++ refs.map .byId

/-- Decoding gives back what was encoded. -/
def RoundTrips (sort : List TxoutRef → List TxoutRef) (off : List TxoutRef) : Prop :=
  relativeOutputOffsetsToAbsolute (relativeOffsets sort off) = .ok off

/-- The indexes in rising order and then the references, rearranged. -/
def sortOffsets (rearrange : List TxoutRef → List TxoutRef) (off : List TxoutRef) :
    List TxoutRef :=
  (off.filter TxoutRef.isIndex).mergeSort indexLe ++
    rearrange (off.filter fun ref => !ref.isIndex)

section RingOffsets

variable {off : List TxoutRef} {indexes : List Nat} {refs : List RefById}
  {sort : List TxoutRef → List TxoutRef}

/-! ## Decoding -/

/-- After an index offsets are decoded without an exception. -/
theorem accumulateOffsets_index (p : Nat) (offsets : List TxoutRef) :
    ∃ absolute, accumulateOffsets (.index p) offsets = .ok absolute := by
  induction offsets generalizing p with
  | nil => exact ⟨[], rfl⟩
  | cons offset rest ih =>
    cases offset with
    | byId ref => exact ⟨_, rfl⟩
    | index i =>
      obtain ⟨tail, decoded⟩ := ih (addU64 i p)
      refine ⟨.index (addU64 i p) :: tail, ?_⟩
      rw [accumulateOffsets, decoded]
      rfl

/-- Decoding raises an exception exactly when an index follows a reference at the front. -/
theorem decodes_iff : (∃ absolute, relativeOutputOffsetsToAbsolute off = .ok absolute) ↔
    ¬ ∃ ref i rest, off = .byId ref :: .index i :: rest := by
  cases off with
  | nil =>
    refine iff_of_true ⟨[], rfl⟩ ?_
    rintro ⟨ref, i, rest, same⟩
    cases same
  | cons first rest =>
    cases first with
    | index i =>
      obtain ⟨tail, decoded⟩ := accumulateOffsets_index i rest
      refine iff_of_true ⟨.index i :: tail, ?_⟩ ?_
      · rw [relativeOutputOffsetsToAbsolute, decoded]
        rfl
      · rintro ⟨ref, j, others, same⟩
        cases same
    | byId ref =>
      rcases rest with _ | ⟨(j | other), rest⟩
      · refine iff_of_true ⟨_, rfl⟩ ?_
        rintro ⟨ref, j, others, same⟩
        cases same
      · refine iff_of_false ?_ (not_not.mpr ⟨ref, j, rest, rfl⟩)
        rintro ⟨absolute, decoded⟩
        cases decoded
      · refine iff_of_true ⟨_, rfl⟩ ?_
        rintro ⟨ref, j, others, same⟩
        cases same

/-! ## Decoding what was encoded -/

theorem relativeIndexes_refs (p : Nat) (refs : List RefById) :
    relativeIndexes p (refs.map .byId) = refs.map .byId := by
  cases refs <;> rfl

/-- Relative indexes sum up to the indexes again. -/
theorem accumulate_relative {p : Nat} (rising : (p :: indexes).Pairwise (· ≤ ·))
    (bounded : ∀ i ∈ indexes, i < 2 ^ 64) :
    accumulateOffsets (.index p) (relativeIndexes p (offsetsOf indexes refs)) =
      .ok (offsetsOf indexes refs) := by
  induction indexes generalizing p with
  | nil =>
    change accumulateOffsets _ (relativeIndexes p (refs.map .byId)) = .ok (refs.map .byId)
    rw [relativeIndexes_refs]
    cases refs <;> rfl
  | cons i indexes ih =>
    have above : p ≤ i := (List.pairwise_cons.mp rising).1 i (.head _)
    have sum : addU64 (i - p) p = i := by
      rw [addU64, Nat.sub_add_cancel above, Nat.mod_eq_of_lt (bounded i (.head _))]
    have rest := ih (List.pairwise_cons.mp rising).2 fun j member => bounded j (.tail _ member)
    change accumulateOffsets _ (.index (i - p) :: relativeIndexes i (offsetsOf indexes refs)) =
      .ok (.index i :: offsetsOf indexes refs)
    rw [accumulateOffsets, sum, rest]
    rfl

theorem decode_relative (rising : indexes.Pairwise (· ≤ ·)) (bounded : ∀ i ∈ indexes, i < 2 ^ 64) :
    relativeOutputOffsetsToAbsolute (relativeIndexes 0 (offsetsOf indexes refs)) =
      .ok (offsetsOf indexes refs) := by
  cases indexes with
  | nil =>
    change relativeOutputOffsetsToAbsolute (relativeIndexes 0 (refs.map .byId)) =
      .ok (refs.map .byId)
    rw [relativeIndexes_refs]
    rcases refs with _ | ⟨first, _ | ⟨second, refs⟩⟩ <;> rfl
  | cons i indexes =>
    have rest : accumulateOffsets (.index i) (relativeIndexes i (offsetsOf indexes refs)) =
        .ok (offsetsOf indexes refs) :=
      accumulate_relative rising fun j member => bounded j (.tail _ member)
    change relativeOutputOffsetsToAbsolute
      (.index i :: relativeIndexes i (offsetsOf indexes refs)) =
        .ok (.index i :: offsetsOf indexes refs)
    rw [relativeOutputOffsetsToAbsolute, rest]
    rfl

/-! ## Sorts -/

/-- The indexes among offsets. -/
def indexesOf (off : List TxoutRef) : List Nat :=
  off.filterMap fun
    | .index i => some i
    | .byId _ => none

theorem filter_isIndex (off : List TxoutRef) :
    off.filter TxoutRef.isIndex = (indexesOf off).map .index := by
  induction off with
  | nil => rfl
  | cons offset off ih =>
    cases offset with
    | index i => exact congrArg (TxoutRef.index i :: ·) ih
    | byId ref => exact ih

theorem sort_indexes (indexes : List Nat) :
    (indexes.map TxoutRef.index).mergeSort indexLe =
      (indexes.mergeSort fun i j => decide (i ≤ j)).map .index :=
  (@List.map_mergeSort _ _ (fun i j => decide (i ≤ j)) indexLe TxoutRef.index indexes
    fun _ _ _ _ => rfl).symm

/-- A rearrangement of the references gives a sort. -/
theorem sortsBy_sortOffsets {rearrange : List TxoutRef → List TxoutRef}
    (permutes : ∀ list, (rearrange list).Perm list) :
    SortsBy offsetLess (sortOffsets rearrange) where
  perm off := ((List.mergeSort_perm _ _).append (permutes _)).trans
    (List.filter_append_perm TxoutRef.isIndex off)
  ordered off := by
    have rising : ((indexesOf off).mergeSort fun i j => decide (i ≤ j)).Pairwise (· ≤ ·) :=
      (List.pairwise_mergeSort (fun _ _ _ first second => by
        simp only [decide_eq_true_eq] at *
        exact first.trans second) (fun i j => by
        simp only [Bool.or_eq_true, decide_eq_true_eq]
        exact Nat.le_total i j) _).imp of_decide_eq_true
    rw [sortOffsets, filter_isIndex, sort_indexes, List.pairwise_append, List.pairwise_map]
    refine ⟨rising.imp fun below => decide_eq_false (Nat.not_lt.mpr below), ?_, ?_⟩
    · refine List.pairwise_of_forall_mem_list fun a _ b inside => ?_
      have kept := List.of_mem_filter ((permutes _).mem_iff.mp inside)
      cases b with
      | index i => cases kept
      | byId ref => rfl
    · intro a _ b inside
      have kept := List.of_mem_filter ((permutes _).mem_iff.mp inside)
      cases b with
      | index i => cases kept
      | byId ref => rfl

/-- The sort that keeps the order of the references is the one that transactions are constructed
with. -/
theorem absoluteOutputOffsetsToRelative_eq (off : List TxoutRef) :
    absoluteOutputOffsetsToRelative off = relativeOffsets (sortOffsets id) off := rfl

theorem sortOffsets_offsetsOf (rearrange : List TxoutRef → List TxoutRef)
    (rising : indexes.Pairwise (· ≤ ·)) :
    sortOffsets rearrange (offsetsOf indexes refs) =
      indexes.map .index ++ rearrange (refs.map .byId) := by
  have first : (offsetsOf indexes refs).filter TxoutRef.isIndex = indexes.map .index := by
    rw [offsetsOf, List.filter_append, List.filter_eq_self.mpr, List.filter_eq_nil_iff.mpr,
      List.append_nil]
    · intro offset member
      obtain ⟨ref, _, rfl⟩ := List.mem_map.mp member
      exact Bool.false_ne_true
    · intro offset member
      obtain ⟨i, _, rfl⟩ := List.mem_map.mp member
      rfl
  have second : ((offsetsOf indexes refs).filter fun offset => !offset.isIndex) =
      refs.map .byId := by
    rw [offsetsOf, List.filter_append, List.filter_eq_nil_iff.mpr, List.filter_eq_self.mpr,
      List.nil_append]
    · intro offset member
      obtain ⟨ref, _, rfl⟩ := List.mem_map.mp member
      rfl
    · intro offset member
      obtain ⟨i, _, rfl⟩ := List.mem_map.mp member
      exact Bool.false_ne_true
  rw [sortOffsets, first, second, sort_indexes, List.mergeSort_of_pairwise]
  exact rising.imp decide_eq_true

/-! ## Round trips -/

theorem roundTrips_short (short : off.length < 2) (sort : List TxoutRef → List TxoutRef) :
    RoundTrips sort off := by
  rw [RoundTrips, relativeOffsets, if_pos short]
  rcases off with _ | ⟨first, _ | ⟨second, off⟩⟩
  · rfl
  · rfl
  · simp at short

/-- Rising indexes and equal references come back in order, whatever sort is used. -/
theorem roundTrips_of_equal (rising : indexes.Pairwise (· < ·))
    (bounded : ∀ i ∈ indexes, i < 2 ^ 64) (equal : ∀ a ∈ refs, ∀ b ∈ refs, a = b)
    (sorts : SortsBy offsetLess sort) : RoundTrips sort (offsetsOf indexes refs) := by
  by_cases short : (offsetsOf indexes refs).length < 2
  · exact roundTrips_short short sort
  have same : sort (offsetsOf indexes refs) = offsetsOf indexes refs := by
    apply sorts.fixes
    · rw [offsetsOf, List.pairwise_append, List.pairwise_map, List.pairwise_map]
      refine ⟨rising.imp fun below => decide_eq_false (Nat.lt_asymm below), ?_, ?_⟩
      · exact List.pairwise_of_forall fun _ _ => rfl
      · intro a _ b inside
        obtain ⟨ref, _, rfl⟩ := List.mem_map.mp inside
        rfl
    · intro a inside b insideToo after before
      rcases List.mem_append.mp inside with indexed | referred
      · obtain ⟨i, _, rfl⟩ := List.mem_map.mp indexed
        cases b with
        | index j =>
          rw [offsetLess, decide_eq_false_iff_not] at after before
          rw [Nat.le_antisymm (Nat.not_lt.mp before) (Nat.not_lt.mp after)]
        | byId ref => cases after
      · obtain ⟨ref, member, rfl⟩ := List.mem_map.mp referred
        cases b with
        | index j => cases before
        | byId other =>
          rcases List.mem_append.mp insideToo with indexed | referred
          · obtain ⟨i, _, same⟩ := List.mem_map.mp indexed
            cases same
          · obtain ⟨third, memberToo, same⟩ := List.mem_map.mp referred
            cases same
            rw [equal ref member other memberToo]
  rw [RoundTrips, relativeOffsets, if_neg short, same]
  exact decode_relative (rising.imp Nat.le_of_lt) bounded

/-- A sort that rotates the references gives them back in order only if they are equal. -/
theorem equal_of_rotation (rising : indexes.Pairwise (· < ·))
    (bounded : ∀ i ∈ indexes, i < 2 ^ 64)
    (trip : RoundTrips (sortOffsets fun list => list.rotate 1) (offsetsOf indexes refs)) :
    ∀ a ∈ refs, ∀ b ∈ refs, a = b := by
  have weakly := rising.imp Nat.le_of_lt
  have rotated : refs.rotate 1 = refs := by
    by_cases short : (offsetsOf indexes refs).length < 2
    · rw [offsetsOf, List.length_append, List.length_map, List.length_map] at short
      rcases refs with _ | ⟨first, _ | ⟨second, refs⟩⟩
      · rfl
      · exact List.rotate_singleton _ _
      · rw [List.length_cons, List.length_cons] at short
        omega
    · rw [RoundTrips, relativeOffsets, if_neg short, sortOffsets_offsetsOf _ weakly,
        ← List.map_rotate, ← offsetsOf, decode_relative weakly bounded, Except.ok.injEq, offsetsOf,
        offsetsOf, List.append_cancel_left_eq] at trip
      refine List.map_injective_iff.mpr (fun a b same => ?_) trip
      cases same
      rfl
  have : Nonempty RefById := ⟨default⟩
  obtain ⟨only, constant⟩ := List.rotate_one_eq_self_iff_eq_replicate.mp rotated
  intro a member b memberToo
  rw [constant] at member memberToo
  rw [List.eq_of_mem_replicate member, List.eq_of_mem_replicate memberToo]

/-- Decoding raises an exception exactly when an index follows a reference at the front. Rising
indexes with references after them come back in order from every sort exactly when the references
are equal. -/
theorem ringOffsets_iff (off : List TxoutRef) {indexes : List Nat} {refs : List RefById}
    (rising : indexes.Pairwise (· < ·)) (bounded : ∀ i ∈ indexes, i < 2 ^ 64) :
    ((∃ absolute, relativeOutputOffsetsToAbsolute off = .ok absolute) ↔
      ¬ ∃ ref i rest, off = .byId ref :: .index i :: rest) ∧
    ((∀ sort, SortsBy offsetLess sort → RoundTrips sort (offsetsOf indexes refs)) ↔
      ∀ a ∈ refs, ∀ b ∈ refs, a = b) := by
  refine ⟨decodes_iff, fun always => ?_, ?_⟩
  · apply equal_of_rotation rising bounded
    exact always _ (sortsBy_sortOffsets fun list => List.rotate_perm list 1)
  · intro equal sort sorts
    exact roundTrips_of_equal rising bounded equal sorts

end RingOffsets

/-! ## References at the front, and two references -/

namespace MixedOffsets

def firstRef : RefById := ⟨⟨1⟩, 0⟩
def secondRef : RefById := ⟨⟨2⟩, 0⟩

/-- The decoder raises an exception for a reference with an index after it, and a sort may exchange
two references. -/
theorem unreadable_and_exchanged :
    (¬ ∃ absolute, relativeOutputOffsetsToAbsolute [.byId firstRef, .index 0] = .ok absolute) ∧
    ∃ sort, SortsBy offsetLess sort ∧ ¬ RoundTrips sort (offsetsOf [3] [firstRef, secondRef]) := by
  refine ⟨?_, sortOffsets fun list => list.rotate 1,
    sortsBy_sortOffsets fun list => List.rotate_perm list 1, ?_⟩
  · rintro ⟨absolute, decoded⟩
    cases decoded
  · intro trip
    have equal := equal_of_rotation (by decide) (by decide) trip firstRef (by decide) secondRef
      (by decide)
    exact absurd equal (by decide)

/-- Two indexes with the same reference twice come back in order. -/
theorem repeated_roundTrips :
    RoundTrips (sortOffsets List.reverse) (offsetsOf [3, 7] [firstRef, firstRef]) :=
  ((ringOffsets_iff [] (by decide) (by decide)).2.mpr (by decide)) _
    (sortsBy_sortOffsets List.reverse_perm)

end MixedOffsets
end Virie
