import Virie.PortableStorage.Loading

/-! # Blobs of portable storage

A section goes into a blob and comes out of it unless it is nested too deeply, which depends on
nothing but the section. Whatever blob a peer sends: what is read from it is no larger than the
blob, and storing it again gives a blob that is read as the same section. -/

open Foundation Foundation.Reader

namespace Virie.PortableStorage

theorem storageBlockHeader_length : storageBlockHeader.length = 9 := rfl

/-- Behind its header a blob is read as a section. -/
theorem loadFromBinary_header {body : List UInt8} (some : body ≠ []) :
    loadFromBinary (storageBlockHeader ++ body) = (readSection 99 body).map Prod.fst := by
  have long : 9 ≤ (storageBlockHeader ++ body).length := by
    rw [List.length_append, storageBlockHeader_length]
    exact Nat.le_add_right 9 _
  have front : (storageBlockHeader ++ body).take 9 = storageBlockHeader :=
    List.take_left' storageBlockHeader_length
  have back : (storageBlockHeader ++ body).drop 9 = body :=
    List.drop_left' storageBlockHeader_length
  rw [loadFromBinary, front, back, if_neg]
  · rfl
  · rintro (short | other | none)
    · omega
    · exact other rfl
    · exact some none

theorem of_loadFromBinary {blob : List UInt8} {s : Section}
    (loaded : loadFromBinary blob = some s) :
    ∃ body rest, blob = storageBlockHeader ++ body ∧ readSection 99 body = some (s, rest) := by
  unfold loadFromBinary at loaded
  split at loaded
  · cases loaded
  · next good =>
    obtain ⟨⟨found, rest⟩, read, same⟩ := Option.map_eq_some_iff.mp loaded
    cases same
    refine ⟨blob.drop 9, rest, ?_, read⟩
    have front : blob.take 9 = storageBlockHeader := by
      by_contra other
      exact good (.inr (.inl other))
    rw [← front, List.take_append_drop]

theorem Section.stored {s : Section} (fits : s.Fits 255) :
    Stored s.packEntryToBuff s.size readSection s.calls s :=
  stored_section fits.1.1 fits.1.2 (s.storedEntries fits.2)

/-- A packed section behind the header. -/
theorem loadFromBinary_packed {s : Section} {out : List UInt8} (length : out.length = s.size)
    (reads : ∀ budget, Reads (readSection budget) (s.calls ≤ budget) out s) (behind : List UInt8) :
    loadFromBinary (storageBlockHeader ++ out ++ behind) =
      if s.calls < epeePortableStorageRecursionLimit then some s else none := by
  have filled : out ++ behind ≠ [] := by
    intro none
    have short := congrArg List.length none
    have one := varintSize_pos s.length
    rw [List.length_append, length, Section.size, List.length_nil] at short
    omega
  rw [List.append_assoc, loadFromBinary_header filled]
  split
  · next few =>
    rw [(reads 99).returns (Nat.le_of_lt_succ few)]
    rfl
  · next many =>
    rw [(reads 99).fails fun few => many (Nat.lt_succ_of_le few)]
    rfl

/-- The blob of a section has the size of the section. It is read as the section, whatever follows
it, if not too many calls are in progress at the same time, and is refused otherwise. -/
theorem loadFromBinary_storeToBinary (s : Section) (fits : s.Fits 255) :
    ∃ blob, storeToBinary s = some blob ∧ blob.length = 9 + s.size ∧
      ∀ behind, loadFromBinary (blob ++ behind) =
        if s.calls < epeePortableStorageRecursionLimit then some s else none := by
  obtain ⟨out, packed, length, reads⟩ := s.stored fits
  refine ⟨storageBlockHeader ++ out, ?_, ?_, loadFromBinary_packed length reads⟩
  · rw [storeToBinary, packed]
    rfl
  · rw [List.length_append, storageBlockHeader_length, length]

/-- An answer with a status and a section of its own. -/
def answer : Section :=
  .cons [99] (.object (.cons [104] (.pod .uint64 300) .nil)) (.cons [115] (.string [79, 75]) .nil)

theorem answer_fits : answer.Fits 255 :=
  have number : (300 : Nat) < 256 ^ 8 := by decide
  have status : 2 < maxStringLenPossible := by decide
  ⟨⟨by decide, by decide⟩, ⟨by decide, ⟨by decide, by decide⟩, ⟨by decide, number⟩, trivial⟩,
    ⟨by decide, status⟩, trivial⟩

theorem loadFromBinary_storeToBinary_answer : ∃ blob, storeToBinary answer = some blob ∧
    blob.length = 31 ∧ ∀ behind, loadFromBinary (blob ++ behind) = some answer :=
  loadFromBinary_storeToBinary answer answer_fits

/-- Two sections whose blobs start alike are the same, however deep they are. -/
theorem storeToBinary_injective {s other : Section} (fits : s.Fits 255) (fitsToo : other.Fits 255)
    {blob behind : List UInt8} (stored : storeToBinary s = some blob)
    (storedToo : storeToBinary other = some (blob ++ behind)) : s = other := by
  obtain ⟨out, packed, _, reads⟩ := s.stored fits
  obtain ⟨outToo, packedToo, _, readsToo⟩ := other.stored fitsToo
  rw [storeToBinary, packed] at stored
  rw [storeToBinary, packedToo] at storedToo
  cases stored
  have same : outToo = out ++ behind := by
    have whole := Option.some.inj storedToo
    rw [List.append_assoc] at whole
    exact List.append_cancel_left whole
  have first := (reads (max s.calls other.calls)).returns (Nat.le_max_left _ _) behind
  have second := (readsToo (max s.calls other.calls)).returns (Nat.le_max_right _ _) []
  rw [List.append_nil, same, first] at second
  exact congrArg Prod.fst (Option.some.inj second)

theorem storeToBinary_injective_answer : answer = answer :=
  @storeToBinary_injective answer answer answer_fits answer_fits _ [] rfl rfl

/-! ## Blobs of others -/

/-- What is read from any blob has its names in order and its numbers in range, is not nested too
deeply, and is no larger than the blob. -/
theorem of_loadFromBinary_size {blob : List UInt8} {s : Section}
    (loaded : loadFromBinary blob = some s) :
    s.Fits 256 ∧ s.calls < epeePortableStorageRecursionLimit ∧ 9 + s.size ≤ blob.length := by
  obtain ⟨body, rest, rfl, read⟩ := of_loadFromBinary loaded
  obtain ⟨used, length, ⟨fits, few⟩, size⟩ := yields_readSection 99 body s rest read
  refine ⟨fits, Nat.lt_succ_of_le few, ?_⟩
  rw [List.length_append, storageBlockHeader_length]
  omega

mutual

/-- What can be packed has no name that is too long. -/
theorem StorageEntry.fits_of_packed : ∀ e : StorageEntry, e.Fits 256 →
    ∀ out, e.packEntryToBuff = some out → e.Fits 255
  | .pod _ _, fits, _, _ => fits
  | .string _, fits, _, _ => fits
  | .object s, fits, out, packed => by
    obtain ⟨inner, isInner, _⟩ := Option.map_eq_some_iff.mp packed
    obtain ⟨_, _, isMore⟩ := Option.bind_eq_some_iff.mp isInner
    obtain ⟨entries, isEntries, _⟩ := Option.bind_eq_some_iff.mp isMore
    exact ⟨fits.1, s.fits_of_packed fits.2 entries isEntries⟩
  | .array a, fits, out, packed => a.fits_of_packed fits out packed

theorem ArrayEntry.fits_of_packed : ∀ a : ArrayEntry, a.Fits 256 →
    ∀ out, a.packEntryToBuff = some out → a.Fits 255
  | .pods _ _, fits, _, _ => fits
  | .strings _, fits, _, _ => fits
  | .objects ss, fits, out, packed => by
    obtain ⟨inner, isInner, _⟩ := Option.map_eq_some_iff.mp packed
    obtain ⟨_, _, isMore⟩ := Option.bind_eq_some_iff.mp isInner
    obtain ⟨items, isItems, _⟩ := Option.bind_eq_some_iff.mp isMore
    exact ⟨fits.1, ss.fits_of_packed fits.2 items isItems⟩
  | .arrays, fits, _, _ => fits

theorem Section.fits_of_packed : ∀ s : Section, s.FitsEntries 256 →
    ∀ out, s.packEntries = some out → s.FitsEntries 255
  | .nil, _, _, _ => trivial
  | .cons name e rest, fits, out, packed => by
    rw [Section.packEntries] at packed
    split at packed
    · next short =>
      obtain ⟨front, isFront, isMore⟩ := Option.bind_eq_some_iff.mp packed
      obtain ⟨back, isBack, _⟩ := Option.bind_eq_some_iff.mp isMore
      exact ⟨⟨short, e.fits_of_packed fits.1.2 front isFront⟩,
        rest.fits_of_packed fits.2 back isBack⟩
    · cases packed

theorem Sections.fits_of_packed : ∀ ss : Sections, ss.FitsItems 256 →
    ∀ out, ss.packItems = some out → ss.FitsItems 255
  | .nil, _, _, _ => trivial
  | .cons s rest, fits, out, packed => by
    obtain ⟨front, isFront, isMore⟩ := Option.bind_eq_some_iff.mp packed
    obtain ⟨back, isBack, _⟩ := Option.bind_eq_some_iff.mp isMore
    obtain ⟨_, _, isInner⟩ := Option.bind_eq_some_iff.mp isFront
    obtain ⟨entries, isEntries, _⟩ := Option.bind_eq_some_iff.mp isInner
    exact ⟨⟨fits.1.1, s.fits_of_packed fits.1.2 entries isEntries⟩,
      rest.fits_of_packed fits.2 back isBack⟩

end

/-- What is read from any blob has its names in order and its numbers in range, is not nested too
deeply and is no larger than the blob. It is stored again in a blob no longer than the one it came
from, which is read as the same section; only a name of 255 bytes keeps it from being stored. -/
theorem storeToBinary_loadFromBinary {blob : List UInt8} {s : Section}
    (loaded : loadFromBinary blob = some s) :
    (s.Fits 256 ∧ s.calls < epeePortableStorageRecursionLimit ∧ 9 + s.size ≤ blob.length) ∧
      (s.Fits 255 → ∃ again, storeToBinary s = some again ∧ again.length ≤ blob.length ∧
        ∀ behind, loadFromBinary (again ++ behind) = some s) ∧
      (¬ s.Fits 255 → storeToBinary s = none) := by
  obtain ⟨fits, few, size⟩ := of_loadFromBinary_size loaded
  refine ⟨⟨fits, few, size⟩, ?_, ?_⟩
  · intro short
    obtain ⟨out, packed, length, reads⟩ := s.stored short
    refine ⟨storageBlockHeader ++ out, ?_, ?_, fun behind => ?_⟩
    · rw [storeToBinary, packed]
      rfl
    · rw [List.length_append, storageBlockHeader_length, length]
      exact size
    · rw [loadFromBinary_packed length reads, if_pos few]
  · intro long
    by_contra isSome
    obtain ⟨again, stored⟩ := Option.ne_none_iff_exists'.mp isSome
    obtain ⟨packed, isPacked, _⟩ := Option.map_eq_some_iff.mp stored
    obtain ⟨_, _, isMore⟩ := Option.bind_eq_some_iff.mp isPacked
    obtain ⟨entries, isEntries, _⟩ := Option.bind_eq_some_iff.mp isMore
    exact long ⟨fits.1, s.fits_of_packed fits.2 entries isEntries⟩

/-- The blob has an entry twice, a size in two bytes and a byte behind it. -/
theorem storeToBinary_loadFromBinary_twice :
    ∃ again, storeToBinary (.cons [99] (.pod .bool 1) .nil) = some again ∧ again.length ≤ 20 ∧
      ∀ behind, loadFromBinary (again ++ behind) = some (.cons [99] (.pod .bool 1) .nil) :=
  have loaded : loadFromBinary
      (storageBlockHeader ++ [9, 0, 1, 99, 11, 1, 1, 99, 11, 0, 7]) =
        some (.cons [99] (.pod .bool 1) .nil) := rfl
  have one : 1 < 256 ^ 1 := by decide
  (storeToBinary_loadFromBinary loaded).2.1 ⟨⟨by decide, by decide⟩, ⟨by decide, one⟩, trivial⟩

end Virie.PortableStorage
