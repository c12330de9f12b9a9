import Virie.PortableStorage.Reading

/-! # What is read can be stored

Whatever the bytes are: a value that a function of the reader returns is in the range of its type,
its calls fit into the budget, and it takes no more bytes than were read for it. -/

open Foundation Foundation.Reader

namespace Virie.PortableStorage

section Pieces

variable {α : Type}

theorem yields_limitation {body : Nat → Reader α} {P : Nat → α → Nat → Prop}
    (yields : ∀ budget, Yields (body budget) (P budget)) (budget : Nat) :
    Yields (recursionLimitation body budget) fun v used =>
      ∃ less, budget = less + 1 ∧ P less v used := by
  cases budget with
  | zero => exact yields_failure
  | succ less => exact (yields less).imp fun _ _ holds => ⟨less, rfl, holds⟩

theorem yields_readBytes (count budget : Nat) :
    Yields (readBytes count budget) fun bytes used =>
      1 ≤ budget ∧ bytes.length = count ∧ used = count := by
  refine (yields_limitation (fun _ => yields_take count) budget).imp ?_
  rintro bytes used ⟨less, isMore, holds⟩
  exact ⟨by omega, holds⟩

theorem yields_readPod (size budget : Nat) :
    Yields (readPod size budget) fun v used => 2 ≤ budget ∧ v < 256 ^ size ∧ used = size := by
  have raw (budget : Nat) := yields_limitation (fun _ => yields_uint size) budget
  refine (yields_limitation raw budget).imp ?_
  rintro v used ⟨less, isMore, more, isLess, fits, same⟩
  exact ⟨by omega, fits, same⟩

theorem yields_readValue (size budget : Nat) :
    Yields (readValue size budget) fun v used => 3 ≤ budget ∧ v < 256 ^ size ∧ used = size := by
  refine (yields_limitation (yields_readPod size) budget).imp ?_
  rintro v used ⟨less, isMore, enough, rest⟩
  exact ⟨by omega, rest⟩

theorem yields_readSecName (budget : Nat) :
    Yields (readSecName budget) fun name used =>
      3 ≤ budget ∧ name.length < 256 ∧ 1 + name.length = used := by
  have body (budget : Nat) : Yields (do
      let nameLen ← readPod 1 budget
      readBytes nameLen budget) fun name used =>
        2 ≤ budget ∧ name.length < 256 ∧ 1 + name.length = used := by
    refine (yields_readPod 1 budget).bind ?_
    rintro nameLen used ⟨enough, small, one⟩
    refine (yields_readBytes nameLen budget).imp ?_
    rintro name more ⟨_, length, all⟩
    exact ⟨enough, by omega, by omega⟩
  refine (yields_limitation body budget).imp ?_
  rintro name used ⟨less, isMore, enough, rest⟩
  exact ⟨by omega, rest⟩

theorem varintSize_le {mask v : Nat} (marks : mask < 4) (fits : v < 256 ^ 2 ^ mask) :
    v / 4 ≤ maxCount ∧ varintSize (v / 4) ≤ 2 ^ mask := by
  unfold varintSize maxCount
  have cases : mask = 0 ∨ mask = 1 ∨ mask = 2 ∨ mask = 3 := by omega
  rcases cases with rfl | rfl | rfl | rfl
  all_goals
    norm_num at fits ⊢
    refine ⟨by omega, ?_⟩
    split_ifs <;> omega

theorem varintSize_mono {a b : Nat} (less : a ≤ b) : varintSize a ≤ varintSize b := by
  unfold varintSize
  split_ifs <;> omega

theorem yields_readVarint (budget : Nat) :
    Yields (readVarint budget) fun v used =>
      4 ≤ budget ∧ v ≤ maxCount ∧ varintSize v ≤ used := by
  unfold readVarint
  refine (@yields_limitation _ _ (fun budget v used =>
    3 ≤ budget ∧ v ≤ maxCount ∧ varintSize v ≤ used) (fun budget => ?_) budget).imp ?_
  · refine yields_peek fun bytes => ?_
    cases bytes with
    | nil => exact yields_failure
    | cons first rest =>
      refine (yields_readValue _ budget).bind ?_
      rintro v used ⟨enough, fits, all⟩
      refine yields_pure ?_
      obtain ⟨small, short⟩ := varintSize_le (Nat.mod_lt _ (by decide)) fits
      exact ⟨enough, small, by omega⟩
  · rintro v used ⟨less, isMore, enough, rest⟩
    exact ⟨by omega, rest⟩

/-- A string that is in range and was paid for. -/
theorem yields_readStringValue (budget : Nat) :
    Yields (readStringValue budget) fun v used =>
      (v.length < maxStringLenPossible ∧ 6 ≤ budget) ∧ varintSize v.length + v.length ≤ used := by
  have body (budget : Nat) : Yields (do
      let len ← readVarint budget
      if len < maxStringLenPossible then Reader.take len else failure) fun v used =>
        4 ≤ budget ∧ v.length < maxStringLenPossible ∧ varintSize v.length + v.length ≤ used := by
    refine (yields_readVarint budget).bind ?_
    rintro len used ⟨enough, _, paid⟩
    split
    · next short =>
      refine (yields_take len).imp ?_
      rintro v more ⟨length, all⟩
      refine ⟨enough, ?_, ?_⟩
      · rwa [length]
      · rw [length]
        omega
    · exact yields_failure
  refine (yields_limitation (yields_limitation body) budget).imp ?_
  rintro v used ⟨less, isMore, least, isLess, enough, short, paid⟩
  exact ⟨⟨short, by omega⟩, paid⟩

/-- The items of an array of plain values or of strings. -/
theorem yields_readAe {read : Nat → Reader α} {fits : α → Prop} {weight : α → Nat} {need : Nat}
    (build : List α → ArrayEntry)
    (yields : ∀ budget, Yields (read budget) fun v used =>
      (fits v ∧ need ≤ budget) ∧ weight v ≤ used) (budget : Nat) :
    Yields (readAe read build budget) fun e used =>
      ∃ vs, e = .array (build vs) ∧ vs.length ≤ maxCount ∧ (∀ v ∈ vs, fits v) ∧
        5 ≤ budget ∧ (vs = [] ∨ need < budget) ∧
        varintSize vs.length + (vs.map weight).sum ≤ used := by
  have body (budget : Nat) : Yields (do
      let size ← readVarint budget
      let vs ← Reader.items (read budget) size
      pure (StorageEntry.array (build vs))) fun e used =>
        ∃ vs, e = .array (build vs) ∧ vs.length ≤ maxCount ∧ (∀ v ∈ vs, fits v) ∧
          4 ≤ budget ∧ (vs = [] ∨ need ≤ budget) ∧
          varintSize vs.length + (vs.map weight).sum ≤ used := by
    refine (yields_readVarint budget).bind ?_
    rintro size used ⟨enough, small, paid⟩
    refine ((yields budget).items size).bind ?_
    rintro vs more ⟨length, all, paidToo⟩
    refine yields_pure ⟨vs, rfl, by omega, fun v member => (all v member).1, enough, ?_, ?_⟩
    · cases vs with
      | nil => exact .inl rfl
      | cons v vs => exact .inr (all v (.head _)).2
    · rw [length]
      omega
  refine (yields_limitation body budget).imp ?_
  rintro e used ⟨less, isMore, vs, same, small, fit, enough, needs, paid⟩
  exact ⟨vs, same, small, fit, by omega, needs.imp id fun enough => by omega, paid⟩

end Pieces

/-! ## Sections -/

namespace Section

/-- Entries that are in range, in a section. -/
theorem ofList_laws {names most : Nat} {entries : List (List UInt8 × StorageEntry)}
    (all : ∀ entry ∈ entries,
      (entry.1.length < names ∧ entry.2.Fits names) ∧ entry.2.calls ≤ most) :
    (ofList entries).names.Pairwise nameLt ∧ (ofList entries).FitsEntries names ∧
      (ofList entries).length ≤ entries.length ∧ (ofList entries).callsEntries ≤ most ∧
      (ofList entries).sizeEntries ≤
        (entries.map fun entry => 1 + entry.1.length + entry.2.size).sum := by
  -- The induction takes the entries from the back, where the last one is inserted.
  induction entries using List.reverseRecOn with
  | nil => exact ⟨List.Pairwise.nil, trivial, Nat.le_refl 0, Nat.zero_le most, Nat.le_refl 0⟩
  | append_singleton entries entry ih =>
    obtain ⟨ordered, fits, length, calls, size⟩ :=
      ih fun other member => all other (List.mem_append_left _ member)
    obtain ⟨fit, few⟩ := all entry (List.mem_append_right _ (.head _))
    have last : ofList (entries ++ [entry]) = (ofList entries).insert entry.1 entry.2 := by
      rw [ofList, List.foldl_append]
      rfl
    have longer := length_insert_le entry.1 entry.2 (ofList entries)
    have deeper := callsEntries_insert_le entry.1 entry.2 (ofList entries)
    have larger := sizeEntries_insert_le entry.1 entry.2 (ofList entries)
    rw [last]
    refine ⟨ordered_insert _ ordered, fitsEntries_insert fit _ fits, ?_, ?_, ?_⟩
    · rw [List.length_append, List.length_singleton]
      omega
    · omega
    · rw [List.map_append, List.sum_append, List.map_singleton, List.sum_singleton]
      omega

end Section

namespace Sections

/-- Sections that are in range, in an array. -/
theorem ofList_laws {names most : Nat} : ∀ {vs : List Section},
    (∀ s ∈ vs, s.Fits names ∧ s.calls < most) →
      (ofList vs).FitsItems names ∧ (ofList vs).length = vs.length ∧
        (ofList vs).callsItems ≤ most ∧ (ofList vs).sizeItems = (vs.map Section.size).sum
  | [], _ => ⟨trivial, rfl, Nat.zero_le most, rfl⟩
  | s :: vs, all => by
    obtain ⟨fits, length, calls, size⟩ := ofList_laws fun s member => all s (.tail _ member)
    obtain ⟨fit, few⟩ := all s (.head _)
    refine ⟨⟨fit, fits⟩, by rw [ofList, Sections.length, length, List.length_cons], ?_, ?_⟩
    · rw [Section.calls] at few
      rw [ofList, callsItems]
      omega
    · rw [ofList, sizeItems, size, List.map_cons, List.sum_cons, Section.size]

end Sections

/-- An entry in range, with its calls and its size. Part of both may have been spent already. -/
def StorageEntry.Paid (e : StorageEntry) (budget used : Nat) : Prop :=
  (e.Fits 256 ∧ e.calls ≤ budget) ∧ e.size ≤ used

theorem yields_pod (type : PodType) (budget : Nat) :
    Yields (recursionLimitation (fun budget => do
      let v ← readPod type.size budget
      pure (StorageEntry.pod type v)) budget) fun e used => e.Paid (budget + 1) (used + 1) := by
  have body (budget : Nat) : Yields (do
      let v ← readPod type.size budget
      pure (StorageEntry.pod type v)) fun e used => e.Paid (budget + 2) (used + 1) := by
    refine (yields_readPod type.size budget).bind ?_
    rintro v used ⟨enough, fits, same⟩
    refine yields_pure ⟨⟨fits, ?_⟩, ?_⟩
    · rw [StorageEntry.calls]
      omega
    · rw [StorageEntry.size]
      omega
  refine (yields_limitation body budget).imp ?_
  rintro e used ⟨less, rfl, paid⟩
  exact paid

theorem yields_string (budget : Nat) :
    Yields (recursionLimitation (fun budget => do
      let v ← readStringValue budget
      pure (StorageEntry.string v)) budget) fun e used => e.Paid (budget + 1) (used + 1) := by
  have body (budget : Nat) : Yields (do
      let v ← readStringValue budget
      pure (StorageEntry.string v)) fun e used => e.Paid (budget + 2) (used + 1) := by
    refine (yields_readStringValue budget).bind ?_
    rintro v used ⟨⟨short, enough⟩, size⟩
    refine yields_pure ⟨⟨short, ?_⟩, ?_⟩
    · rw [StorageEntry.calls]
      omega
    · rw [StorageEntry.size]
      omega
  refine (yields_limitation body budget).imp ?_
  rintro e used ⟨less, rfl, paid⟩
  exact paid

theorem yields_pods (type : PodType) (budget : Nat) :
    Yields (readAe (readValue type.size) (.pods type) budget) fun e used =>
      e.Paid (budget + 2) (used + 1) := by
  refine (@yields_readAe _ _ (· < 256 ^ type.size) (fun _ => type.size) 3 (.pods type)
    (fun budget => ?_) budget).imp ?_
  · refine (yields_readValue type.size budget).imp ?_
    rintro v used ⟨enough, fits, same⟩
    exact ⟨⟨fits, enough⟩, by omega⟩
  · rintro e used ⟨vs, rfl, small, fits, enough, _, paid⟩
    rw [List.map_const', List.sum_replicate, smul_eq_mul] at paid
    refine ⟨⟨?_, ?_⟩, ?_⟩
    · exact ⟨small, fits⟩
    · rw [StorageEntry.calls, ArrayEntry.calls]
      omega
    · rw [StorageEntry.size, ArrayEntry.size]
      omega

theorem yields_strings (budget : Nat) :
    Yields (readAe readStringValue .strings budget) fun e used =>
      e.Paid (budget + 2) (used + 1) := by
  refine (yields_readAe .strings yields_readStringValue budget).imp ?_
  rintro e used ⟨vs, rfl, small, fits, enough, needs, paid⟩
  refine ⟨⟨⟨small, fits⟩, ?_⟩, ?_⟩
  · rw [StorageEntry.calls, ArrayEntry.calls]
    rcases needs with none | more
    · rw [if_pos none]
      omega
    · split <;> omega
  · rw [StorageEntry.size, ArrayEntry.size]
    omega

theorem varintSize_pos (val : Nat) : 1 ≤ varintSize val := by
  unfold varintSize
  split_ifs <;> omega

theorem yields_arrays (budget : Nat) :
    Yields (readAe (fun _ => (failure : Reader Unit)) (fun _ => .arrays) budget) fun e used =>
      e.Paid (budget + 2) (used + 1) := by
  refine (@yields_readAe _ _ (fun _ => False) (fun _ => 0) 0 (fun _ => .arrays)
    (fun _ => yields_failure) budget).imp ?_
  rintro e used ⟨vs, rfl, _, _, enough, _, paid⟩
  have one := varintSize_pos vs.length
  refine ⟨⟨trivial, ?_⟩, ?_⟩
  · rw [StorageEntry.calls, ArrayEntry.calls]
    omega
  · rw [StorageEntry.size, ArrayEntry.size]
    omega

mutual

theorem yields_readSection : ∀ budget, Yields (readSection budget) fun s used =>
    (s.Fits 256 ∧ s.calls ≤ budget) ∧ s.size ≤ used
  | 0 => yields_failure
  | budget + 1 => by
    have entry : Yields (do
        let secName ← readSecName budget
        let e ← loadStorageEntry budget
        pure (secName, e)) fun entry used =>
          ((entry.1.length < 256 ∧ entry.2.Fits 256) ∧ entry.2.calls ≤ budget) ∧
            1 + entry.1.length + entry.2.size ≤ used := by
      refine (yields_readSecName budget).bind ?_
      rintro secName used ⟨_, short, paid⟩
      refine (yields_loadStorageEntry budget).bind ?_
      rintro e more ⟨⟨fits, few⟩, size⟩
      exact yields_pure ⟨⟨⟨short, fits⟩, few⟩, by dsimp only; omega⟩
    rw [readSection]
    refine (yields_readVarint budget).bind ?_
    rintro count used ⟨enough, small, paid⟩
    refine (entry.items count).bind ?_
    rintro entries more ⟨length, all, paidToo⟩
    obtain ⟨ordered, fits, shorter, few, size⟩ := Section.ofList_laws all
    have varint := varintSize_mono (shorter.trans_eq length)
    refine yields_pure ⟨⟨⟨⟨by omega, ordered⟩, fits⟩, ?_⟩, ?_⟩
    · rw [Section.calls]
      omega
    · rw [Section.size]
      omega

theorem yields_loadStorageEntry : ∀ budget, Yields (loadStorageEntry budget) fun e used =>
    e.Paid budget used
  | 0 => yields_failure
  | budget + 1 => by
    rw [loadStorageEntry]
    refine (yields_readPod 1 budget).bind ?_
    rintro entType used ⟨_, _, rfl⟩
    simp only [Nat.add_comm 1]
    split
    · exact yields_loadStorageArrayEntry budget entType
    split
    · exact yields_pod _ budget
    split
    · exact yields_string budget
    split
    · exact yields_readSeObject budget
    split
    · exact yields_readSeArray budget
    · exact yields_failure

theorem yields_readSeObject : ∀ budget, Yields (readSeObject budget) fun e used =>
    e.Paid (budget + 1) (used + 1)
  | 0 => yields_failure
  | budget + 1 => by
    rw [readSeObject]
    refine (yields_readSection budget).bind ?_
    rintro s used ⟨⟨fits, few⟩, size⟩
    refine yields_pure ⟨⟨fits, ?_⟩, ?_⟩
    · rw [Section.calls] at few
      rw [StorageEntry.calls]
      omega
    · rw [Section.size] at size
      rw [StorageEntry.size]
      omega

theorem yields_readSeArray : ∀ budget, Yields (readSeArray budget) fun e used =>
    e.Paid (budget + 1) (used + 1)
  | 0 => yields_failure
  | budget + 1 => by
    rw [readSeArray]
    refine (yields_readPod 1 budget).bind ?_
    rintro entType used ⟨_, _, rfl⟩
    split
    · refine (yields_loadStorageArrayEntry budget entType).imp ?_
      rintro e more ⟨⟨fits, few⟩, size⟩
      exact ⟨⟨fits, by omega⟩, by omega⟩
    · exact yields_failure

theorem yields_loadStorageArrayEntry : ∀ budget entType,
    Yields (loadStorageArrayEntry budget entType) fun e used => e.Paid (budget + 1) (used + 1)
  | 0, _ => yields_failure
  | budget + 1, entType => by
    rw [loadStorageArrayEntry]
    split
    · exact yields_pods _ budget
    split
    · exact yields_strings budget
    split
    · exact yields_readAeObjects budget
    split
    · exact yields_arrays budget
    · exact yields_failure

theorem yields_readAeObjects : ∀ budget, Yields (readAeObjects budget) fun e used =>
    e.Paid (budget + 2) (used + 1)
  | 0 => yields_failure
  | budget + 1 => by
    rw [readAeObjects]
    refine (yields_readVarint budget).bind ?_
    rintro count used ⟨enough, small, paid⟩
    refine ((yields_readObjectValue budget).items count).bind ?_
    rintro vs more ⟨length, all, paidToo⟩
    obtain ⟨fits, same, few, size⟩ := Sections.ofList_laws all
    refine yields_pure ⟨⟨⟨by omega, fits⟩, ?_⟩, ?_⟩
    · rw [StorageEntry.calls, ArrayEntry.calls]
      omega
    · rw [StorageEntry.size, ArrayEntry.size, size, same, length]
      omega

theorem yields_readObjectValue : ∀ budget, Yields (readObjectValue budget) fun s used =>
    (s.Fits 256 ∧ s.calls < budget) ∧ s.size ≤ used
  | 0 => yields_failure
  | budget + 1 => by
    rw [readObjectValue]
    refine (yields_readSection budget).imp ?_
    rintro s used ⟨⟨fits, few⟩, size⟩
    exact ⟨⟨fits, Nat.lt_succ_of_le few⟩, size⟩

end

end Virie.PortableStorage
