import Virie.PortableStorage.Format

/-! # Laws of portable storage

Every function of the reader returns what was stored if the calls that are in progress at the same
time fit into the budget, and fails otherwise. What it returns is always a section that can be
stored, in no more bytes than it was read from. -/

open Foundation Foundation.Reader

namespace Virie.PortableStorage

/-- The largest size that can be stored. -/
def maxCount : Nat := 4611686018427387903

/-! ## Sections that can be stored -/

section Fits

-- Names are shorter than this.
variable (names : Nat)

mutual

def StorageEntry.Fits : StorageEntry → Prop
  | .pod type v => v < 256 ^ type.size
  | .string v => v.length < maxStringLenPossible
  | .object s => (s.length ≤ maxCount ∧ s.names.Pairwise Section.nameLt) ∧ s.FitsEntries
  | .array a => a.Fits

def ArrayEntry.Fits : ArrayEntry → Prop
  | .pods type vs => vs.length ≤ maxCount ∧ ∀ v ∈ vs, v < 256 ^ type.size
  | .strings vs => vs.length ≤ maxCount ∧ ∀ v ∈ vs, v.length < maxStringLenPossible
  | .objects ss => ss.length ≤ maxCount ∧ ss.FitsItems
  | .arrays => True

def Section.FitsEntries : Section → Prop
  | .nil => True
  | .cons name e rest => (name.length < names ∧ e.Fits) ∧ rest.FitsEntries

def Sections.FitsItems : Sections → Prop
  | .nil => True
  | .cons s rest =>
    ((s.length ≤ maxCount ∧ s.names.Pairwise Section.nameLt) ∧ s.FitsEntries) ∧ rest.FitsItems

end

/-- A section of the range of the types, with its names in order. -/
def Section.Fits (s : Section) : Prop :=
  (s.length ≤ maxCount ∧ s.names.Pairwise Section.nameLt) ∧ s.FitsEntries names

end Fits

/-! ## Calls in progress -/

mutual

/-- How many calls are in progress at the same time when an entry is read. -/
def StorageEntry.calls : StorageEntry → Nat
  | .pod _ _ => 4
  | .string _ => 8
  | .object s => 3 + max 4 s.callsEntries
  | .array a => 1 + a.calls

def ArrayEntry.calls : ArrayEntry → Nat
  | .pods _ _ => 6
  | .strings vs => if vs = [] then 6 else 8
  | .objects ss => 2 + max 4 ss.callsItems
  | .arrays => 6

def Section.callsEntries : Section → Nat
  | .nil => 0
  | .cons _ e rest => max e.calls rest.callsEntries

def Sections.callsItems : Sections → Nat
  | .nil => 0
  | .cons s rest => max (2 + max 4 s.callsEntries) rest.callsItems

end

/-- How many calls are in progress at the same time when a section is read. -/
def Section.calls (s : Section) : Nat := 1 + max 4 s.callsEntries

/-! ## Sizes -/

/-- The number of bytes of a size. -/
def varintSize (val : Nat) : Nat :=
  if val ≤ 63 then 1 else if val ≤ 16383 then 2 else if val ≤ 1073741823 then 4 else 8

mutual

/-- The number of bytes of an entry. -/
def StorageEntry.size : StorageEntry → Nat
  | .pod type _ => 1 + type.size
  | .string v => 1 + (varintSize v.length + v.length)
  | .object s => 1 + (varintSize s.length + s.sizeEntries)
  | .array a => a.size

def ArrayEntry.size : ArrayEntry → Nat
  | .pods type vs => 1 + (varintSize vs.length + vs.length * type.size)
  | .strings vs =>
    1 + (varintSize vs.length + (vs.map fun v => varintSize v.length + v.length).sum)
  | .objects ss => 1 + (varintSize ss.length + ss.sizeItems)
  | .arrays => 2

def Section.sizeEntries : Section → Nat
  | .nil => 0
  | .cons name e rest => 1 + name.length + e.size + rest.sizeEntries

def Sections.sizeItems : Sections → Nat
  | .nil => 0
  | .cons s rest => varintSize s.length + s.sizeEntries + rest.sizeItems

end

/-- The number of bytes of a section. -/
def Section.size (s : Section) : Nat := varintSize s.length + s.sizeEntries

/-! ## Names -/

namespace Section

theorem nameLt_irrefl (a : List UInt8) : ¬ nameLt a a := lt_irrefl (α := List Nat) _

theorem nameLt_trans {a b c : List UInt8} (first : nameLt a b) (second : nameLt b c) :
    nameLt a c := lt_trans (α := List Nat) first second

theorem nameLt_of_not {a b : List UInt8} (apart : a ≠ b) (not : ¬ nameLt a b) : nameLt b a := by
  have differ : a.map UInt8.toNat ≠ b.map UInt8.toNat := fun same =>
    apart (List.map_injective_iff.mpr (fun _ _ => UInt8.toNat.inj) same)
  exact lt_of_le_of_ne (not_lt.mp not) differ.symm

/-- The entries of a section, put together again. -/
def ofEntries : List (List UInt8 × StorageEntry) → Section
  | [] => nil
  | (name, e) :: rest => cons name e (ofEntries rest)

theorem ofEntries_toList : ∀ s : Section, ofEntries s.toList = s
  | nil => rfl
  | cons name e rest => by rw [toList, ofEntries, ofEntries_toList rest]

theorem names_eq : ∀ s : Section, s.names = s.toList.map Prod.fst
  | nil => rfl
  | cons name e rest => by rw [names, toList, List.map_cons, names_eq rest]

theorem length_eq : ∀ s : Section, s.length = s.toList.length
  | nil => rfl
  | cons name e rest => by rw [length, toList, List.length_cons, length_eq rest]

/-- A name behind all others comes last. -/
theorem toList_insert_last {name : List UInt8} {e : StorageEntry} :
    ∀ s : Section, (∀ other ∈ s.names, nameLt other name) →
      (s.insert name e).toList = s.toList ++ [(name, e)]
  | nil, _ => rfl
  | cons first other rest, before => by
    have less : nameLt first name := before first (.head _)
    rw [insert, if_neg fun same => nameLt_irrefl first (by rwa [same] at less),
      if_neg fun more => nameLt_irrefl first (nameLt_trans less more), toList,
      toList_insert_last rest fun name member => before name (.tail _ member)]
    rfl

theorem toList_foldl (entries : List (List UInt8 × StorageEntry)) (s : Section)
    (ordered : (s.names ++ entries.map Prod.fst).Pairwise nameLt) :
    (entries.foldl (fun s entry => s.insert entry.1 entry.2) s).toList = s.toList ++ entries := by
  induction entries generalizing s with
  | nil => rw [List.foldl_nil, List.append_nil]
  | cons entry rest ih =>
    have last : (s.insert entry.1 entry.2).toList = s.toList ++ [entry] :=
      toList_insert_last s fun other member =>
        (List.pairwise_append.mp ordered).2.2 other member entry.1 (.head _)
    rw [List.foldl_cons, ih, last, List.append_assoc]
    · rfl
    · rw [names_eq, last, List.map_append, ← names_eq, List.append_assoc]
      exact ordered

/-- Entries in order make the section again. -/
theorem ofList_toList {s : Section} (ordered : s.names.Pairwise nameLt) : ofList s.toList = s := by
  rw [← ofEntries_toList (ofList s.toList), ofList, toList_foldl s.toList nil, toList,
    List.nil_append, ofEntries_toList]
  rwa [names, List.nil_append, ← names_eq]

theorem mem_names_insert {name other : List UInt8} {e : StorageEntry} :
    ∀ s : Section, other ∈ (s.insert name e).names → other = name ∨ other ∈ s.names
  | nil, member => by
    rcases List.mem_singleton.mp member with rfl
    exact .inl rfl
  | cons first entry rest, member => by
    unfold insert at member
    split at member
    · exact .inr member
    · split at member
      · exact List.mem_cons.mp member
      · rcases List.mem_cons.mp member with rfl | member
        · exact .inr (.head _)
        · exact (mem_names_insert rest member).imp id (.tail _)

theorem ordered_insert {name : List UInt8} {e : StorageEntry} :
    ∀ s : Section, s.names.Pairwise nameLt → (s.insert name e).names.Pairwise nameLt
  | nil, _ => List.pairwise_singleton _ _
  | cons first entry rest, ordered => by
    obtain ⟨before, orderedRest⟩ := List.pairwise_cons.mp ordered
    unfold insert
    split
    · exact ordered
    · next apart =>
      split
      · next less =>
        refine List.pairwise_cons.mpr ⟨fun other member => ?_, ordered⟩
        rcases List.mem_cons.mp member with rfl | member
        · exact less
        · exact nameLt_trans less (before other member)
      · next not =>
        refine List.pairwise_cons.mpr ⟨fun other member => ?_, ordered_insert rest orderedRest⟩
        rcases mem_names_insert rest member with rfl | member
        · exact nameLt_of_not apart not
        · exact before other member

theorem length_insert_le (name : List UInt8) (e : StorageEntry) :
    ∀ s : Section, (s.insert name e).length ≤ s.length + 1
  | nil => Nat.le_refl 1
  | cons first entry rest => by
    have shorter := length_insert_le name e rest
    unfold insert
    split
    · exact Nat.le_add_right _ _
    · split
      · exact Nat.le_refl _
      · simp only [length]
        omega

theorem sizeEntries_insert_le (name : List UInt8) (e : StorageEntry) :
    ∀ s : Section, (s.insert name e).sizeEntries ≤ s.sizeEntries + (1 + name.length + e.size)
  | nil => by simp only [insert, sizeEntries]; omega
  | cons first entry rest => by
    have smaller := sizeEntries_insert_le name e rest
    unfold insert
    split
    · exact Nat.le_add_right _ _
    · split
      · simp only [sizeEntries]
        omega
      · simp only [sizeEntries]
        omega

theorem callsEntries_insert_le (name : List UInt8) (e : StorageEntry) :
    ∀ s : Section, (s.insert name e).callsEntries ≤ max s.callsEntries e.calls
  | nil => by simp only [insert, callsEntries]; omega
  | cons first entry rest => by
    have fewer := callsEntries_insert_le name e rest
    unfold insert
    split
    · exact Nat.le_max_left _ _
    · split
      · simp only [callsEntries]
        omega
      · simp only [callsEntries]
        omega

theorem fitsEntries_insert {names : Nat} {name : List UInt8} {e : StorageEntry}
    (fits : name.length < names ∧ e.Fits names) :
    ∀ s : Section, s.FitsEntries names → (s.insert name e).FitsEntries names
  | nil, _ => ⟨fits, trivial⟩
  | cons first entry rest, all => by
    have kept := fitsEntries_insert fits rest all.2
    unfold insert
    split
    · exact all
    · split
      · exact ⟨fits, all⟩
      · exact ⟨all.1, kept⟩

end Section

end Virie.PortableStorage
