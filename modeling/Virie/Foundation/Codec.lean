import Virie.Foundation.Varint

/-! # Byte formats

A format writes a value to bytes and reads one from the front of some bytes. Formats are built
from fixed-width and variable-length numbers by sequences, counted lists and tagged alternatives.
A format is lawful for a set of values if it reads what it writes of them, reads nothing else, and
writes what it reads as long as every variable-length number is read completely. -/

namespace Foundation

/-- A byte format. Its reader is told whether it rejects variable-length numbers that are not read
completely, or goes on with the bits it has. -/
structure Codec (α : Type) where
  write : α → Option (List UInt8)
  read : Bool → List UInt8 → Option (α × List UInt8)

namespace Codec

variable {α β : Type}

/-- Little-endian bytes of a number. -/
def writeUint : Nat → Nat → List UInt8
  | 0, _ => []
  | width + 1, v => UInt8.ofNat (v % 256) :: writeUint width (v / 256)

def readUint : Nat → List UInt8 → Option (Nat × List UInt8)
  | 0, bytes => some (0, bytes)
  | _ + 1, [] => none
  | width + 1, b :: rest => (readUint width rest).map fun (v, rest) => (b.toNat + 256 * v, rest)

/-- A number of some bytes. -/
def uint (width : Nat) : Codec Nat where
  write v := some (writeUint width v)
  read _ bytes := readUint width bytes

/-- A variable-length number of some bits. -/
def varint (bits : Nat) : Codec Nat where
  write v := some (writeVarint v)
  read checked bytes :=
    if checked ∧ (readVarint bits 0 0 bytes).1 ≠ .complete then none
    else some (readVarint bits 0 0 bytes).2

/-- One value after another. -/
def seq (first : Codec α) (second : Codec β) : Codec (α × β) where
  write v := do
    let front ← first.write v.1
    let back ← second.write v.2
    pure (front ++ back)
  read checked bytes := do
    let (a, bytes) ← first.read checked bytes
    let (b, bytes) ← second.read checked bytes
    pure ((a, b), bytes)

/-- The same bytes for another type of values. -/
def imap (codec : Codec α) (build : α → β) (parts : β → α) : Codec β where
  write v := codec.write (parts v)
  read checked bytes := (codec.read checked bytes).map fun (a, bytes) => (build a, bytes)

/-- Refuse some values, in both directions. -/
def guarded (codec : Codec α) (allowed : α → Bool) : Codec α where
  write v := if allowed v then codec.write v else none
  read checked bytes := (codec.read checked bytes).filter fun (a, _) => allowed a

/-- The bytes of one alternative of a larger type. -/
def alternative (codec : Codec α) (inject : α → β) (project : β → Option α) : Codec β where
  write v := (project v).bind codec.write
  read checked bytes := (codec.read checked bytes).map fun (a, bytes) => (inject a, bytes)

/-- A tag and the bytes of the first entry with this tag. -/
def variant (tagOf : α → UInt8) (entries : List (UInt8 × Codec α)) : Codec α where
  write v := (entries.find? fun entry => entry.1 == tagOf v).bind fun entry =>
    (entry.2.write v).map (entry.1 :: ·)
  read checked bytes := do
    let tag ← bytes.head?
    let entry ← entries.find? fun entry => entry.1 == tag
    entry.2.read checked bytes.tail

def writeItems (write : α → Option (List UInt8)) : List α → Option (List UInt8)
  | [] => some []
  | v :: rest => do
    let front ← write v
    let back ← writeItems write rest
    pure (front ++ back)

def readItems (read : List UInt8 → Option (α × List UInt8)) :
    Nat → List UInt8 → Option (List α × List UInt8)
  | 0, bytes => some ([], bytes)
  | cnt + 1, bytes => do
    let (v, bytes) ← read bytes
    let (rest, bytes) ← readItems read cnt bytes
    pure (v :: rest, bytes)

/-- A number of values and the values. A number that exceeds the number of bytes left is refused
before any value is read. -/
def vector (codec : Codec α) : Codec (List α) where
  write vs := do
    let front ← (varint 64).write vs.length
    let back ← writeItems codec.write vs
    pure (front ++ back)
  read checked bytes := do
    let (cnt, bytes) ← (varint 64).read checked bytes
    if bytes.length < cnt then none else readItems (codec.read checked) cnt bytes

/-! ## Whole blobs -/

def toBlob (codec : Codec α) (v : α) : Option (List UInt8) := codec.write v

/-- The value of a blob without bytes left over. -/
def fromBlob (codec : Codec α) (checked : Bool) (blob : List UInt8) : Option α :=
  (codec.read checked blob).bind fun (v, rest) => if rest = [] then some v else none

/-! ## Laws -/

/-- A format is sound for the values with a property. -/
structure Lawful (codec : Codec α) (fits : α → Prop) : Prop where
  roundTrip : ∀ v, fits v → ∃ out, codec.write v = some out ∧
    ∀ checked rest, codec.read checked (out ++ rest) = some (v, rest)
  canonical : ∀ bytes v rest, codec.read true bytes = some (v, rest) →
    ∃ out, codec.write v = some out ∧ bytes = out ++ rest
  lenient : ∀ bytes result, codec.read true bytes = some result →
    codec.read false bytes = some result
  inRange : ∀ checked bytes v rest, codec.read checked bytes = some (v, rest) → fits v

/-- Every value takes at least one byte. -/
def Productive (codec : Codec α) : Prop := ∀ v, codec.write v ≠ some []

theorem Lawful.congr {codec : Codec α} {fits suits : α → Prop} (lawful : codec.Lawful fits)
    (same : ∀ v, suits v ↔ fits v) : codec.Lawful suits := by
  have equal : suits = fits := funext fun v => propext (same v)
  rw [equal]
  exact lawful

/-! ## Numbers -/

theorem readUint_writeUint {width v : Nat} (fits : v < 256 ^ width) (rest : List UInt8) :
    readUint width (writeUint width v ++ rest) = some (v, rest) := by
  induction width generalizing v with
  | zero =>
    have zero : v = 0 := by simpa using fits
    rw [zero]
    rfl
  | succ width ih =>
    have above : v / 256 < 256 ^ width := by
      rw [Nat.pow_succ, Nat.mul_comm] at fits
      exact Nat.div_lt_of_lt_mul fits
    rw [writeUint, List.cons_append, readUint, ih above, toNat_ofNat_of_lt (by omega)]
    simp only [Option.map_some, Nat.mod_add_div]

theorem writeUint_of_readUint {width v : Nat} {bytes rest : List UInt8}
    (read : readUint width bytes = some (v, rest)) :
    v < 256 ^ width ∧ bytes = writeUint width v ++ rest := by
  induction width generalizing bytes v with
  | zero =>
    cases read
    exact ⟨Nat.one_pos, rfl⟩
  | succ width ih =>
    cases bytes with
    | nil => cases read
    | cons b bytes =>
      rw [readUint, Option.map_eq_some_iff] at read
      obtain ⟨⟨high, left⟩, found, same⟩ := read
      obtain ⟨rfl, rfl⟩ := Prod.mk.inj same
      obtain ⟨below, rfl⟩ := ih found
      have small : b.toNat < 256 := b.toNat_lt
      refine ⟨by rw [Nat.pow_succ]; omega, ?_⟩
      have low : (b.toNat + 256 * high) % 256 = b.toNat := by omega
      have above : (b.toNat + 256 * high) / 256 = high := by omega
      rw [writeUint, low, above, UInt8.ofNat_toNat]
      rfl

theorem lawful_uint (width : Nat) : (uint width).Lawful fun v => v < 256 ^ width where
  roundTrip _ fits := ⟨_, rfl, fun _ rest => readUint_writeUint fits rest⟩
  canonical _ _ _ read := ⟨_, rfl, (writeUint_of_readUint read).2⟩
  lenient _ _ read := read
  inRange _ _ _ _ read := (writeUint_of_readUint read).1

theorem productive_uint (width : Nat) : (uint (width + 1)).Productive := by
  intro v nothing
  cases nothing

theorem lawful_varint {bits : Nat} (positive : 0 < bits) :
    (varint bits).Lawful fun v => v < 2 ^ bits where
  roundTrip v fits := by
    refine ⟨_, rfl, fun checked rest => ?_⟩
    have read := readVarint_writeVarint (i := 0) rest positive fits (fun zero => absurd rfl zero)
    simp only [varint, read, ne_eq, not_true_eq_false, and_false, if_false]
    simp
  canonical bytes v rest read := by
    simp only [varint, ne_eq, true_and, ite_not, Option.ite_none_right_eq_some,
      Option.some.injEq] at read
    obtain ⟨complete, read⟩ := read
    have whole : readVarint bits 0 0 bytes = (.complete, v, rest) := Prod.ext complete read
    obtain ⟨n, rfl, rfl, _⟩ := writeVarint_of_complete whole
    refine ⟨_, rfl, ?_⟩
    rw [Nat.zero_add, Nat.pow_zero, Nat.mul_one]
  lenient bytes result read := by
    simp only [varint, ne_eq, true_and, ite_not, Option.ite_none_right_eq_some] at read
    simpa [varint] using read.2
  inRange checked bytes v rest read := by
    simp only [varint, Option.ite_none_left_eq_some, Option.some.injEq] at read
    have whole : readVarint bits 0 0 bytes = ((readVarint bits 0 0 bytes).1, v, rest) :=
      Prod.ext rfl read.2
    exact readVarint_lt whole positive Nat.one_pos

theorem productive_varint (bits : Nat) : (varint bits).Productive := by
  intro v nothing
  exact writeVarint_ne_nil v (Option.some.inj nothing)

/-! ## Sequences and other types -/

theorem Lawful.seq {first : Codec α} {second : Codec β} {fits : α → Prop} {suits : β → Prop}
    (left : first.Lawful fits) (right : second.Lawful suits) :
    (first.seq second).Lawful fun v => fits v.1 ∧ suits v.2 where
  roundTrip := by
    rintro ⟨a, b⟩ ⟨fitsA, suitsB⟩
    obtain ⟨front, writeA, readA⟩ := left.roundTrip a fitsA
    obtain ⟨back, writeB, readB⟩ := right.roundTrip b suitsB
    refine ⟨front ++ back, by simp [Codec.seq, writeA, writeB], fun checked rest => ?_⟩
    simp [Codec.seq, readA, readB]
  canonical := by
    rintro bytes ⟨a, b⟩ rest read
    simp only [Codec.seq, Option.bind_eq_bind, Option.bind_eq_some_iff, Option.pure_def,
      Option.some.injEq, Prod.mk.injEq, Prod.exists] at read
    obtain ⟨_, middle, readA, _, _, readB, ⟨rfl, rfl⟩, rfl⟩ := read
    obtain ⟨front, writeA, rfl⟩ := left.canonical _ _ _ readA
    obtain ⟨back, writeB, rfl⟩ := right.canonical _ _ _ readB
    exact ⟨front ++ back, by simp [Codec.seq, writeA, writeB], (List.append_assoc _ _ _).symm⟩
  lenient := by
    rintro bytes result read
    simp only [Codec.seq, Option.bind_eq_bind, Option.bind_eq_some_iff, Option.pure_def,
      Option.some.injEq, Prod.exists] at read ⊢
    obtain ⟨a, middle, readA, b, rest, readB, rfl⟩ := read
    exact ⟨a, middle, left.lenient _ _ readA, b, rest, right.lenient _ _ readB, rfl⟩
  inRange := by
    rintro checked bytes ⟨a, b⟩ rest read
    simp only [Codec.seq, Option.bind_eq_bind, Option.bind_eq_some_iff, Option.pure_def,
      Option.some.injEq, Prod.mk.injEq, Prod.exists] at read
    obtain ⟨_, middle, readA, _, _, readB, ⟨rfl, rfl⟩, rfl⟩ := read
    exact ⟨left.inRange _ _ _ _ readA, right.inRange _ _ _ _ readB⟩

theorem Productive.seq {first : Codec α} (productive : first.Productive) (second : Codec β) :
    (first.seq second).Productive := by
  intro v nothing
  simp only [Codec.seq, Option.bind_eq_bind, Option.bind_eq_some_iff, Option.pure_def,
    Option.some.injEq, List.append_eq_nil_iff] at nothing
  obtain ⟨front, writeA, back, _, rfl, _⟩ := nothing
  exact productive _ writeA

theorem Lawful.imap {codec : Codec α} {fits : α → Prop} {suits : β → Prop}
    (lawful : codec.Lawful fits) {build : α → β} {parts : β → α}
    (toParts : ∀ b, suits b → fits (parts b) ∧ build (parts b) = b)
    (fromParts : ∀ a, fits a → suits (build a) ∧ parts (build a) = a) :
    (codec.imap build parts).Lawful suits where
  roundTrip b suitable := by
    obtain ⟨fitting, same⟩ := toParts b suitable
    obtain ⟨out, write, read⟩ := lawful.roundTrip _ fitting
    refine ⟨out, write, fun checked rest => ?_⟩
    simp only [Codec.imap, read, Option.map_some, same]
  canonical bytes b rest read := by
    obtain ⟨⟨a, left⟩, found, same⟩ := Option.map_eq_some_iff.mp read
    obtain ⟨rfl, rfl⟩ := Prod.mk.inj same
    obtain ⟨out, write, rfl⟩ := lawful.canonical _ _ _ found
    refine ⟨out, ?_, rfl⟩
    simp only [Codec.imap, (fromParts a (lawful.inRange _ _ _ _ found)).2, write]
  lenient bytes result read := by
    obtain ⟨pair, found, rfl⟩ := Option.map_eq_some_iff.mp read
    exact Option.map_eq_some_iff.mpr ⟨pair, lawful.lenient _ _ found, rfl⟩
  inRange checked bytes b rest read := by
    obtain ⟨⟨a, left⟩, found, same⟩ := Option.map_eq_some_iff.mp read
    obtain ⟨rfl, rfl⟩ := Prod.mk.inj same
    exact (fromParts a (lawful.inRange _ _ _ _ found)).1

theorem Productive.imap {codec : Codec α} (productive : codec.Productive) (build : α → β)
    (parts : β → α) : (codec.imap build parts).Productive := fun v => productive (parts v)

theorem Lawful.guarded {codec : Codec α} {fits : α → Prop} (lawful : codec.Lawful fits)
    (allowed : α → Bool) : (codec.guarded allowed).Lawful fun v => fits v ∧ allowed v = true where
  roundTrip := by
    rintro v ⟨fitting, permitted⟩
    obtain ⟨out, write, read⟩ := lawful.roundTrip v fitting
    refine ⟨out, by simp only [Codec.guarded, permitted, if_true, write], fun checked rest => ?_⟩
    simp only [Codec.guarded, read, Option.filter_some, permitted, if_true]
  canonical bytes v rest read := by
    obtain ⟨found, permitted⟩ := Option.filter_eq_some_iff.mp read
    obtain ⟨out, write, rfl⟩ := lawful.canonical _ _ _ found
    exact ⟨out, by simpa only [Codec.guarded, permitted, if_true] using write, rfl⟩
  lenient bytes result read := by
    obtain ⟨found, permitted⟩ := Option.filter_eq_some_iff.mp read
    exact Option.filter_eq_some_iff.mpr ⟨lawful.lenient _ _ found, permitted⟩
  inRange checked bytes v rest read := by
    obtain ⟨found, permitted⟩ := Option.filter_eq_some_iff.mp read
    exact ⟨lawful.inRange _ _ _ _ found, permitted⟩

/-! ## Alternatives -/

theorem Lawful.alternative {codec : Codec α} {fits : α → Prop} (lawful : codec.Lawful fits)
    {inject : α → β} {project : β → Option α} (projects : ∀ a, project (inject a) = some a) :
    (codec.alternative inject project).Lawful fun b => ∃ a, b = inject a ∧ fits a where
  roundTrip := by
    rintro _ ⟨a, rfl, fitting⟩
    obtain ⟨out, write, read⟩ := lawful.roundTrip a fitting
    refine ⟨out, by simp only [Codec.alternative, projects, Option.bind_some, write],
      fun checked rest => ?_⟩
    simp only [Codec.alternative, read, Option.map_some]
  canonical bytes b rest read := by
    obtain ⟨⟨a, left⟩, found, same⟩ := Option.map_eq_some_iff.mp read
    obtain ⟨rfl, rfl⟩ := Prod.mk.inj same
    obtain ⟨out, write, rfl⟩ := lawful.canonical _ _ _ found
    exact ⟨out, by simp only [Codec.alternative, projects, Option.bind_some, write], rfl⟩
  lenient bytes result read := by
    obtain ⟨pair, found, rfl⟩ := Option.map_eq_some_iff.mp read
    exact Option.map_eq_some_iff.mpr ⟨pair, lawful.lenient _ _ found, rfl⟩
  inRange checked bytes b rest read := by
    obtain ⟨⟨a, left⟩, found, same⟩ := Option.map_eq_some_iff.mp read
    obtain ⟨rfl, rfl⟩ := Prod.mk.inj same
    exact ⟨a, rfl, lawful.inRange _ _ _ _ found⟩

theorem read_variant {tagOf : α → UInt8} {entries : List (UInt8 × Codec α)} {checked : Bool}
    {bytes : List UInt8} {result : α × List UInt8} :
    (variant tagOf entries).read checked bytes = some result ↔
      ∃ entry rest, bytes = entry.1 :: rest ∧
        (entries.find? fun other => other.1 == entry.1) = some entry ∧
        entry.2.read checked rest = some result := by
  cases bytes with
  | nil => simp [variant]
  | cons tag rest =>
    simp only [variant, List.head?_cons, Option.bind_eq_bind, Option.bind_some, List.tail_cons,
      Option.bind_eq_some_iff, List.cons.injEq]
    constructor
    · rintro ⟨entry, found, read⟩
      have same : entry.1 = tag := by simpa using List.find?_some found
      subst same
      exact ⟨entry, rest, ⟨rfl, rfl⟩, found, read⟩
    · rintro ⟨entry, _, ⟨rfl, rfl⟩, found, read⟩
      exact ⟨entry, found, read⟩

/-- A variant is lawful if each entry is lawful for the values with its tag. -/
theorem Lawful.variant {tagOf : α → UInt8} {entries : List (UInt8 × Codec α)} {fits : α → Prop}
    (lawful : ∀ entry ∈ entries, entry.2.Lawful fun v => fits v ∧ tagOf v = entry.1)
    (covered : ∀ v, tagOf v ∈ entries.map Prod.fst) :
    (variant tagOf entries).Lawful fits where
  roundTrip v fitting := by
    obtain ⟨listed, member, tagged⟩ := List.mem_map.mp (covered v)
    obtain ⟨entry, found⟩ : ∃ entry, (entries.find? fun other => other.1 == tagOf v) = some entry :=
      Option.isSome_iff_exists.mp
        (List.find?_isSome.mpr ⟨listed, member, by simpa using tagged⟩)
    have same : entry.1 = tagOf v := by simpa using List.find?_some found
    obtain ⟨out, write, read⟩ :=
      (lawful entry (List.mem_of_find?_eq_some found)).roundTrip v ⟨fitting, same.symm⟩
    refine ⟨entry.1 :: out, ?_, fun checked rest => ?_⟩
    · simp only [Codec.variant, found, Option.bind_some, write, Option.map_some]
    · rw [← same] at found
      exact read_variant.mpr ⟨entry, out ++ rest, rfl, found, read checked rest⟩
  canonical bytes v rest read := by
    obtain ⟨entry, _, rfl, found, read⟩ := read_variant.mp read
    have sound := lawful entry (List.mem_of_find?_eq_some found)
    obtain ⟨out, write, rfl⟩ := sound.canonical _ _ _ read
    refine ⟨entry.1 :: out, ?_, rfl⟩
    rw [← (sound.inRange _ _ _ _ read).2] at found
    simp only [Codec.variant, found, Option.bind_some, write, Option.map_some]
  lenient bytes result read := by
    obtain ⟨entry, left, rfl, found, read⟩ := read_variant.mp read
    have sound := lawful entry (List.mem_of_find?_eq_some found)
    exact read_variant.mpr ⟨entry, left, rfl, found, sound.lenient _ _ read⟩
  inRange checked bytes v rest read := by
    obtain ⟨entry, _, rfl, found, read⟩ := read_variant.mp read
    exact ((lawful entry (List.mem_of_find?_eq_some found)).inRange _ _ _ _ read).1

theorem productive_variant (tagOf : α → UInt8) (entries : List (UInt8 × Codec α)) :
    (variant tagOf entries).Productive := by
  intro v nothing
  simp only [variant, Option.bind_eq_some_iff, Option.map_eq_some_iff] at nothing
  obtain ⟨_, _, _, _, impossible⟩ := nothing
  cases impossible

/-! ## Counted lists -/

theorem writeItems_length {codec : Codec α} (productive : codec.Productive) {vs : List α}
    {out : List UInt8} (write : writeItems codec.write vs = some out) :
    vs.length ≤ out.length := by
  induction vs generalizing out with
  | nil => exact Nat.zero_le _
  | cons v vs ih =>
    simp only [writeItems, Option.bind_eq_bind, Option.bind_eq_some_iff, Option.pure_def,
      Option.some.injEq] at write
    obtain ⟨front, first, back, rest, rfl⟩ := write
    have some := ih rest
    cases front with
    | nil => exact absurd first (productive v)
    | cons byte front =>
      simp only [List.length_cons, List.length_append]
      omega

theorem Lawful.readItems_writeItems {codec : Codec α} {fits : α → Prop}
    (lawful : codec.Lawful fits) {vs : List α} (fitting : ∀ v ∈ vs, fits v) :
    ∃ out, writeItems codec.write vs = some out ∧ ∀ checked rest,
      readItems (codec.read checked) vs.length (out ++ rest) = some (vs, rest) := by
  induction vs with
  | nil => exact ⟨[], rfl, fun _ _ => rfl⟩
  | cons v vs ih =>
    obtain ⟨front, write, read⟩ := lawful.roundTrip v (fitting v List.mem_cons_self)
    obtain ⟨back, writes, reads⟩ :=
      ih fun other member => fitting other (List.mem_cons_of_mem _ member)
    refine ⟨front ++ back, by simp [writeItems, write, writes], fun checked rest => ?_⟩
    simp [readItems, read, reads]

theorem Lawful.writeItems_of_readItems {codec : Codec α} {fits : α → Prop}
    (lawful : codec.Lawful fits) {cnt : Nat} {bytes rest : List UInt8} {vs : List α}
    (read : readItems (codec.read true) cnt bytes = some (vs, rest)) :
    ∃ out, writeItems codec.write vs = some out ∧ bytes = out ++ rest := by
  induction cnt generalizing bytes vs with
  | zero =>
    cases read
    exact ⟨[], rfl, rfl⟩
  | succ cnt ih =>
    simp only [readItems, Option.bind_eq_bind, Option.bind_eq_some_iff, Option.pure_def,
      Option.some.injEq, Prod.mk.injEq, Prod.exists] at read
    obtain ⟨v, middle, first, others, _, later, rfl, rfl⟩ := read
    obtain ⟨front, write, rfl⟩ := lawful.canonical _ _ _ first
    obtain ⟨back, writes, rfl⟩ := ih later
    exact ⟨front ++ back, by simp [writeItems, write, writes], (List.append_assoc _ _ _).symm⟩

theorem Lawful.readItems_lenient {codec : Codec α} {fits : α → Prop} (lawful : codec.Lawful fits)
    {cnt : Nat} {bytes : List UInt8} {result : List α × List UInt8}
    (read : readItems (codec.read true) cnt bytes = some result) :
    readItems (codec.read false) cnt bytes = some result := by
  induction cnt generalizing bytes result with
  | zero => exact read
  | succ cnt ih =>
    simp only [readItems, Option.bind_eq_bind, Option.bind_eq_some_iff, Prod.exists] at read ⊢
    obtain ⟨v, middle, first, others, rest, later, same⟩ := read
    exact ⟨v, middle, lawful.lenient _ _ first, others, rest, ih later, same⟩

theorem Lawful.readItems_inRange {codec : Codec α} {fits : α → Prop} (lawful : codec.Lawful fits)
    {checked : Bool} {cnt : Nat} {bytes rest : List UInt8} {vs : List α}
    (read : readItems (codec.read checked) cnt bytes = some (vs, rest)) :
    vs.length = cnt ∧ ∀ v ∈ vs, fits v := by
  induction cnt generalizing bytes vs with
  | zero =>
    cases read
    exact ⟨rfl, fun v member => absurd member List.not_mem_nil⟩
  | succ cnt ih =>
    simp only [readItems, Option.bind_eq_bind, Option.bind_eq_some_iff, Option.pure_def,
      Option.some.injEq, Prod.mk.injEq, Prod.exists] at read
    obtain ⟨v, middle, first, others, _, later, rfl, rfl⟩ := read
    obtain ⟨length, fitting⟩ := ih later
    refine ⟨by rw [List.length_cons, length], fun other member => ?_⟩
    rcases List.mem_cons.mp member with rfl | member
    · exact lawful.inRange _ _ _ _ first
    · exact fitting other member

theorem read_vector {codec : Codec α} {checked : Bool} {bytes : List UInt8}
    {result : List α × List UInt8} :
    (vector codec).read checked bytes = some result ↔
      ∃ cnt rest, (varint 64).read checked bytes = some (cnt, rest) ∧ cnt ≤ rest.length ∧
        readItems (codec.read checked) cnt rest = some result := by
  simp only [vector, Option.bind_eq_bind, Option.bind_eq_some_iff, Prod.exists,
    Option.ite_none_left_eq_some, Nat.not_lt]

theorem Lawful.vector {codec : Codec α} {fits : α → Prop} (lawful : codec.Lawful fits)
    (productive : codec.Productive) :
    (vector codec).Lawful fun vs => vs.length < 2 ^ 64 ∧ ∀ v ∈ vs, fits v where
  roundTrip vs := by
    rintro ⟨short, fitting⟩
    obtain ⟨front, write, read⟩ := (lawful_varint (by decide : 0 < 64)).roundTrip vs.length short
    obtain ⟨back, writes, reads⟩ := lawful.readItems_writeItems fitting
    refine ⟨front ++ back, by simp [Codec.vector, write, writes], fun checked rest => ?_⟩
    rw [List.append_assoc]
    refine read_vector.mpr ⟨_, _, read checked _, ?_, reads checked rest⟩
    have enough := writeItems_length productive writes
    rw [List.length_append]
    omega
  canonical bytes vs rest read := by
    obtain ⟨cnt, middle, count, _, items⟩ := read_vector.mp read
    obtain ⟨front, write, rfl⟩ := (lawful_varint (by decide : 0 < 64)).canonical _ _ _ count
    obtain ⟨back, writes, rfl⟩ := lawful.writeItems_of_readItems items
    rw [← (lawful.readItems_inRange items).1] at write
    exact ⟨front ++ back, by simp [Codec.vector, write, writes], (List.append_assoc _ _ _).symm⟩
  lenient bytes result read := by
    obtain ⟨cnt, middle, count, enough, items⟩ := read_vector.mp read
    exact read_vector.mpr ⟨cnt, middle, (lawful_varint (by decide : 0 < 64)).lenient _ _ count,
      enough, lawful.readItems_lenient items⟩
  inRange checked bytes vs rest read := by
    obtain ⟨cnt, middle, count, _, items⟩ := read_vector.mp read
    obtain ⟨length, fitting⟩ := lawful.readItems_inRange items
    refine ⟨?_, fitting⟩
    rw [length]
    exact (lawful_varint (by decide : 0 < 64)).inRange _ _ _ _ count

theorem productive_vector (codec : Codec α) : (vector codec).Productive := by
  intro vs nothing
  simp only [vector, Option.bind_eq_bind, Option.bind_eq_some_iff, Option.pure_def,
    Option.some.injEq, List.append_eq_nil_iff] at nothing
  obtain ⟨front, write, back, _, rfl, _⟩ := nothing
  exact productive_varint 64 _ write

/-! ## Lengths -/

theorem writeUint_length (width v : Nat) : (writeUint width v).length = width := by
  induction width generalizing v with
  | zero => rfl
  | succ width ih => rw [writeUint, List.length_cons, ih]

theorem vector_some {codec : Codec α} {vs : List α} {out : List UInt8} :
    (vector codec).write vs = some out ↔
      ∃ items, writeItems codec.write vs = some items ∧ out = writeVarint vs.length ++ items := by
  simp only [vector, varint, Option.bind_eq_bind, Option.bind_some, Option.bind_eq_some_iff,
    Option.pure_def, Option.some.injEq]
  simp only [eq_comm]

theorem writeItems_append {write : α → Option (List UInt8)} {front back : List α}
    {out : List UInt8} : writeItems write (front ++ back) = some out ↔
      ∃ first second, writeItems write front = some first ∧ writeItems write back = some second ∧
        out = first ++ second := by
  induction front generalizing out with
  | nil => simp [writeItems, eq_comm]
  | cons v front ih =>
    simp only [List.cons_append, writeItems, Option.bind_eq_bind, Option.bind_eq_some_iff,
      Option.pure_def, Option.some.injEq, ih]
    constructor
    · rintro ⟨head, here, _, ⟨first, second, inFront, inBack, rfl⟩, rfl⟩
      exact ⟨head ++ first, second, ⟨head, here, first, inFront, rfl⟩, inBack,
        (List.append_assoc _ _ _).symm⟩
    · rintro ⟨_, second, ⟨head, here, first, inFront, rfl⟩, inBack, rfl⟩
      exact ⟨head, here, first ++ second, ⟨first, second, inFront, inBack, rfl⟩,
        (List.append_assoc _ _ _).symm⟩

/-- The beginning of a written list is written with fewer bytes. -/
theorem vector_take {codec : Codec α} (productive : codec.Productive) {vs : List α}
    {out : List UInt8} (write : (vector codec).write vs = some out) {n : Nat}
    (fewer : n < vs.length) :
    ∃ front, (vector codec).write (vs.take n) = some front ∧ front.length < out.length := by
  obtain ⟨items, written, rfl⟩ := vector_some.mp write
  rw [← List.take_append_drop n vs] at written
  obtain ⟨first, second, inFront, inBack, rfl⟩ := writeItems_append.mp written
  refine ⟨_, vector_some.mpr ⟨first, inFront, rfl⟩, ?_⟩
  have left := writeItems_length productive inBack
  have count : (writeVarint (vs.take n).length).length ≤ (writeVarint vs.length).length :=
    writeVarint_length_mono (List.length_take_le' n vs)
  rw [List.length_drop] at left
  simp only [List.length_append]
  omega

/-! ## Laws of whole blobs -/

/-- A value is read back from its blob. -/
theorem Lawful.fromBlob_toBlob {codec : Codec α} {fits : α → Prop} (lawful : codec.Lawful fits)
    {v : α} (fitting : fits v) :
    ∃ blob, codec.toBlob v = some blob ∧ ∀ checked, codec.fromBlob checked blob = some v := by
  obtain ⟨out, write, read⟩ := lawful.roundTrip v fitting
  refine ⟨out, write, fun checked => ?_⟩
  have whole := read checked []
  rw [List.append_nil] at whole
  rw [fromBlob, whole]
  rfl

theorem fromBlob_some {codec : Codec α} {checked : Bool} {blob : List UInt8} {v : α} :
    codec.fromBlob checked blob = some v ↔ codec.read checked blob = some (v, []) := by
  simp only [fromBlob, Option.bind_eq_some_iff, Prod.exists, Option.ite_none_right_eq_some,
    Option.some.injEq]
  constructor
  · rintro ⟨_, _, read, rfl, rfl⟩
    exact read
  · intro read
    exact ⟨v, [], read, rfl, rfl⟩

/-- An accepted blob is the one its value is written to exactly when all its variable-length
numbers are read completely. -/
theorem Lawful.toBlob_fromBlob_iff {codec : Codec α} {fits : α → Prop} (lawful : codec.Lawful fits)
    {blob : List UInt8} {v : α} (accepted : codec.fromBlob false blob = some v) :
    codec.toBlob v = some blob ↔ (codec.fromBlob true blob).isSome = true := by
  have fitting := lawful.inRange _ _ _ _ (fromBlob_some.mp accepted)
  constructor
  · intro written
    obtain ⟨out, write, read⟩ := lawful.fromBlob_toBlob fitting
    rw [written] at write
    rw [Option.some.inj write, read true]
    rfl
  · intro complete
    obtain ⟨other, read⟩ := Option.isSome_iff_exists.mp complete
    have loose := lawful.lenient _ _ (fromBlob_some.mp read)
    rw [← fromBlob_some, accepted] at loose
    obtain rfl := Option.some.inj loose
    obtain ⟨out, write, same⟩ := lawful.canonical _ _ _ (fromBlob_some.mp read)
    rw [same, List.append_nil]
    exact write

end Codec
end Foundation
