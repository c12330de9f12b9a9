import Virie.Foundation.Codec

/-! # Readers of bytes

A reader takes a value from the front of some bytes or fails. Two judgements describe it: what it
makes of written bytes, which may depend on a condition such as a limit of depth, and what holds of
every value it returns and of the number of bytes it took. Both have one rule for each way to build
readers. -/

namespace Foundation

/-- A reader of bytes. -/
abbrev Reader (α : Type) := StateT (List UInt8) Option α

namespace Reader

variable {α β : Type}

/-- Some bytes. -/
def take (count : Nat) : Reader (List UInt8) := fun bytes =>
  if count ≤ bytes.length then some (bytes.take count, bytes.drop count) else none

/-- A little-endian number. -/
def uint (width : Nat) : Reader Nat := Codec.readUint width

/-- A value several times. -/
def items (read : Reader α) (count : Nat) : Reader (List α) := Codec.readItems read count

/-! ## Written bytes -/

/-- From bytes that start with `out` the reader takes these and returns `v`, if a condition holds;
otherwise it fails. -/
structure Reads (read : Reader α) (condition : Prop) (out : List UInt8) (v : α) : Prop where
  returns : condition → ∀ rest, read (out ++ rest) = some (v, rest)
  fails : ¬ condition → ∀ rest, read (out ++ rest) = none

variable {read : Reader α} {condition other : Prop} {out back : List UInt8} {v : α}

theorem Reads.congr (reads : Reads read condition out v) (same : condition ↔ other) :
    Reads read other out v :=
  ⟨fun holds => reads.returns (same.mpr holds), fun fails => reads.fails fun holds =>
    fails (same.mp holds)⟩

theorem reads_failure : Reads (failure : Reader α) False out v :=
  ⟨fun holds => holds.elim, fun _ _ => rfl⟩

theorem reads_peek {f : List UInt8 → Reader β} {w : β}
    (reads : ∀ rest, Reads (f (out ++ rest)) condition out w) :
    Reads (get >>= f) condition out w :=
  ⟨fun holds rest => (reads rest).returns holds rest, fun fails rest => (reads rest).fails fails rest⟩

theorem reads_pure (v : α) : Reads (pure v : Reader α) True [] v :=
  ⟨fun _ _ => rfl, fun fails => absurd trivial fails⟩

theorem Reads.bind {f : α → Reader β} {w : β} (reads : Reads read condition out v)
    (following : Reads (f v) other back w) :
    Reads (read >>= f) (condition ∧ other) (out ++ back) w := by
  have step (rest : List UInt8) : (read >>= f) (out ++ back ++ rest) =
      (read (out ++ (back ++ rest))).bind fun found => f found.1 found.2 := by
    rw [List.append_assoc]
    rfl
  constructor
  · intro both rest
    rw [step, reads.returns both.1]
    exact following.returns both.2 rest
  · intro fails rest
    rw [step]
    by_cases first : condition
    · rw [reads.returns first]
      exact following.fails (fun second => fails ⟨first, second⟩) rest
    · rw [reads.fails first]
      rfl

theorem Reads.map {f : α → β} (reads : Reads read condition out v) :
    Reads (f <$> read) condition out (f v) := by
  constructor
  · intro holds rest
    change (read (out ++ rest)).bind _ = _
    rw [reads.returns holds]
    rfl
  · intro fails rest
    change (read (out ++ rest)).bind _ = _
    rw [reads.fails fails]
    rfl

theorem reads_take (bytes : List UInt8) : Reads (take bytes.length) True bytes bytes := by
  refine ⟨fun _ rest => ?_, fun fails => absurd trivial fails⟩
  rw [take, if_pos (by rw [List.length_append]; exact Nat.le_add_right _ _),
    List.take_left, List.drop_left]

theorem reads_uint {width v : Nat} (fits : v < 256 ^ width) :
    Reads (uint width) True (Codec.writeUint width v) v :=
  ⟨fun _ rest => Codec.readUint_writeUint fits rest, fun fails => absurd trivial fails⟩

theorem reads_items_nil : Reads (items read 0) True [] [] :=
  ⟨fun _ _ => rfl, fun fails => absurd trivial fails⟩

theorem Reads.items_cons {count : Nat} {vs : List α} (reads : Reads read condition out v)
    (others : Reads (items read count) other back vs) :
    Reads (items read (count + 1)) (condition ∧ other) (out ++ back) (v :: vs) := by
  have step (rest : List UInt8) : items read (count + 1) (out ++ back ++ rest) =
      (read (out ++ (back ++ rest))).bind fun found =>
        (items read count found.2).bind fun others => some (found.1 :: others.1, others.2) := by
    rw [List.append_assoc]
    rfl
  constructor
  · intro both rest
    rw [step, reads.returns both.1, Option.bind_some, others.returns both.2]
    rfl
  · intro fails rest
    rw [step]
    by_cases first : condition
    · rw [reads.returns first, Option.bind_some, others.fails fun second => fails ⟨first, second⟩]
      rfl
    · rw [reads.fails first]
      rfl

/-! ## Returned values -/

/-- Every value that the reader returns has a property, together with the number of bytes that were
taken for it. -/
def Yields (read : Reader α) (P : α → Nat → Prop) : Prop :=
  ∀ bytes v rest, read bytes = some (v, rest) →
    ∃ used, bytes.length = used + rest.length ∧ P v used

variable {P Q : α → Nat → Prop}

theorem Yields.imp (yields : Yields read P) (weaker : ∀ v used, P v used → Q v used) :
    Yields read Q := by
  intro bytes v rest found
  obtain ⟨used, length, holds⟩ := yields bytes v rest found
  exact ⟨used, length, weaker v used holds⟩

theorem yields_failure : Yields (failure : Reader α) P := fun _ _ _ found => by cases found

theorem yields_pure (holds : P v 0) : Yields (pure v : Reader α) P := by
  intro bytes w rest found
  cases found
  exact ⟨0, (Nat.zero_add _).symm, holds⟩

theorem Yields.bind {f : α → Reader β} {R : β → Nat → Prop} (yields : Yields read P)
    (following : ∀ v used, P v used → Yields (f v) fun w more => R w (used + more)) :
    Yields (read >>= f) R := by
  intro bytes w rest found
  obtain ⟨⟨v, middle⟩, first, second⟩ := Option.bind_eq_some_iff.mp found
  obtain ⟨used, length, holds⟩ := yields bytes v middle first
  obtain ⟨more, lengthToo, result⟩ := following v used holds middle w rest second
  exact ⟨used + more, by omega, result⟩

theorem yields_peek {f : List UInt8 → Reader β} {R : β → Nat → Prop}
    (yields : ∀ bytes, Yields (f bytes) R) : Yields (get >>= f) R :=
  fun bytes v rest found => yields bytes bytes v rest found

theorem Yields.map {f : α → β} {R : β → Nat → Prop} (yields : Yields read fun v => R (f v)) :
    Yields (f <$> read) R := by
  intro bytes w rest found
  obtain ⟨⟨v, middle⟩, first, second⟩ := Option.bind_eq_some_iff.mp found
  cases second
  exact yields bytes v rest first

theorem yields_take (count : Nat) :
    Yields (take count) fun bytes used => bytes.length = count ∧ used = count := by
  intro bytes v rest found
  unfold take at found
  split at found
  · next enough =>
    cases found
    refine ⟨count, ?_, ?_, rfl⟩
    · rw [List.length_drop]
      omega
    · rw [List.length_take]
      omega
  · cases found

theorem length_writeUint (width v : Nat) : (Codec.writeUint width v).length = width := by
  induction width generalizing v with
  | zero => rfl
  | succ width ih => rw [Codec.writeUint, List.length_cons, ih]

theorem yields_uint (width : Nat) :
    Yields (uint width) fun v used => v < 256 ^ width ∧ used = width := by
  intro bytes v rest found
  obtain ⟨fits, rfl⟩ := Codec.writeUint_of_readUint found
  refine ⟨width, ?_, fits, rfl⟩
  rw [List.length_append, length_writeUint]

/-- Items with a property and a weight that is paid for by their bytes. -/
theorem Yields.items {fits : α → Prop} {weight : α → Nat}
    (yields : Yields read fun v used => fits v ∧ weight v ≤ used) (count : Nat) :
    Yields (items read count) fun vs used =>
      vs.length = count ∧ (∀ v ∈ vs, fits v) ∧ (vs.map weight).sum ≤ used := by
  induction count with
  | zero =>
    intro bytes vs rest found
    cases found
    exact ⟨0, (Nat.zero_add _).symm, rfl, fun _ member => absurd member List.not_mem_nil,
      Nat.le_refl 0⟩
  | succ count ih =>
    intro bytes vs rest found
    obtain ⟨⟨v, middle⟩, first, found⟩ := Option.bind_eq_some_iff.mp found
    obtain ⟨⟨others, last⟩, second, found⟩ := Option.bind_eq_some_iff.mp found
    cases found
    obtain ⟨used, length, fit, paid⟩ := yields bytes v middle first
    obtain ⟨more, lengthToo, same, fitToo, paidToo⟩ := ih middle others rest second
    refine ⟨used + more, by omega, by rw [List.length_cons, same], ?_, ?_⟩
    · intro w member
      rcases List.mem_cons.mp member with rfl | member
      · exact fit
      · exact fitToo w member
    · rw [List.map_cons, List.sum_cons]
      exact Nat.add_le_add paid paidToo

end Reader

end Foundation
