import Virie.PortableStorage.Laws

/-! # Reading what was stored

For every function of the reader: from the bytes that were stored it returns the value if its calls
fit into the budget, and fails if they do not. -/

open Foundation Foundation.Reader

namespace Virie.PortableStorage

/-- What is packed has a size and is read again, with a value as the result, if the budget is as
large as the need. -/
def Stored {α : Type} (packed : Option (List UInt8)) (size : Nat) (read : Nat → Reader α)
    (need : Nat) (v : α) : Prop :=
  ∃ out, packed = some out ∧ out.length = size ∧
    ∀ budget, Reads (read budget) (need ≤ budget) out v

section Pieces

variable {α : Type} {out : List UInt8} {need : Nat}

theorem reads_limitation {v : α} {body : Nat → Reader α}
    (reads : ∀ budget, Reads (body budget) (need ≤ budget) out v) (budget : Nat) :
    Reads (recursionLimitation body budget) (need + 1 ≤ budget) out v := by
  cases budget with
  | zero => exact reads_failure.congr ⟨False.elim, fun less => absurd less (by omega)⟩
  | succ budget => exact (reads budget).congr Nat.succ_le_succ_iff.symm

theorem Stored.limitation {packed : Option (List UInt8)} {size : Nat} {v : α}
    {body : Nat → Reader α} (stored : Stored packed size body need v) :
    Stored packed size (recursionLimitation body) (need + 1) v := by
  obtain ⟨out, isOut, length, reads⟩ := stored
  exact ⟨out, isOut, length, reads_limitation reads⟩

theorem reads_readBytes (bytes : List UInt8) (budget : Nat) :
    Reads (readBytes bytes.length budget) (1 ≤ budget) bytes bytes :=
  reads_limitation (fun _ => (reads_take bytes).congr ⟨fun _ => Nat.zero_le _, fun _ => trivial⟩)
    budget

variable {size v : Nat}

theorem reads_readRaw (fits : v < 256 ^ size) (budget : Nat) :
    Reads (readRaw size budget) (1 ≤ budget) (Codec.writeUint size v) v :=
  reads_limitation (fun _ => (reads_uint fits).congr ⟨fun _ => Nat.zero_le _, fun _ => trivial⟩)
    budget

theorem reads_readPod (fits : v < 256 ^ size) (budget : Nat) :
    Reads (readPod size budget) (2 ≤ budget) (Codec.writeUint size v) v :=
  reads_limitation (reads_readRaw fits) budget

theorem reads_readValue (fits : v < 256 ^ size) (budget : Nat) :
    Reads (readValue size budget) (3 ≤ budget) (Codec.writeUint size v) v :=
  reads_limitation (reads_readPod fits) budget

theorem reads_readSecName {name : List UInt8} (short : name.length < 256) (budget : Nat) :
    Reads (readSecName budget) (3 ≤ budget) (Codec.writeUint 1 name.length ++ name) name := by
  refine reads_limitation (fun budget => ?_) budget
  refine Reads.congr (Reads.bind (reads_readPod (by omega) budget) (reads_readBytes name budget)) ?_
  omega

/-- A size whose lowest bits tell its width. -/
theorem reads_readVarint {mask : Nat} (marks : mask < 4) (fits : v * 4 + mask < 256 ^ 2 ^ mask)
    (budget : Nat) :
    Reads (readVarint budget) (4 ≤ budget) (Codec.writeUint (2 ^ mask) (v * 4 + mask)) v := by
  refine reads_limitation (fun budget => reads_peek fun rest => ?_) budget
  obtain ⟨width, wide⟩ : ∃ width, 2 ^ mask = width + 1 :=
    ⟨2 ^ mask - 1, (Nat.sub_add_cancel Nat.one_le_two_pow).symm⟩
  have front : Codec.writeUint (2 ^ mask) (v * 4 + mask) ++ rest =
      UInt8.ofNat ((v * 4 + mask) % 256) ::
        (Codec.writeUint width ((v * 4 + mask) / 256) ++ rest) := by
    rw [wide]
    rfl
  have low : (UInt8.ofNat ((v * 4 + mask) % 256)).toNat % 4 = mask := by
    rw [toNat_ofNat_of_lt (Nat.mod_lt _ (by decide))]
    omega
  have same : (v * 4 + mask) / 4 = v := by omega
  have value := Reads.bind (f := fun v => pure (v / 4)) (reads_readValue fits budget)
    (reads_pure ((v * 4 + mask) / 4))
  rw [List.append_nil, same, and_true] at value
  rw [front]
  dsimp only
  rw [low]
  exact value

/-- What is stored of a size is read again. -/
theorem stored_packVarint (small : v ≤ maxCount) :
    Stored (packVarint v) (varintSize v) readVarint 4 v := by
  unfold packVarint varintSize
  unfold maxCount at small
  split
  · next less =>
    exact ⟨_, rfl, length_writeUint _ _, @reads_readVarint v 0 (by decide) (by norm_num; omega)⟩
  split
  · exact ⟨_, rfl, length_writeUint _ _, @reads_readVarint v 1 (by decide) (by norm_num; omega)⟩
  split
  · exact ⟨_, rfl, length_writeUint _ _, @reads_readVarint v 2 (by decide) (by norm_num; omega)⟩
  · exact ⟨_, rfl, length_writeUint _ _, @reads_readVarint v 3 (by decide) (by norm_num; omega)⟩

/-- A size and what follows it. -/
theorem Stored.counted {count : Nat} {packed : Option (List UInt8)} {v : α}
    {f : Nat → Nat → Reader α} (small : count ≤ maxCount)
    (stored : Stored packed size (f · count) need v) :
    Stored (counted count packed) (varintSize count + size)
      (recursionLimitation fun budget => readVarint budget >>= f budget) (1 + max 4 need) v := by
  obtain ⟨front, isFront, lengthFront, readsFront⟩ := stored_packVarint small
  obtain ⟨back, isBack, lengthBack, readsBack⟩ := stored
  refine ⟨front ++ back, ?_, ?_, fun budget => ?_⟩
  · rw [PortableStorage.counted, isFront, isBack]
    rfl
  · rw [List.length_append, lengthFront, lengthBack]
  · have both (budget : Nat) : Reads (readVarint budget >>= f budget) (max 4 need ≤ budget)
        (front ++ back) v :=
      ((readsFront budget).bind (readsBack budget)).congr max_le_iff.symm
    exact (reads_limitation both budget).congr (by rw [Nat.add_comm])

theorem Stored.map {β : Type} {packed : Option (List UInt8)} {v : α} {read : Nat → Reader α}
    (stored : Stored packed size read need v) (build : α → β) :
    Stored packed size (fun budget => do
      let v ← read budget
      pure (build v)) need (build v) := by
  obtain ⟨out, isOut, length, reads⟩ := stored
  refine ⟨out, isOut, length, fun budget => ?_⟩
  have both := Reads.bind (f := fun v => pure (build v)) (reads budget) (reads_pure (build v))
  rwa [List.append_nil, and_true] at both

/-- As many items as there are, each with its own need. -/
theorem Stored.items {pack : α → Option (List UInt8)} {weight : α → Nat} {read : Nat → Reader α}
    (vs : List α) (stored : ∀ v ∈ vs, Stored (pack v) (weight v) read need v) :
    Stored (Codec.writeItems pack vs) (vs.map weight).sum
      (fun budget => Reader.items (read budget) vs.length) (if vs = [] then 0 else need) vs := by
  induction vs with
  | nil =>
    exact ⟨[], rfl, rfl, fun _ => reads_items_nil.congr ⟨fun _ => Nat.zero_le _, fun _ => trivial⟩⟩
  | cons v vs ih =>
    obtain ⟨front, isFront, lengthFront, readsFront⟩ := stored v (.head _)
    obtain ⟨back, isBack, lengthBack, readsBack⟩ := ih fun v member => stored v (.tail _ member)
    refine ⟨front ++ back, ?_, ?_, fun budget => ?_⟩
    · rw [Codec.writeItems, isFront, isBack]
      rfl
    · rw [List.length_append, lengthFront, lengthBack, List.map_cons, List.sum_cons]
    · refine ((readsFront budget).items_cons (readsBack budget)).congr ?_
      rw [if_neg (List.cons_ne_nil v vs)]
      refine ⟨And.left, fun enough => ⟨enough, ?_⟩⟩
      split
      · exact Nat.zero_le _
      · exact enough

theorem stored_writeUint (fits : v < 256 ^ size) :
    Stored (some (Codec.writeUint size v)) size (readValue size) 3 v :=
  ⟨_, rfl, length_writeUint size v, reads_readValue fits⟩

theorem stored_readString {bytes : List UInt8} (short : bytes.length < maxStringLenPossible) :
    Stored (putString bytes) (varintSize bytes.length + bytes.length) readString 5 bytes := by
  have taken : Stored (some bytes) bytes.length
      (fun _ => if bytes.length < maxStringLenPossible then Reader.take bytes.length else failure)
      0 bytes := by
    rw [if_pos short]
    exact ⟨bytes, rfl, rfl, fun budget =>
      (reads_take bytes).congr ⟨fun _ => Nat.zero_le budget, fun _ => trivial⟩⟩
  exact Stored.counted
    (f := fun _ len => if len < maxStringLenPossible then Reader.take len else failure)
    (Nat.le_of_lt (short.trans (by decide))) taken

theorem stored_readStringValue {bytes : List UInt8} (short : bytes.length < maxStringLenPossible) :
    Stored (putString bytes) (varintSize bytes.length + bytes.length) readStringValue 6 bytes :=
  (stored_readString short).limitation

/-- An array of plain values or of strings. -/
theorem stored_readAe {pack : α → Option (List UInt8)} {weight : α → Nat} {read : Nat → Reader α}
    {vs : List α} (build : List α → ArrayEntry) (small : vs.length ≤ maxCount)
    (stored : ∀ v ∈ vs, Stored (pack v) (weight v) read need v) :
    Stored (PortableStorage.counted vs.length (Codec.writeItems pack vs))
      (varintSize vs.length + (vs.map weight).sum) (readAe read build)
      (1 + max 4 (if vs = [] then 0 else need)) (.array (build vs)) :=
  Stored.counted
    (f := fun budget size => do
      let vs ← Reader.items (read budget) size
      pure (StorageEntry.array (build vs)))
    small ((Stored.items vs stored).map fun vs => StorageEntry.array (build vs))

end Pieces

/-! ## Sections -/

theorem Sections.ofList_toList : ∀ ss : Sections, Sections.ofList ss.toList = ss
  | .nil => rfl
  | .cons s rest => by rw [toList, ofList, ofList_toList rest]

theorem readSection_eq : readSection = recursionLimitation (fun budget => do
    let count ← readVarint budget
    let entries ← Reader.items (do
      let secName ← readSecName budget
      let e ← loadStorageEntry budget
      pure (secName, e)) count
    pure (Section.ofList entries)) := by
  funext budget
  cases budget with
  | zero => rw [readSection]; rfl
  | succ budget => rw [readSection]; rfl

theorem readSeObject_eq : readSeObject = recursionLimitation (fun budget => do
    let s ← readSection budget
    pure (.object s)) := by
  funext budget
  cases budget with
  | zero => rw [readSeObject]; rfl
  | succ budget => rw [readSeObject]; rfl

theorem readAeObjects_eq : readAeObjects = recursionLimitation (fun budget => do
    let size ← readVarint budget
    let vs ← Reader.items (readObjectValue budget) size
    pure (.array (.objects (Sections.ofList vs)))) := by
  funext budget
  cases budget with
  | zero => rw [readAeObjects]; rfl
  | succ budget => rw [readAeObjects]; rfl

theorem readObjectValue_eq : readObjectValue = recursionLimitation readSection := by
  funext budget
  cases budget with
  | zero => rw [readObjectValue]; rfl
  | succ budget => rw [readObjectValue]; rfl

/-- What is read behind the code of an entry. -/
def loadTyped (budget entType : Nat) : Reader StorageEntry :=
  if serializeFlagArray ≤ entType then loadStorageArrayEntry budget entType
  else
    match PodType.ofCode entType with
    | some type => recursionLimitation (fun budget => do
        let v ← readPod type.size budget
        pure (.pod type v)) budget
    | none =>
      if entType = serializeTypeString then
        recursionLimitation (fun budget => do
          let v ← readStringValue budget
          pure (.string v)) budget
      else if entType = serializeTypeObject then readSeObject budget
      else if entType = serializeTypeArray then readSeArray budget
      else failure

theorem loadStorageEntry_eq :
    loadStorageEntry = recursionLimitation fun budget => readPod 1 budget >>= loadTyped budget := by
  funext budget
  cases budget with
  | zero => rw [loadStorageEntry]; rfl
  | succ budget => rw [loadStorageEntry]; rfl

/-- What is read behind the code of an array. -/
def loadTypedArray (budget type : Nat) : Reader StorageEntry :=
  match PodType.ofCode type with
  | some type => readAe (readValue type.size) (.pods type) budget
  | none =>
    if type = serializeTypeString then readAe readStringValue .strings budget
    else if type = serializeTypeObject then readAeObjects budget
    else if type = serializeTypeArray then
      readAe (fun _ => (failure : Reader Unit)) (fun _ => .arrays) budget
    else failure

theorem loadStorageArrayEntry_eq (entType : Nat) :
    (loadStorageArrayEntry · entType) =
      recursionLimitation fun budget => loadTypedArray budget (entType % serializeFlagArray) := by
  funext budget
  cases budget with
  | zero => rw [loadStorageArrayEntry]; rfl
  | succ budget => rw [loadStorageArrayEntry]; rfl

theorem PodType.ofCode_code (type : PodType) : PodType.ofCode type.code = some type := by
  cases type <;> rfl

theorem PodType.code_lt (type : PodType) : type.code < serializeFlagArray := by
  cases type <;> decide

section Entries

variable {size need code : Nat} {packed : Option (List UInt8)} {e : StorageEntry}

/-- An entry that is not an array behind its code. -/
theorem Stored.entry (codes : code < 256) (stored : Stored packed size (loadTyped · code) need e) :
    Stored (typed code packed) (1 + size) loadStorageEntry (1 + max 2 need) e := by
  obtain ⟨out, isOut, length, reads⟩ := stored
  rw [loadStorageEntry_eq]
  refine ⟨Codec.writeUint 1 code ++ out, by rw [isOut]; rfl, ?_, fun budget => ?_⟩
  · rw [List.length_append, length_writeUint, length]
  · have both (budget : Nat) : Reads (readPod 1 budget >>= loadTyped budget) (max 2 need ≤ budget)
        (Codec.writeUint 1 code ++ out) e :=
      ((reads_readPod (by rwa [pow_one]) budget).bind (reads budget)).congr max_le_iff.symm
    exact (reads_limitation both budget).congr (by rw [Nat.add_comm])

/-- An array behind the code of its items. -/
theorem Stored.array (codes : code < serializeFlagArray) (more : 2 ≤ need)
    (stored : Stored packed size (loadTypedArray · code) need e) :
    Stored (typed (code + serializeFlagArray) packed) (1 + size) loadStorageEntry
      (1 + (1 + need)) e := by
  have whole := stored.limitation
  have low : (code + serializeFlagArray) % serializeFlagArray = code := by
    rw [Nat.add_mod_right, Nat.mod_eq_of_lt codes]
  have same : (recursionLimitation fun budget => loadTypedArray budget code) =
      (loadTyped · (code + serializeFlagArray)) := by
    funext budget
    rw [loadTyped, if_pos (Nat.le_add_left _ _), ← low, ← loadStorageArrayEntry_eq, low]
  rw [same] at whole
  have behind := Stored.entry (Nat.add_lt_add_right codes serializeFlagArray) whole
  have most : max 2 (need + 1) = 1 + need := by omega
  rwa [most] at behind

end Entries

theorem stored_pod {type : PodType} {v : Nat} (fits : v < 256 ^ type.size) :
    Stored (StorageEntry.pod type v).packEntryToBuff (StorageEntry.pod type v).size
      loadStorageEntry (StorageEntry.pod type v).calls (.pod type v) := by
  have body : Stored (some (Codec.writeUint type.size v)) type.size (loadTyped · type.code) 3
      (.pod type v) := by
    have typeIs : (loadTyped · type.code) = recursionLimitation (fun budget => do
        let v ← readPod type.size budget
        pure (.pod type v)) := by
      funext budget
      rw [loadTyped, if_neg (Nat.not_le_of_lt type.code_lt), type.ofCode_code]
    rw [typeIs]
    have raw : Stored (some (Codec.writeUint type.size v)) type.size (readPod type.size) 2 v :=
      ⟨_, rfl, length_writeUint _ _, reads_readPod fits⟩
    exact (raw.map (StorageEntry.pod type)).limitation
  have whole := body.entry (type.code_lt.trans (by decide))
  rwa [StorageEntry.packEntryToBuff, StorageEntry.size, StorageEntry.calls]

theorem stored_string {bytes : List UInt8} (short : bytes.length < maxStringLenPossible) :
    Stored (StorageEntry.string bytes).packEntryToBuff (StorageEntry.string bytes).size
      loadStorageEntry (StorageEntry.string bytes).calls (.string bytes) := by
  have body : Stored (putString bytes) (varintSize bytes.length + bytes.length)
      (loadTyped · serializeTypeString) 7 (.string bytes) :=
    ((stored_readStringValue short).map StorageEntry.string).limitation
  have whole := body.entry (by decide)
  rwa [StorageEntry.packEntryToBuff, StorageEntry.size, StorageEntry.calls]

theorem stored_pods {type : PodType} {vs : List Nat} (small : vs.length ≤ maxCount)
    (fits : ∀ v ∈ vs, v < 256 ^ type.size) :
    Stored (ArrayEntry.pods type vs).packEntryToBuff (ArrayEntry.pods type vs).size
      loadStorageEntry (1 + (ArrayEntry.pods type vs).calls) (.array (.pods type vs)) := by
  have items := stored_readAe (.pods type) small fun v member => stored_writeUint (fits v member)
  have same : (loadTypedArray · type.code) = readAe (readValue type.size) (.pods type) := by
    funext budget
    rw [loadTypedArray, type.ofCode_code]
  rw [← same] at items
  have whole := items.array type.code_lt (by omega)
  have sum : (vs.map fun _ => type.size).sum = vs.length * type.size := by
    rw [List.map_const', List.sum_replicate, smul_eq_mul]
  have most : 1 + (1 + max 4 (if vs = [] then 0 else 3)) = 6 := by split <;> rfl
  rw [most, sum] at whole
  rwa [ArrayEntry.packEntryToBuff, ArrayEntry.size, ArrayEntry.calls]

theorem stored_strings {vs : List (List UInt8)} (small : vs.length ≤ maxCount)
    (short : ∀ v ∈ vs, v.length < maxStringLenPossible) :
    Stored (ArrayEntry.strings vs).packEntryToBuff (ArrayEntry.strings vs).size
      loadStorageEntry (1 + (ArrayEntry.strings vs).calls) (.array (.strings vs)) := by
  have items := stored_readAe .strings small fun v member => stored_readStringValue (short v member)
  have codeIs : Stored (counted vs.length (Codec.writeItems putString vs))
      (varintSize vs.length + (vs.map fun v => varintSize v.length + v.length).sum)
      (loadTypedArray · serializeTypeString) (1 + max 4 (if vs = [] then 0 else 6))
      (.array (.strings vs)) := items
  have whole := codeIs.array (by decide) (by omega)
  have most : 1 + (1 + (1 + max 4 (if vs = [] then 0 else 6))) =
      1 + (ArrayEntry.strings vs).calls := by
    rw [ArrayEntry.calls]
    split <;> rfl
  rw [most] at whole
  rwa [ArrayEntry.packEntryToBuff, ArrayEntry.size]

theorem stored_arrays : Stored ArrayEntry.arrays.packEntryToBuff ArrayEntry.arrays.size
    loadStorageEntry (1 + ArrayEntry.arrays.calls) (.array .arrays) := by
  have items := @stored_readAe Unit 3 (fun _ => none) (fun _ => 0)
    (fun _ => (failure : Reader Unit)) [] (fun _ => .arrays) (by decide)
    fun _ member => absurd member List.not_mem_nil
  have codeIs : Stored (counted 0 (some [])) 1 (loadTypedArray · serializeTypeArray) 5
      (.array .arrays) := items
  have whole := codeIs.array (by decide) (by decide)
  rwa [ArrayEntry.packEntryToBuff, ArrayEntry.size, ArrayEntry.calls]

/-- A section, from its entries. -/
theorem stored_section {s : Section} (small : s.length ≤ maxCount)
    (ordered : s.names.Pairwise Section.nameLt)
    (entries : Stored s.packEntries s.sizeEntries (fun budget => Reader.items (do
      let secName ← readSecName budget
      let e ← loadStorageEntry budget
      pure (secName, e)) s.length) s.callsEntries s.toList) :
    Stored s.packEntryToBuff s.size readSection s.calls s := by
  rw [readSection_eq]
  have whole := Stored.counted
    (f := fun budget count => do
      let entries ← Reader.items (do
        let secName ← readSecName budget
        let e ← loadStorageEntry budget
        pure (secName, e)) count
      pure (Section.ofList entries))
    small (entries.map Section.ofList)
  rwa [Section.ofList_toList ordered] at whole

theorem stored_object {s : Section} (stored : Stored s.packEntryToBuff s.size readSection s.calls s) :
    Stored (StorageEntry.object s).packEntryToBuff (StorageEntry.object s).size
      loadStorageEntry (StorageEntry.object s).calls (.object s) := by
  have body := (stored.map StorageEntry.object).limitation
  rw [← readSeObject_eq] at body
  have typeIs : Stored s.packEntryToBuff s.size (loadTyped · serializeTypeObject) (s.calls + 1)
      (.object s) := body
  have whole := typeIs.entry (by decide)
  have most : 1 + max 2 (s.calls + 1) = (StorageEntry.object s).calls := by
    rw [StorageEntry.calls, Section.calls]
    omega
  rw [most] at whole
  rwa [StorageEntry.packEntryToBuff, StorageEntry.size]

theorem stored_objects {ss : Sections} (small : ss.length ≤ maxCount)
    (items : Stored ss.packItems ss.sizeItems
      (fun budget => Reader.items (readObjectValue budget) ss.length) ss.callsItems ss.toList) :
    Stored (ArrayEntry.objects ss).packEntryToBuff (ArrayEntry.objects ss).size
      loadStorageEntry (1 + (ArrayEntry.objects ss).calls) (.array (.objects ss)) := by
  have body := Stored.counted
    (f := fun budget size => do
      let vs ← Reader.items (readObjectValue budget) size
      pure (StorageEntry.array (.objects (Sections.ofList vs))))
    small (items.map fun vs => StorageEntry.array (.objects (Sections.ofList vs)))
  rw [← readAeObjects_eq, Sections.ofList_toList] at body
  have typeIs : Stored (counted ss.length ss.packItems) (varintSize ss.length + ss.sizeItems)
      (loadTypedArray · serializeTypeObject) (1 + max 4 ss.callsItems)
      (.array (.objects ss)) := body
  have whole := typeIs.array (by decide) (by omega)
  have most : 1 + (1 + (1 + max 4 ss.callsItems)) = 1 + (ArrayEntry.objects ss).calls := by
    rw [ArrayEntry.calls]
    omega
  rw [most] at whole
  rwa [ArrayEntry.packEntryToBuff, ArrayEntry.size]

theorem StorageEntry.four_le_calls (e : StorageEntry) : 4 ≤ e.calls := by
  cases e with
  | pod type v => rw [calls]
  | string v => rw [calls]; decide
  | object s => rw [calls]; omega
  | array a =>
    rw [calls]
    cases a with
    | pods type vs => rw [ArrayEntry.calls]; decide
    | strings vs => rw [ArrayEntry.calls]; split <;> decide
    | objects ss => rw [ArrayEntry.calls]; omega
    | arrays => rw [ArrayEntry.calls]; decide

theorem reads_pair {α β : Type} {read : Reader β} {condition : Prop} {out : List UInt8} {a : α}
    {b : β} (reads : Reads read condition out b) :
    Reads (do
      let b ← read
      pure (a, b)) condition out (a, b) := by
  have both := Reads.bind (f := fun b => pure (a, b)) reads (reads_pure (a, b))
  rwa [List.append_nil, and_true] at both

mutual

/-- An entry is read again. The induction follows the entry through its sections. -/
theorem StorageEntry.stored : ∀ e : StorageEntry, e.Fits 255 →
    Stored e.packEntryToBuff e.size loadStorageEntry e.calls e
  | .pod _ _, fits => stored_pod (by rwa [StorageEntry.Fits] at fits)
  | .string _, fits => stored_string (by rwa [StorageEntry.Fits] at fits)
  | .object s, fits => by
    rw [StorageEntry.Fits] at fits
    exact stored_object (stored_section fits.1.1 fits.1.2 (s.storedEntries fits.2))
  | .array a, fits => by
    rw [StorageEntry.Fits] at fits
    rw [StorageEntry.packEntryToBuff, StorageEntry.size, StorageEntry.calls]
    exact a.stored fits

theorem ArrayEntry.stored : ∀ a : ArrayEntry, a.Fits 255 →
    Stored a.packEntryToBuff a.size loadStorageEntry (1 + a.calls) (.array a)
  | .pods _ _, fits => by
    rw [ArrayEntry.Fits] at fits
    exact stored_pods fits.1 fits.2
  | .strings _, fits => by
    rw [ArrayEntry.Fits] at fits
    exact stored_strings fits.1 fits.2
  | .objects ss, fits => by
    rw [ArrayEntry.Fits] at fits
    exact stored_objects fits.1 (ss.storedItems fits.2)
  | .arrays, _ => stored_arrays

theorem Section.storedEntries : ∀ s : Section, s.FitsEntries 255 →
    Stored s.packEntries s.sizeEntries (fun budget => Reader.items (do
      let secName ← readSecName budget
      let e ← loadStorageEntry budget
      pure (secName, e)) s.length) s.callsEntries s.toList
  | .nil, _ => ⟨[], rfl, rfl, fun _ =>
      reads_items_nil.congr ⟨fun _ => Nat.zero_le _, fun _ => trivial⟩⟩
  | .cons name e rest, fits => by
    obtain ⟨⟨short, fit⟩, others⟩ := fits
    obtain ⟨front, isFront, lengthFront, readsFront⟩ := e.stored fit
    obtain ⟨back, isBack, lengthBack, readsBack⟩ := rest.storedEntries others
    refine ⟨Codec.writeUint 1 name.length ++ name ++ front ++ back, ?_, ?_, fun budget => ?_⟩
    · rw [Section.packEntries, if_pos short, isFront, isBack]
      rfl
    · simp only [List.length_append, length_writeUint, lengthFront, lengthBack,
        Section.sizeEntries]
    · have first := Reads.bind
        (f := fun secName => do
          let e ← loadStorageEntry budget
          pure (secName, e))
        (reads_readSecName (show name.length < 256 by omega) budget)
        (reads_pair (readsFront budget))
      refine (first.items_cons (readsBack budget)).congr ?_
      have more := e.four_le_calls
      rw [Section.callsEntries]
      omega

theorem Sections.storedItems : ∀ ss : Sections, ss.FitsItems 255 →
    Stored ss.packItems ss.sizeItems
      (fun budget => Reader.items (readObjectValue budget) ss.length) ss.callsItems ss.toList
  | .nil, _ => ⟨[], rfl, rfl, fun _ =>
      reads_items_nil.congr ⟨fun _ => Nat.zero_le _, fun _ => trivial⟩⟩
  | .cons s rest, fits => by
    obtain ⟨⟨⟨small, ordered⟩, entries⟩, others⟩ := fits
    have whole := (stored_section small ordered (s.storedEntries entries)).limitation
    rw [← readObjectValue_eq] at whole
    obtain ⟨front, isFront, lengthFront, readsFront⟩ := whole
    obtain ⟨back, isBack, lengthBack, readsBack⟩ := rest.storedItems others
    refine ⟨front ++ back, ?_, ?_, fun budget => ?_⟩
    · rw [Section.packEntryToBuff] at isFront
      rw [Sections.packItems, isFront, isBack]
      rfl
    · rw [List.length_append, lengthFront, lengthBack, Section.size, Sections.sizeItems]
    · refine ((readsFront budget).items_cons (readsBack budget)).congr ?_
      rw [Sections.callsItems, Section.calls]
      omega

end

end Virie.PortableStorage
