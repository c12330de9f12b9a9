import Virie.Foundation.Reader

/-! # Portable storage

The commands of the network and of the binary interfaces travel as sections: maps of names to
numbers, strings, sections and arrays. The binary format starts every entry with a code for its
type. The reader counts the calls that are in progress and stops where they are too many: every
call of one of its functions takes one from a budget. -/

open Foundation

namespace Virie.PortableStorage

def portableStorageSignaturea : Nat := 0x01011101
def portableStorageSignatureb : Nat := 0x01020101
def portableStorageFormatVer : Nat := 1
def maxStringLenPossible : Nat := 2000000000
def epeePortableStorageRecursionLimit : Nat := 100

/-! ## Sections -/

/-- The types of plain values. A value is kept as the number that its bytes spell. -/
inductive PodType where
  | int64 | int32 | int16 | int8 | uint64 | uint32 | uint16 | uint8 | double | bool
deriving DecidableEq

namespace PodType

/-- The code of an entry of the type. -/
def code : PodType → Nat
  | int64 => 1 | int32 => 2 | int16 => 3 | int8 => 4
  | uint64 => 5 | uint32 => 6 | uint16 => 7 | uint8 => 8
  | double => 9 | bool => 11

/-- The number of bytes of a value. -/
def size : PodType → Nat
  | int64 | uint64 | double => 8
  | int32 | uint32 => 4
  | int16 | uint16 => 2
  | int8 | uint8 | bool => 1

def ofCode : Nat → Option PodType
  | 1 => some int64 | 2 => some int32 | 3 => some int16 | 4 => some int8
  | 5 => some uint64 | 6 => some uint32 | 7 => some uint16 | 8 => some uint8
  | 9 => some double | 11 => some bool
  | _ => none

end PodType

def serializeTypeString : Nat := 10
def serializeTypeObject : Nat := 12
def serializeTypeArray : Nat := 13
def serializeFlagArray : Nat := 0x80

mutual

/-- An entry of a section. -/
inductive StorageEntry where
  | pod (type : PodType) (v : Nat)
  | string (v : List UInt8)
  | object (v : Section)
  | array (v : ArrayEntry)

/-- An array. Reading an array of arrays that is not empty copies bytes over a variant, which is
undefined; only the empty one is a value here. -/
inductive ArrayEntry where
  | pods (type : PodType) (vs : List Nat)
  | strings (vs : List (List UInt8))
  | objects (vs : Sections)
  | arrays

/-- A map of names to entries, in the order of the names. -/
inductive Section where
  | nil
  | cons (name : List UInt8) (e : StorageEntry) (rest : Section)

inductive Sections where
  | nil
  | cons (s : Section) (rest : Sections)

end

namespace Section

def length : Section → Nat
  | nil => 0
  | cons _ _ rest => rest.length + 1

def names : Section → List (List UInt8)
  | nil => []
  | cons name _ rest => name :: rest.names

def toList : Section → List (List UInt8 × StorageEntry)
  | nil => []
  | cons name e rest => (name, e) :: rest.toList

/-- The order of strings. -/
def nameLt (a b : List UInt8) : Prop := a.map UInt8.toNat < b.map UInt8.toNat

instance (a b : List UInt8) : Decidable (nameLt a b) :=
  inferInstanceAs (Decidable (a.map UInt8.toNat < b.map UInt8.toNat))

/-- An entry whose name is there already is dropped. -/
def insert (name : List UInt8) (e : StorageEntry) : Section → Section
  | nil => cons name e nil
  | cons first other rest =>
    if name = first then cons first other rest
    else if nameLt name first then cons name e (cons first other rest)
    else cons first other (rest.insert name e)

/-- The entries one after the other, from the front. -/
def ofList (entries : List (List UInt8 × StorageEntry)) : Section :=
  entries.foldl (fun s entry => s.insert entry.1 entry.2) nil

end Section

namespace Sections

def length : Sections → Nat
  | nil => 0
  | cons _ rest => rest.length + 1

def toList : Sections → List Section
  | nil => []
  | cons s rest => s :: rest.toList

def ofList : List Section → Sections
  | [] => nil
  | s :: rest => cons s (ofList rest)

end Sections

/-! ## Storing -/

/-- A size, in as few bytes as possible; the lowest two bits tell how many. -/
def packVarint (val : Nat) : Option (List UInt8) :=
  if val ≤ 63 then some (Codec.writeUint 1 (val * 4))
  else if val ≤ 16383 then some (Codec.writeUint 2 (val * 4 + 1))
  else if val ≤ 1073741823 then some (Codec.writeUint 4 (val * 4 + 2))
  else if val ≤ 4611686018427387903 then some (Codec.writeUint 8 (val * 4 + 3))
  else none

/-- A number of items and the items. -/
def counted (count : Nat) (items : Option (List UInt8)) : Option (List UInt8) := do
  let front ← packVarint count
  let back ← items
  pure (front ++ back)

def putString (v : List UInt8) : Option (List UInt8) := counted v.length (some v)

/-- The bytes behind the code of a type. -/
def typed (code : Nat) (body : Option (List UInt8)) : Option (List UInt8) :=
  body.map (Codec.writeUint 1 code ++ ·)

mutual

def StorageEntry.packEntryToBuff : StorageEntry → Option (List UInt8)
  | .pod type v => typed type.code (some (Codec.writeUint type.size v))
  | .string v => typed serializeTypeString (putString v)
  | .object s => typed serializeTypeObject (counted s.length s.packEntries)
  | .array a => a.packEntryToBuff

def ArrayEntry.packEntryToBuff : ArrayEntry → Option (List UInt8)
  | .pods type vs => typed (type.code + serializeFlagArray)
      (counted vs.length (Codec.writeItems (fun v => some (Codec.writeUint type.size v)) vs))
  | .strings vs => typed (serializeTypeString + serializeFlagArray)
      (counted vs.length (Codec.writeItems putString vs))
  | .objects ss => typed (serializeTypeObject + serializeFlagArray)
      (counted ss.length ss.packItems)
  | .arrays => typed (serializeTypeArray + serializeFlagArray) (counted 0 (some []))

/-- The entries of a section. A name that is too long is an exception. -/
def Section.packEntries : Section → Option (List UInt8)
  | .nil => some []
  | .cons name e rest => do
    let front ← if name.length < 255 then e.packEntryToBuff else none
    let back ← rest.packEntries
    pure (Codec.writeUint 1 name.length ++ name ++ front ++ back)

def Sections.packItems : Sections → Option (List UInt8)
  | .nil => some []
  | .cons s rest => do
    let front ← counted s.length s.packEntries
    let back ← rest.packItems
    pure (front ++ back)

end

def Section.packEntryToBuff (s : Section) : Option (List UInt8) := counted s.length s.packEntries

def storageBlockHeader : List UInt8 :=
  Codec.writeUint 4 portableStorageSignaturea ++ Codec.writeUint 4 portableStorageSignatureb ++
    Codec.writeUint 1 portableStorageFormatVer

/-- The blob of a section; an exception is a failure. -/
def storeToBinary (root : Section) : Option (List UInt8) :=
  root.packEntryToBuff.map (storageBlockHeader ++ ·)

/-! ## Loading -/

/-- A call in progress: the body has one less in the budget. -/
def recursionLimitation {α : Type} (body : Nat → Reader α) : Nat → Reader α
  | 0 => failure
  | budget + 1 => body budget

/-- Some bytes. -/
def readBytes (count : Nat) : Nat → Reader (List UInt8) :=
  recursionLimitation fun _ => Reader.take count

/-- The bytes of a plain value. -/
def readRaw (size : Nat) : Nat → Reader Nat := recursionLimitation fun _ => Reader.uint size

def readPod (size : Nat) : Nat → Reader Nat := recursionLimitation fun budget => readRaw size budget

/-- A plain value as a result. -/
def readValue (size : Nat) : Nat → Reader Nat :=
  recursionLimitation fun budget => readPod size budget

def readSecName : Nat → Reader (List UInt8) :=
  recursionLimitation fun budget => do
    let nameLen ← readPod 1 budget
    readBytes nameLen budget

/-- The lowest two bits of the first byte tell the number of bytes. -/
def readVarint : Nat → Reader Nat :=
  recursionLimitation fun budget => do
    match ← get with
    | [] => failure
    | first :: _ =>
      let v ← readValue (2 ^ (first.toNat % 4)) budget
      pure (v / 4)

def readString : Nat → Reader (List UInt8) :=
  recursionLimitation fun budget => do
    let len ← readVarint budget
    if len < maxStringLenPossible then Reader.take len else failure

/-- A string as a result. -/
def readStringValue : Nat → Reader (List UInt8) :=
  recursionLimitation fun budget => readString budget

/-- An array of plain values or of strings. -/
def readAe {α : Type} (readValue : Nat → Reader α) (build : List α → ArrayEntry) :
    Nat → Reader StorageEntry :=
  recursionLimitation fun budget => do
    let size ← readVarint budget
    let vs ← Reader.items (readValue budget) size
    pure (.array (build vs))

mutual

/-- A section. -/
def readSection : Nat → Reader Section
  | 0 => failure
  | budget + 1 => do
    let count ← readVarint budget
    let entries ← Reader.items (do
      let secName ← readSecName budget
      let e ← loadStorageEntry budget
      pure (secName, e)) count
    pure (Section.ofList entries)

def loadStorageEntry : Nat → Reader StorageEntry
  | 0 => failure
  | budget + 1 => do
    let entType ← readPod 1 budget
    if serializeFlagArray ≤ entType then loadStorageArrayEntry budget entType
    else
      match PodType.ofCode entType with
      | some type => recursionLimitation (fun budget => do
          let v ← readPod type.size budget
          pure (.pod type v)) budget
      | none =>
        if entType = serializeTypeString then
          recursionLimitation (fun budget => do
            let v ← readStringValue budget
            pure (.string v)) budget
        else if entType = serializeTypeObject then readSeObject budget
        else if entType = serializeTypeArray then readSeArray budget
        else failure

/-- An entry that is a section. -/
def readSeObject : Nat → Reader StorageEntry
  | 0 => failure
  | budget + 1 => do
    let s ← readSection budget
    pure (.object s)

/-- An array behind a code of its own. -/
def readSeArray : Nat → Reader StorageEntry
  | 0 => failure
  | budget + 1 => do
    let entType ← readPod 1 budget
    if serializeFlagArray ≤ entType then loadStorageArrayEntry budget entType else failure

def loadStorageArrayEntry : Nat → Nat → Reader StorageEntry
  | 0, _ => failure
  | budget + 1, entType =>
    let type := entType % serializeFlagArray
    match PodType.ofCode type with
    | some type => readAe (readValue type.size) (.pods type) budget
    | none =>
      if type = serializeTypeString then readAe readStringValue .strings budget
      else if type = serializeTypeObject then readAeObjects budget
      else if type = serializeTypeArray then
        readAe (fun _ => (failure : Reader Unit)) (fun _ => .arrays) budget
      else failure

/-- An array of sections. -/
def readAeObjects : Nat → Reader StorageEntry
  | 0 => failure
  | budget + 1 => do
    let size ← readVarint budget
    let vs ← Reader.items (readObjectValue budget) size
    pure (.array (.objects (Sections.ofList vs)))

/-- A section as a result. -/
def readObjectValue : Nat → Reader Section
  | 0 => failure
  | budget + 1 => readSection budget

end

/-- The section of a blob. What follows the section is not looked at. -/
def loadFromBinary (source : List UInt8) : Option Section :=
  if source.length < 9 ∨ source.take 9 ≠ storageBlockHeader ∨ source.drop 9 = [] then none
  else
    (readSection (epeePortableStorageRecursionLimit - 1) (source.drop 9)).map Prod.fst

end Virie.PortableStorage
