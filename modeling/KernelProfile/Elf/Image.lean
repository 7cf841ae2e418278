import KernelProfile.Bytes
import KernelProfile.Text.Utf8

/-! Images in the executable and linkable format: the file header, the section headers with their
names, and the contents of sections. Both classes and both byte orders are read. -/
namespace KernelProfile.Elf

/-- What a file header says. -/
structure FileHeader where
  is64 : Bool
  littleEndian : Bool
  machine : Nat
  sectionOffset : Nat
  sectionEntrySize : Nat
  sectionCount : Nat
  nameSection : Nat
  deriving DecidableEq, Repr

/-- What a section header says. -/
structure SectionHeader where
  nameOffset : Nat
  type : Nat
  address : Nat
  offset : Nat
  size : Nat
  link : Nat
  entrySize : Nat
  deriving DecidableEq, Repr

/-- A section with its name. -/
structure Section where
  name : String
  header : SectionHeader
  deriving DecidableEq, Repr

/-- An image: its bytes, its header and its sections. -/
structure Image where
  file : Bytes
  header : FileHeader
  sections : List Section

/-- The number in `width` bytes at an offset, if they are all there. -/
def number? (littleEndian : Bool) (bytes : Bytes) (offset width : Nat) : Option Nat :=
  let part := bytes.slice offset width
  if part.length = width then some (Bytes.toNat littleEndian part) else none

/-- The text up to the zero byte behind an offset, if there is such a byte. -/
def zeroTerminated? (bytes : Bytes) (offset : Nat) : Option Bytes :=
  let rest := bytes.drop offset
  let text := rest.takeWhile (· != 0)
  if text.length < rest.length then some text else none

namespace FileHeader

/-- The text at the start of every image. -/
def magic : Bytes := [0x7F, 0x45, 0x4C, 0x46]

def size (is64 : Bool) : Nat := if is64 then 64 else 52

/-- The size of a section header. -/
def sectionHeaderSize (h : FileHeader) : Nat := if h.is64 then 64 else 40

/-- The class that the fifth byte names. -/
def classOf? : UInt8 → Option Bool
  | 1 => some false
  | 2 => some true
  | _ => none

/-- The byte order that the sixth byte names. -/
def orderOf? : UInt8 → Option Bool
  | 1 => some true
  | 2 => some false
  | _ => none

/-- The file header of an image. -/
def ofBytes? (file : Bytes) : Option FileHeader := do
  guard (file.take 4 = magic)
  let is64 ← classOf? (← file[4]?)
  let littleEndian ← orderOf? (← file[5]?)
  guard (size is64 ≤ file.length)
  let word (offset width : Nat) := number? littleEndian file offset width
  let rest := size is64
  return {
    is64, littleEndian
    machine := ← word 18 2
    sectionOffset := ← (if is64 then word 40 8 else word 32 4)
    sectionEntrySize := ← word (rest - 6) 2
    sectionCount := ← word (rest - 4) 2
    nameSection := ← word (rest - 2) 2 }

/-- The place of a section header. -/
def sectionPlace? (h : FileHeader) (index : Nat) : Option Nat :=
  if 0 < h.sectionOffset && h.sectionEntrySize < h.sectionHeaderSize then none
  else some (h.sectionOffset + index * h.sectionEntrySize)

/-- A section header of an image. -/
def sectionHeader? (h : FileHeader) (file : Bytes) (index : Nat) : Option SectionHeader := do
  let place ← h.sectionPlace? index
  let word (offset width : Nat) := number? h.littleEndian file (place + offset) width
  guard (place + h.sectionHeaderSize ≤ file.length)
  if h.is64 then
    return ⟨← word 0 4, ← word 4 4, ← word 16 8, ← word 24 8, ← word 32 8, ← word 40 4,
      ← word 56 8⟩
  else
    return ⟨← word 0 4, ← word 4 4, ← word 12 4, ← word 16 4, ← word 20 4, ← word 24 4,
      ← word 36 4⟩

/-- The section that holds the names of sections. Where the number is too great for its field, the
first section header holds it. -/
def nameSectionIndex? (h : FileHeader) (file : Bytes) : Option Nat :=
  if h.nameSection = 0xFFFF then (h.sectionHeader? file 0).map SectionHeader.link
  else some h.nameSection

/-- The number of sections. Where it is too great for its field, the first section header holds
it. -/
def sectionTotal? (h : FileHeader) (file : Bytes) : Option Nat :=
  if h.sectionOffset = 0 then some 0
  else if h.sectionCount = 0 then (h.sectionHeader? file 0).map SectionHeader.size
  else some h.sectionCount

end FileHeader

/-- Types of sections that matter here. -/
def symbolTableTypes : List Nat := [2, 11]

def relocationType : Nat := 9

def addendRelocationType : Nat := 4

def emptyType : Nat := 8

/-- Whether a section of a type with fixed entries is divided as it should be. -/
def SectionHeader.isSound (s : SectionHeader) (h : FileHeader) (file : Bytes) : Bool :=
  if s.type ∈ symbolTableTypes then
    0 < s.entrySize && s.size % s.entrySize == 0 && (h.sectionHeader? file s.link).isSome
  else if s.type = addendRelocationType then s.entrySize == (if h.is64 then 24 else 12)
  else if s.type = relocationType then s.entrySize == (if h.is64 then 16 else 8)
  else true

namespace Image

/-- The sections from an index on. -/
def sectionsFrom (h : FileHeader) (file : Bytes) (names : SectionHeader) :
    Nat → Nat → Option (List Section)
  | 0, _ => some []
  | count + 1, index => do
    let s ← h.sectionHeader? file index
    let name := Text.Utf8.decodeLossy ((zeroTerminated? file (names.offset + s.nameOffset)).getD [])
    guard (s.isSound h file)
    return ⟨name, s⟩ :: (← sectionsFrom h file names count (index + 1))

/-- The image of a file, if the structure of all its sections can be read. -/
def ofBytes? (file : Bytes) : Option Image := do
  let h ← FileHeader.ofBytes? file
  let nameIndex ← h.nameSectionIndex? file
  let place ← h.sectionPlace? nameIndex
  if file.length < place then
    -- without names there may be no section at all
    guard ((← h.sectionTotal? file) = 0)
    return ⟨file, h, []⟩
  else
    let names ← h.sectionHeader? file nameIndex
    let total ← h.sectionTotal? file
    return ⟨file, h, ← sectionsFrom h file names total 0⟩

/-- The last section of a name. -/
def section? (image : Image) (name : String) : Option Section :=
  image.sections.reverse.find? fun s => s.name == name

/-- The bytes that an image has for a section. -/
def contents (image : Image) (s : Section) : Bytes :=
  if s.header.type = emptyType then List.replicate s.header.size 0
  else image.file.slice s.header.offset s.header.size

/-- The name of the image's machine, as far as profiles know it. -/
def machineName (image : Image) : String :=
  match image.header.machine with
  | 3 => "EM_386"
  | 40 => "EM_ARM"
  | 62 => "EM_X86_64"
  | 183 => "EM_AARCH64"
  | n => "EM_" ++ toString n

end Image
end KernelProfile.Elf
