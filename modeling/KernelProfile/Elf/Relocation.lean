import KernelProfile.Elf.Image

/-! Relocations of debug sections. An object file leaves the references between its debug sections
to be filled in; each entry names a place, a symbol and an addend, and the place receives their
sum. -/
namespace KernelProfile.Elf

/-- One relocation entry. -/
structure Relocation where
  place : Nat
  symbol : Nat
  type : Nat
  addend : Int
  deriving DecidableEq, Repr

/-- How a type of relocation fills its place: how many bytes, and what from. -/
inductive Recipe where
  | keep (width : Nat)
  | sum (width : Nat)
  | relativeSum (width : Nat)
  deriving DecidableEq, Repr

namespace Recipe

def width : Recipe → Nat
  | keep w => w
  | sum w => w
  | relativeSum w => w

/-- The recipes of 64-bit x86 images. -/
def ofType? : Nat → Option Recipe
  | 0 => some (keep 8)
  | 1 => some (sum 8)
  | 2 => some (relativeSum 4)
  | 10 => some (sum 4)
  | 11 => some (sum 4)
  | _ => none

/-- The number that belongs to a place that holds `old`. -/
def value (r : Recipe) (old : Nat) (symbol : Nat) (e : Relocation) : Int :=
  match r with
  | keep _ => old
  | sum _ => symbol + e.addend
  | relativeSum _ => symbol + e.addend - e.place

end Recipe

/-- Bytes of a number in a byte order. -/
def bytesOf (littleEndian : Bool) (width n : Nat) : Bytes :=
  let bytes := Bytes.ofNatLittle width n
  if littleEndian then bytes else bytes.reverse

/-- Write bytes over those at an offset. -/
def overwrite (data : Bytes) (offset : Nat) (bytes : Bytes) : Bytes :=
  data.take offset ++ bytes ++ data.drop (offset + bytes.length)

namespace Image

/-- The value of a symbol. -/
def symbolValue? (image : Image) (table : SectionHeader) (index : Nat) : Option Nat := do
  guard (index < table.size / table.entrySize)
  let place := table.offset + index * table.entrySize
  guard (place + (if image.header.is64 then 24 else 16) ≤ image.file.length)
  if image.header.is64 then number? image.header.littleEndian image.file (place + 8) 8
  else number? image.header.littleEndian image.file (place + 4) 4

/-- A relocation entry of a section with addends. -/
def relocation? (image : Image) (s : SectionHeader) (index : Nat) : Option Relocation := do
  let place := s.offset + index * s.entrySize
  let word (offset width : Nat) :=
    number? image.header.littleEndian image.file (place + offset) width
  if image.header.is64 then
    let info ← word 8 8
    return ⟨← word 0 8, info / 2 ^ 32, info % 2 ^ 32, Bytes.signed 8 (← word 16 8)⟩
  else
    let info ← word 4 4
    return ⟨← word 0 4, info / 2 ^ 8, info % 2 ^ 8, Bytes.signed 4 (← word 8 4)⟩

/-- The section with the relocations of another. -/
def relocationsOf? (image : Image) (name : String) : Option Section :=
  image.sections.find? fun s =>
    (s.header.type = relocationType || s.header.type = addendRelocationType) &&
      (s.name == ".rel" ++ name || s.name == ".rela" ++ name)

/-- Fill one place. -/
def relocate (image : Image) (symbols : SectionHeader) (data : Bytes) (e : Relocation) :
    Option Bytes := do
  let symbol ← image.symbolValue? symbols e.symbol
  guard (image.header.machine = 62)
  let recipe ← Recipe.ofType? e.type
  let old ← number? image.header.littleEndian data e.place recipe.width
  let value := (recipe.value old symbol e % 256 ^ recipe.width).toNat
  return overwrite data e.place (bytesOf image.header.littleEndian recipe.width value)

/-- The contents of a section with its relocations filled in, if they can be. -/
def relocated? (image : Image) (s : Section) : Option Bytes := do
  let data := image.contents s
  match image.relocationsOf? s.name with
  | none => return data
  | some r =>
    let symbols ← image.header.sectionHeader? image.file r.header.link
    guard (symbols.type ∈ symbolTableTypes)
    let count := r.header.size / r.header.entrySize
    if count = 0 then return data
    else
      guard (r.header.type = addendRelocationType)
      guard (r.header.offset + count * r.header.entrySize ≤ image.file.length)
      (List.range count).foldlM (fun data i => do
        image.relocate symbols data (← image.relocation? r.header i)) data

end Image
end KernelProfile.Elf
