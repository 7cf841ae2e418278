import KernelProfile.Pdb.PublicSymbol
import KernelProfile.Table

/-! Relative virtual addresses of segment and offset pairs. Segments count the sections from one.
Where an image was rearranged after linking, addresses are computed for the old arrangement and
then moved by the entry with the nearest source below. -/
namespace KernelProfile.Pdb

/-- A section header, as far as it matters: name, size and address. -/
structure SectionHeader where
  name : Bytes
  virtualSize : Nat
  virtualAddress : Nat
  deriving DecidableEq, Repr

namespace SectionHeader

def recordSize : Nat := 40

/-- The section headers of a stream; what is too short for a header is left over. -/
def list : Nat → Bytes → List SectionHeader
  | 0, _ => []
  | bound + 1, data =>
    match data.split? recordSize with
    | none => []
    | some (record, rest) =>
      ⟨record.take 8, record.littleAt 8 4, record.littleAt 12 4⟩ :: list bound rest

def ofBytes (data : Bytes) : List SectionHeader := list data.length data

end SectionHeader

/-- A rearranged range: where it was and where it is now. -/
structure OmapEntry where
  source : Int
  target : Int
  deriving DecidableEq, Repr

namespace OmapEntry

/-- The entries of a stream; what is too short for an entry is left over. -/
def ofBytes : Bytes → List OmapEntry
  | a :: b :: c :: d :: e :: f :: g :: h :: rest =>
    ⟨Bytes.littleNat [a, b, c, d], Bytes.littleNat [e, f, g, h]⟩ :: ofBytes rest
  | _ => []

/-- Whether an entry comes before another by source and then by target, or is the same. -/
def le (a b : OmapEntry) : Bool :=
  a.source < b.source || (a.source == b.source && a.target ≤ b.target)

/-- Entries in the order of their sources. -/
def sort (entries : List OmapEntry) : List OmapEntry := entries.mergeSort le

end OmapEntry

/-- A place that a list was asked for and does not have. -/
structure NoPlace where
  place : Nat
  count : Nat
  deriving DecidableEq, Repr

/-- Section addresses, and the entries that move addresses; without any, nothing moves. -/
structure AddressMap where
  sections : List Int
  omap : List OmapEntry := []

namespace AddressMap

/-- Halve the range from `low` to `high` until it is empty: the place behind the last source that is
not above the address, if the sources are sorted. -/
def bisect (sources : Array Int) (address : Int) (low high : Nat) : Nat :=
  if low < high then
    let middle := (low + high) / 2
    if address < sources.getD middle 0 then bisect sources address low middle
    else bisect sources address (middle + 1) high
  else low
termination_by high - low

/-- The element at a place that the list has to have. -/
def elementAt {α : Type} (l : List α) (place : Nat) : Except NoPlace α :=
  match l[place]? with
  | none => .error ⟨place, l.length⟩
  | some a => .ok a

/-- The address of a place, if its section exists and it was not moved away. -/
def rva (m : AddressMap) (segment offset : Int) : Except NoPlace (Option Int) :=
  if segment < 1 || m.sections.length < segment then .ok none
  else do
    let address := (← elementAt m.sections (segment - 1).toNat) + offset
    if m.omap.isEmpty then return some address
    else
      match bisect (m.omap.map OmapEntry.source).toArray address 0 m.omap.length with
      | 0 => return none
      | place + 1 =>
        let e ← elementAt m.omap place
        if e.target = 0 then return none else return some (e.target + (address - e.source))

/-- Put a symbol into a table, if it has a name and an address. -/
def addSymbol (m : AddressMap) (table : Table Int) (s : PublicSymbol) :
    Except NoPlace (Table Int) :=
  match s.name with
  | none => .ok table
  | some name => do
    match ← m.rva s.segment s.offset with
    | none => return table
    | some address => return table.insert name address

/-- The symbols that have a name and an address, the last address of a name at the place of its
first. -/
def symbolTable (m : AddressMap) (symbols : List PublicSymbol) : Except NoPlace (Table Int) :=
  symbols.foldlM m.addSymbol .empty

end AddressMap
end KernelProfile.Pdb
