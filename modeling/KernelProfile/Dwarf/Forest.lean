import KernelProfile.Dwarf.Die

/-! Debugging information held in memory: units with trees of entries. References are by offset and
may lead into any unit. -/
namespace KernelProfile.Dwarf

/-- An entry with the entries below it. -/
inductive Tree where
  | node (die : Die) (below : List Tree)

namespace Tree

def die : Tree → Die
  | node d _ => d

mutual

/-- An entry and all below it, each with the entries directly below. -/
def flatten : Tree → List (Die × List Die)
  | node d below => (d, below.map Tree.die) :: flattenAll below

def flattenAll : List Tree → List (Die × List Die)
  | [] => []
  | t :: rest => t.flatten ++ flattenAll rest

end

end Tree

/-- A unit: its line table and its top-level entries. -/
structure MemoryUnit where
  lineTable : Option LineTable
  top : List Tree

/-- Units held in memory. -/
structure Forest where
  littleEndian : Bool
  units : List MemoryUnit

namespace Forest

/-- Every entry with the entries directly below. -/
def entries (f : Forest) : List (Die × List Die) :=
  f.units.flatMap fun u => Tree.flattenAll u.top

/-- The entry at an offset. -/
def dieAt? (f : Forest) (offset : Int) : Option Die :=
  (f.entries.find? fun e => e.1.offset == offset).map Prod.fst

def info (f : Forest) : DebugInfo where
  littleEndian := f.littleEndian
  children d :=
    match f.entries.find? fun e => e.1 == d with
    | some (_, below) => (below, none)
    | none => ([], none)
  target d :=
    match d.attribute? "DW_AT_type" with
    | some ⟨_, .number offset⟩ =>
      match f.dieAt? offset with
      | some target => .ok target
      | none => .error .malformed
    | _ => .error .malformed
  lineTable unit := .ok ((f.units[unit]?).bind MemoryUnit.lineTable)

end Forest
end KernelProfile.Dwarf
