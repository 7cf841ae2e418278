import KernelProfile.Dwarf.Unit

/-! Headers of line programs, which name the files and directories of a unit. Up to version 4 they
are lists that an empty name ends; from version 5 on they are counted tables whose columns are
described first. -/
namespace KernelProfile.Dwarf

open Reader

/-- Names up to an empty one. -/
def nameList : Nat → Reader (List AttrValue)
  | 0 => throw .malformed
  | bound + 1 => do
    let name ← zeroTerminated
    if name.isEmpty then return [] else return .bytes name :: (← nameList bound)

/-- Files up to one with an empty name. -/
def fileList : Nat → Reader (List FileEntry)
  | 0 => throw .malformed
  | bound + 1 => do
    let name ← zeroTerminated
    if name.isEmpty then return []
    else
      let directory ← uleb
      let _ ← uleb
      let _ ← uleb
      return ⟨.bytes name, directory⟩ :: (← fileList bound)

/-- `count` items, one after the other. -/
def repeated {α : Type} (item : Reader α) : Nat → Reader (List α)
  | 0 => return []
  | count + 1 => do return (← item) :: (← repeated item count)

/-- A row of a table: the value of each column by the column's kind. -/
def tableRow (c : FormContext) (columns : List (Nat × Nat)) : Reader (List (Nat × AttrValue)) :=
  columns.mapM fun (kind, form) => do return (kind, (← c.readForm form).value)

/-- A table with its description; the number of rows is bounded by what is left, unless rows are
empty. -/
def table (c : FormContext) : Reader (List (List (Nat × AttrValue))) := do
  let columnCount ← unsigned c.littleEndian 1
  let columns ← repeated (do return (← uleb, ← uleb)) columnCount
  repeated (tableRow c columns) (← uleb)

/-- The column of names. -/
def pathColumn : Nat := 1

/-- The column of directory indices. -/
def directoryColumn : Nat := 2

def rowPath (row : List (Nat × AttrValue)) : AttrValue := (row.lookup pathColumn).getD .absent

def rowFile (row : List (Nat × AttrValue)) : FileEntry :=
  match row.lookup directoryColumn with
  | some (.number n) => ⟨rowPath row, n⟩
  | _ => ⟨rowPath row, -1⟩

/-- The line table of a line program's header. -/
def lineHeader (c : FormContext) : Reader LineTable := do
  let _ ← initialLength c.littleEndian
  let version ← unsigned c.littleEndian 2
  if 5 ≤ version then let _ ← block 2
  let _ ← block c.offsetSize
  let _ ← block (if 4 ≤ version then 5 else 4)
  let opcodeBase ← unsigned c.littleEndian 1
  let _ ← block (opcodeBase - 1)
  if 5 ≤ version then
    let directories ← table c
    let files ← table c
    return ⟨version, directories.map rowPath, files.map rowFile⟩
  else
    let directories ← nameList ((← get).length + 1)
    let files ← fileList ((← get).length + 1)
    return ⟨version, directories, files⟩

/-- The line table that a unit's first entry refers to. -/
def Sections.lineTable (s : Sections) (u : CompileUnit) : Except ReadError (Option LineTable) := do
  match (← s.readDie u u.firstDie).die with
  | none => return none
  | some top =>
    match top.attribute? "DW_AT_stmt_list" with
    | none => return none
    | some a =>
      match a.value with
      | .number offset =>
        let (t, _) ← (lineHeader (s.formContext u)).run (s.lines.drop offset.toNat)
        return some t
      | _ => throw .malformed

end KernelProfile.Dwarf
