import KernelProfile.Bytes
import KernelProfile.Registration
import KernelProfile.Text.Numeral
import KernelProfile.Text.Utf8
import KernelProfile.Variant

/-! Debugging information entries and what their attributes say. An attribute has a form and a
value; a reader asks for a constant, a flag, a text or a location and gets nothing where the
value is something else. -/
namespace KernelProfile.Dwarf

/-- The value of an attribute. -/
inductive AttrValue where
  | number (n : Int)
  | flag (b : Bool)
  | absent
  | text (s : String)
  | bytes (b : Bytes)
  | expression (b : Bytes)
  deriving DecidableEq, Repr

namespace AttrValue

/-- Whether a value counts as set: a number other than zero, a true flag, a text or block that is
not empty. -/
def isSet : AttrValue → Bool
  | number n => n != 0
  | flag b => b
  | absent => false
  | text s => !s.isEmpty
  | bytes b => !b.isEmpty
  | expression b => !b.isEmpty

/-- The text of a value, bytes being read as UTF-8 with replacements. -/
def text? : AttrValue → Option String
  | text s => some s
  | bytes b => some (Text.Utf8.decodeLossy b)
  | _ => none

end AttrValue

structure Attribute where
  form : String
  value : AttrValue
  deriving DecidableEq, Repr

/-- An entry: the unit it belongs to (by number and by offset), its own offset, its tag and its
attributes by name. -/
structure Die where
  unit : Nat
  unitOffset : Int
  offset : Int
  tag : String
  attributes : List (String × Attribute)
  deriving DecidableEq, Repr

/-- Forms whose values are references, blocks or flags, and so no constants. -/
def nonConstantForms : List String :=
  ["DW_FORM_ref1", "DW_FORM_ref2", "DW_FORM_ref4", "DW_FORM_ref8", "DW_FORM_ref_udata",
    "DW_FORM_ref_addr", "DW_FORM_ref_sig8", "DW_FORM_ref_sup4", "DW_FORM_ref_sup8",
    "DW_FORM_exprloc", "DW_FORM_block", "DW_FORM_block1", "DW_FORM_block2", "DW_FORM_block4",
    "DW_FORM_flag", "DW_FORM_flag_present"]

/-- An unsigned number in base 128, least significant digit first; the last byte has its high bit
clear. The number and the bytes behind it. -/
def unsignedLeb : Bytes → Option (Nat × Bytes)
  | [] => none
  | b :: rest =>
    if b.toNat < 128 then some (b.toNat, rest)
    else (unsignedLeb rest).map fun (n, tail) => (b.toNat - 128 + 128 * n, tail)

namespace Die

def attribute? (d : Die) (name : String) : Option Attribute := d.attributes.lookup name

def has (d : Die) (name : String) : Bool := (d.attribute? name).isSome

/-- The unsigned constant of an attribute. -/
def constant? (d : Die) (name : String) : Option Int :=
  match d.attribute? name with
  | none => none
  | some a =>
    if a.form ∈ nonConstantForms then none
    else
      match a.value with
      | .number n => if n < 0 then none else some n
      | _ => none

/-- Whether an attribute is there and set. -/
def flag (d : Die) (name : String) : Bool :=
  match d.attribute? name with
  | none => false
  | some a => a.value.isSet

def name? (d : Die) : Option String := (d.attribute? "DW_AT_name").bind fun a => a.value.text?

/-- The profile's name of a type: the declared one, or one made of the entry's offset. -/
def typeName (d : Die) : String := d.name?.getD ("__unnamed_" ++ Text.hex d.offset)

def isDeclaration (d : Die) : Bool := d.flag "DW_AT_declaration"

/-- The offset that an expression adds to the address of its structure. Only a single addition of
a constant is understood. -/
def plusConstant? : Bytes → Option Int
  | 0x23 :: rest =>
    match unsignedLeb rest with
    | some (n, []) => some n
    | _ => none
  | _ => none

/-- The byte offset at which a member is placed. -/
def location? (d : Die) : Option Int :=
  match d.attribute? "DW_AT_data_member_location" with
  | none => none
  | some a =>
    match a.value with
    | .number n => some n
    | .expression b => plusConstant? b
    | .bytes b => plusConstant? b
    | _ => none

end Die

/-- A file of a line table: its name and the index of its directory. -/
structure FileEntry where
  name : AttrValue
  directory : Int
  deriving DecidableEq, Repr

/-- The files and directories of a unit's line table. -/
structure LineTable where
  version : Int
  directories : List AttrValue
  files : List FileEntry
  deriving DecidableEq, Repr

namespace LineTable

/-- An item by its index, which counts from zero since version 5 and from one before. -/
def item? {α : Type} (t : LineTable) (items : List α) (index : Int) : Option α :=
  let position := if 5 ≤ t.version then index else index - 1
  if position < 0 then none else items[position.toNat]?

/-- The name of a file, behind that of its directory where there is one. -/
def fileName? (t : LineTable) (index : Int) : Option String := do
  let file ← t.item? t.files index
  let name ← file.name.text?
  match (t.item? t.directories file.directory).bind AttrValue.text? with
  | some directory => if directory.isEmpty then name else directory ++ "/" ++ name
  | none => name

end LineTable

/-- Why debugging information cannot be read. -/
inductive ReadError where
  | malformed
  | noAbbreviation (code : Nat)
  | unknownForm (code : Nat)
  deriving DecidableEq, Repr

/-- Forms that have a name but no value that can be read. -/
def valuelessForms : List (Nat × String) :=
  [(0x00, "DW_FORM_null"), (0x1F01, "DW_FORM_GNU_addr_index"), (0x1F02, "DW_FORM_GNU_str_index")]

/-- What was looked up in vain, as messages show it, where an entry names something unknown. -/
def ReadError.missingKey? : ReadError → Option String
  | .malformed => none
  | .noAbbreviation code => some (Text.decimal code)
  | .unknownForm code =>
    match valuelessForms.lookup code with
    | some name => some (Text.quoted name)
    | none => some (Text.decimal code)

/-- Debugging information as its readers see it. Entries below an entry are listed up to the first
that cannot be read. -/
structure DebugInfo where
  littleEndian : Bool
  /-- The entries below an entry. -/
  children : Die → List Die × Option ReadError
  /-- The entry that an entry's type attribute refers to. -/
  target : Die → Except ReadError Die
  /-- The line table of a unit, if it has one. -/
  lineTable : Nat → Except ReadError (Option LineTable)

/-- Line tables found so far, by the offset of the unit that asked for one. -/
abbrev LineTables := List (Int × Option LineTable)

/-- The line table of an entry's unit. Units of one offset share the table that was asked for
first. -/
def DebugInfo.lineTableOf (info : DebugInfo) (known : LineTables) (d : Die) :
    Except ReadError (Option LineTable × LineTables) :=
  match known.lookup d.unitOffset with
  | some table => .ok (table, known)
  | none => do
    let table ← info.lineTable d.unit
    return (table, (d.unitOffset, table) :: known)

/-- Where an entry was declared, if file, line and column are all given and the file has a name. -/
def DebugInfo.site (info : DebugInfo) (known : LineTables) (d : Die) :
    Except ReadError (Option Site × LineTables) :=
  match d.constant? "DW_AT_decl_file", d.constant? "DW_AT_decl_line",
      d.constant? "DW_AT_decl_column" with
  | some file, some line, some column => do
    let (table, known) ← info.lineTableOf known d
    return ((table.bind fun t => t.fileName? file).map fun f => ⟨f, line, column⟩, known)
  | _, _, _ => .ok (none, known)

end KernelProfile.Dwarf
