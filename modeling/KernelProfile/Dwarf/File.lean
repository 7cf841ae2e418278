import KernelProfile.Dwarf.Collect
import KernelProfile.Dwarf.LineHeader
import KernelProfile.Elf.Relocation
import KernelProfile.Profile.Basic
import KernelProfile.SystemMap

/-! Profiles of kernel images with debugging information: the architecture from the image unless it
is given, the symbols from the symbol map, and the types from the debugging information. -/
namespace KernelProfile.Dwarf

/-- Why an image and a symbol map give no profile. -/
inductive Error where
  | architecture (e : UnsupportedArchitecture)
  | unreadable (file : String)
  | noDebugInfo (file : String)
  | systemMap (e : SystemMap.InvalidLine)
  | undecodable (file : String)
  | noEntry (key : String)
  | variant (e : VariantError)
  deriving DecidableEq, Repr

namespace Error

def message : Error → String
  | architecture e => e.message
  | unreadable file => "Cannot read " ++ file
  | noDebugInfo file => "No DWARF info found in " ++ file
  | systemMap e => e.message
  | undecodable file => "Cannot decode DWARF info of " ++ file
  | noEntry key => key
  | variant e => e.message

def ofCollect (file : String) : CollectError → Error
  | .read e => (e.missingKey?.map noEntry).getD (undecodable file)
  | .variant e => variant e

end Error

namespace Sections

/-- The unit that holds an offset. -/
def unitOf (units : List CompileUnit × Option ReadError) (offset : Nat) :
    Except ReadError CompileUnit :=
  match units.1.find? fun u => u.offset ≤ offset && offset < u.offset + u.size with
  | some u => .ok u
  | none => .error (units.2.getD .malformed)

/-- The entry of a unit at an offset; what ends a list is an entry without tag. -/
def dieIn (s : Sections) (u : CompileUnit) (offset : Nat) : Except ReadError Die := do
  if u.firstDie ≤ offset && offset < u.offset + u.size then
    match (← s.readDie u offset).die with
    | some d => return d
    | none => return ⟨u.index, u.offset, offset, "", []⟩
  else throw .malformed

/-- The entry that an entry's type attribute refers to: by its distance from the start of the unit,
or by its place in the whole section. -/
def targetOf (s : Sections) (units : List CompileUnit × Option ReadError) (d : Die) :
    Except ReadError Die :=
  match d.attribute? "DW_AT_type", units.1[d.unit]? with
  | some ⟨form, .number n⟩, some u =>
    if ["DW_FORM_ref1", "DW_FORM_ref2", "DW_FORM_ref4", "DW_FORM_ref8",
        "DW_FORM_ref_udata"].contains form then s.dieIn u (u.offset + n.toNat)
    else if form = "DW_FORM_ref_addr" && n.toNat < s.infoSize then do
      s.dieIn (← unitOf units n.toNat) n.toNat
    else .error .malformed
  | _, _ => .error .malformed

/-- The debugging information of sections, given their units. -/
def debugInfo (s : Sections) (units : List CompileUnit × Option ReadError) : DebugInfo where
  littleEndian := s.littleEndian
  children d :=
    match units.1[d.unit]? with
    | some u => s.childrenAt u d.offset.toNat
    | none => ([], none)
  target := s.targetOf units
  lineTable index :=
    match units.1[index]? with
    | some u => s.lineTable u
    | none => .ok none

/-- Collect the definitions of units in order. -/
def collectUnits (s : Sections) (info : DebugInfo) (c : Collector) :
    List CompileUnit → Except CollectError Collector
  | [] => .ok c
  | u :: rest =>
    match c.addUnit info (s.childrenAt u u.firstDie) with
    | (_, some e) => .error e
    | (c, none) => s.collectUnits info c rest

/-- The definitions of all units. -/
def collect (s : Sections) : Except CollectError TypeCollection := do
  let units := s.units
  let c ← s.collectUnits (s.debugInfo units) {} units.1
  match units.2 with
  | some e => throw (.read e)
  | none => return c.types

end Sections

/-- The names of the sections that are read with the debugging information. -/
def sectionNames : List String :=
  [".debug_info", ".debug_aranges", ".debug_abbrev", ".debug_str", ".debug_line", ".debug_frame",
    ".debug_loc", ".debug_ranges", ".debug_pubtypes", ".debug_pubnames", ".debug_addr",
    ".debug_str_offsets", ".debug_line_str", ".debug_loclists", ".debug_rnglists", ".debug_sup",
    ".debug_types", ".eh_frame"]

/-- Whether an image counts as one with debugging information. -/
def hasDebugInfo (image : Elf.Image) : Bool :=
  [".debug_info", ".zdebug_info", ".eh_frame"].any fun name => (image.section? name).isSome

/-- The debug sections of an image, all of whose relocations have to be possible. -/
def sectionsOf? (image : Elf.Image) : Option Sections := do
  let contents ← sectionNames.mapM fun name =>
    match image.section? name with
    | none => some (name, [], 0)
    | some s => do return (name, ← image.relocated? s, s.header.size)
  let find (name : String) : Bytes × Nat := (contents.lookup name).getD ([], 0)
  return {
    littleEndian := image.header.littleEndian
    info := (find ".debug_info").1
    infoSize := (find ".debug_info").2
    abbreviations := (find ".debug_abbrev").1
    abbreviationsSize := (find ".debug_abbrev").2
    strings := (find ".debug_str").1
    lines := (find ".debug_line").1
    lineStrings := (find ".debug_line_str").1 }

/-- The architecture of an image; one of another machine counts as 64-bit x86. -/
def architectureOf (image : Elf.Image) : Architecture :=
  match Architecture.ofElfMachine image.machineName with
  | .ok a => a
  | .error _ => .amd64

/-- An image that was opened: what it is for, and its debug sections. -/
structure File where
  name : String
  architecture : Architecture
  sections : Sections

namespace File

/-- Open an image of a file name. -/
def ofBytes (name : String) (given : Option Architecture) (bytes : Bytes) : Except Error File :=
  match Elf.Image.ofBytes? bytes with
  | none => .error (.unreadable name)
  | some image =>
    if hasDebugInfo image then
      match sectionsOf? image with
      | none => .error (.unreadable name)
      | some s => .ok ⟨name, given.getD (architectureOf image), s⟩
    else .error (.noDebugInfo name)

/-- The profile of an opened image and the bytes of its symbol map. -/
def profile (f : File) (systemMap : Bytes) : Except Error Profile := do
  let symbols ← (SystemMap.ofFile systemMap).mapError .systemMap
  let types ← f.sections.collect.mapError (.ofCollect f.name)
  return ⟨f.architecture, symbols, types⟩

end File

/-- The architecture of a tag that may be given. -/
def givenArchitecture (tag : Option String) : Except Error (Option Architecture) :=
  match tag with
  | none => .ok none
  | some t => ((Architecture.parse t).map some).mapError .architecture

/-- The profile of an image, a symbol map, and the tag of an architecture that may be given. -/
def profileOf (name : String) (tag : Option String) (image systemMap : Bytes) :
    Except Error Profile := do
  let given ← givenArchitecture tag
  (← File.ofBytes name given image).profile systemMap

end KernelProfile.Dwarf
