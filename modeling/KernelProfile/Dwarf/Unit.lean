import KernelProfile.Dwarf.Form

/-! Compilation units of a debug section. A unit's header names its abbreviations; an entry is the
code of an abbreviation, which gives the tag and the forms, and the values. An entry with code 0
ends a list of siblings. -/
namespace KernelProfile.Dwarf

open Reader

/-- The debug sections of an image. The announced sizes may exceed the bytes that are there. -/
structure Sections where
  littleEndian : Bool
  info : Bytes
  infoSize : Nat
  abbreviations : Bytes
  abbreviationsSize : Nat
  strings : Bytes
  lines : Bytes
  lineStrings : Bytes

/-- An attribute of an abbreviation: its code, its form, and the value where that stands here. -/
structure AttributeSpec where
  code : Nat
  form : Nat
  constant : Int
  deriving DecidableEq, Repr

structure Abbreviation where
  tag : Nat
  hasChildren : Bool
  attributes : List AttributeSpec
  deriving DecidableEq, Repr

/-- The form whose value stands in the abbreviation. -/
def implicitConstForm : Nat := 0x21

/-- The form whose code stands with the entry. -/
def indirectForm : Nat := 0x16

/-- The attributes of an abbreviation up to the pair of zeros that ends them. -/
def attributeSpecs : Nat → Reader (List AttributeSpec)
  | 0 => throw .malformed
  | bound + 1 => do
    let code ← uleb
    let form ← uleb
    let constant ← if form = implicitConstForm then sleb else pure 0
    if code = 0 && form = 0 then return []
    else return ⟨code, form, constant⟩ :: (← attributeSpecs bound)

/-- Abbreviations up to the code 0, the last of a code first. -/
def abbreviationsFrom (known : List (Nat × Abbreviation)) :
    Nat → Reader (List (Nat × Abbreviation))
  | 0 => throw .malformed
  | bound + 1 => do
    let code ← uleb
    if code = 0 then return known
    else
      let tag ← uleb
      let flag ← unsigned true 1
      if 1 < flag then throw .malformed
      let attributes ← attributeSpecs ((← get).length + 1)
      abbreviationsFrom ((code, ⟨tag, flag = 1, attributes⟩) :: known) bound

/-- The abbreviations at an offset of their section. -/
def Sections.abbreviationsAt (s : Sections) (offset : Nat) :
    Except ReadError (List (Nat × Abbreviation)) :=
  if s.abbreviationsSize ≤ offset then .error .malformed
  else
    let bytes := s.abbreviations.drop offset
    ((abbreviationsFrom [] (bytes.length + 1)).run bytes).map Prod.fst

/-- A compilation unit: its place, its header, and its abbreviations as far as they are readable. -/
structure CompileUnit where
  index : Nat
  offset : Nat
  size : Nat
  firstDie : Nat
  version : Nat
  offsetSize : Nat
  addressSize : Nat
  abbreviations : Except ReadError (List (Nat × Abbreviation))

/-- A length of 4 bytes, or of 8 behind the mark of the wider format, and the size of offsets. -/
def initialLength (littleEndian : Bool) : Reader (Nat × Nat) := do
  let first ← unsigned littleEndian 4
  if first < 0xFFFFFF00 then return (first, 4)
  else if first = 0xFFFFFFFF then return (← unsigned littleEndian 8, 8)
  else throw .malformed

/-- What follows the version in a unit's header: address size and offset of the abbreviations. From
version 5 on the kind of the unit comes first and may bring further fields. -/
def headerTail (littleEndian : Bool) (version offsetSize : Nat) : Reader (Nat × Nat) :=
  if version < 5 then do
    let abbreviations ← unsigned littleEndian offsetSize
    return (← unsigned littleEndian 1, abbreviations)
  else do
    let kind ← unsigned littleEndian 1
    let addressSize ← unsigned littleEndian 1
    let abbreviations ← unsigned littleEndian offsetSize
    if kind = 1 || kind = 3 then pure ()
    else if kind = 4 || kind = 5 then let _ ← block 8
    else if kind = 2 || kind = 6 then let _ ← block (8 + offsetSize)
    else throw .malformed
    return (addressSize, abbreviations)

namespace Sections

/-- The unit at an offset of the debug section. -/
def unitAt (s : Sections) (index offset : Nat) : Except ReadError CompileUnit := do
  let bytes := s.info.drop offset
  let read : Reader (Nat × Nat × Nat × Nat × Nat) := do
    let (length, offsetSize) ← initialLength s.littleEndian
    let version ← unsigned s.littleEndian 2
    let (addressSize, abbreviations) ← headerTail s.littleEndian version offsetSize
    return (length, offsetSize, version, addressSize, abbreviations)
  let ((length, offsetSize, version, addressSize, abbreviations), rest) ← read.run bytes
  if version < 2 || 5 < version then throw .malformed
  let lengthSize := if offsetSize = 4 then 4 else 12
  return {
    index, offset, version, offsetSize, addressSize
    size := length + lengthSize
    firstDie := offset + (bytes.length - rest.length)
    abbreviations := s.abbreviationsAt abbreviations }

/-- The units from an offset on, up to the first that cannot be read. -/
def unitsFrom (s : Sections) : Nat → Nat → Nat → List CompileUnit × Option ReadError
  | 0, _, _ => ([], none)
  | bound + 1, index, offset =>
    if s.infoSize ≤ offset then ([], none)
    else
      match s.unitAt index offset with
      | .error e => ([], some e)
      | .ok u =>
        let rest := s.unitsFrom bound (index + 1) (offset + u.size)
        (u :: rest.1, rest.2)

def units (s : Sections) : List CompileUnit × Option ReadError := s.unitsFrom (s.infoSize + 1) 0 0

/-- What reading values of a unit depends on. -/
def formContext (s : Sections) (u : CompileUnit) : FormContext where
  littleEndian := s.littleEndian
  offsetSize := u.offsetSize
  addressSize := u.addressSize
  version := u.version
  strings := s.strings
  lineStrings := s.lineStrings

end Sections

/-- The attributes of an entry; of a repeated one the last value counts. -/
def readAttributes (c : FormContext) : List AttributeSpec → Reader (List (String × Attribute))
  | [] => return []
  | spec :: rest => do
    let value ← if spec.form = implicitConstForm then
        pure ⟨"DW_FORM_implicit_const", .number spec.constant⟩
      else if spec.form = indirectForm then c.readForm (← uleb)
      else c.readForm spec.form
    let others ← readAttributes c rest
    let name := attributeName spec.code
    return if others.any fun o => o.1 == name then others else (name, value) :: others

/-- An entry as it is read: the entry, whether a list of entries below it follows, and where the
text of the entry ends. The end of a list has no entry. -/
structure ReadDie where
  die : Option Die
  hasChildren : Bool
  stop : Nat

/-- The entry at an offset of the debug section. -/
def Sections.readDie (s : Sections) (u : CompileUnit) (offset : Nat) :
    Except ReadError ReadDie := do
  let bytes := s.info.drop offset
  let (code, rest) ← uleb.run bytes
  if code = 0 then return ⟨none, false, offset + (bytes.length - rest.length)⟩
  else
    match (← u.abbreviations).lookup code with
    | none => throw (.noAbbreviation code)
    | some a =>
      let (attributes, rest) ← (readAttributes (s.formContext u) a.attributes).run rest
      return ⟨some ⟨u.index, u.offset, offset, tagName a.tag, attributes⟩, a.hasChildren,
        offset + (bytes.length - rest.length)⟩

/-- Where the next sibling of an entry with children starts, as the entry itself says. -/
def Die.sibling? (d : Die) (u : CompileUnit) : Option (Except ReadError Nat) :=
  (d.attribute? "DW_AT_sibling").map fun a =>
    match a.value with
    | .number n =>
      if ["DW_FORM_ref1", "DW_FORM_ref2", "DW_FORM_ref4", "DW_FORM_ref8",
          "DW_FORM_ref_udata"].contains a.form then .ok (u.offset + n.toNat)
      else if a.form = "DW_FORM_ref_addr" then .ok n.toNat
      else .error .malformed
    | _ => .error .malformed

/-- The siblings from an offset on, and where their list ends. The list breaks off where an entry
cannot be read, or one below it that has to be passed over. -/
def Sections.siblings (s : Sections) (u : CompileUnit) :
    Nat → Nat → List Die × Except ReadError Nat
  | 0, _ => ([], .error .malformed)
  | bound + 1, offset =>
    match s.readDie u offset with
    | .error e => ([], .error e)
    | .ok ⟨none, _, stop⟩ => ([], .ok stop)
    | .ok ⟨some d, hasChildren, stop⟩ =>
      let next := if hasChildren then
          match d.sibling? u with
          | some next => next
          | none => (s.siblings u bound stop).2
        else .ok stop
      match next with
      | .error e => ([d], .error e)
      | .ok next =>
        let rest := s.siblings u bound next
        (d :: rest.1, rest.2)

/-- The entries below the one at an offset. -/
def Sections.childrenAt (s : Sections) (u : CompileUnit) (offset : Nat) :
    List Die × Option ReadError :=
  match s.readDie u offset with
  | .error e => ([], some e)
  | .ok r =>
    if r.hasChildren then
      match s.siblings u (s.info.length + 1) r.stop with
      | (dies, .ok _) => (dies, none)
      | (dies, .error e) => (dies, some e)
    else ([], none)

end KernelProfile.Dwarf
