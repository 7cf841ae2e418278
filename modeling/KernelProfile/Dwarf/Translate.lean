import KernelProfile.Dwarf.Die
import KernelProfile.Ty

/-! Types of entries and layouts of members. Aggregates and enumerations become references by name,
typedefs and qualifiers are looked through, and what has no layout becomes `void`; a chain of
more than 64 type references is cut off with `void`. -/
namespace KernelProfile.Dwarf

def enumTag : String := "DW_TAG_enumeration_type"

def isAggregateTag (tag : String) : Bool :=
  ["DW_TAG_structure_type", "DW_TAG_class_type", "DW_TAG_union_type"].contains tag

/-- Tags of typedefs and qualifiers. -/
def isTransparentTag (tag : String) : Bool :=
  ["DW_TAG_typedef", "DW_TAG_const_type", "DW_TAG_volatile_type", "DW_TAG_restrict_type",
    "DW_TAG_atomic_type"].contains tag

def isPointerTag (tag : String) : Bool :=
  ["DW_TAG_pointer_type", "DW_TAG_reference_type", "DW_TAG_rvalue_reference_type"].contains tag

/-- The kind of an encoding and a size other than zero. Encodings without a kind of their own keep
their width. -/
def encodedKind? (encoding : Option Int) (size : Int) : Option BaseKind :=
  match encoding with
  | some 2 => if size = 1 then some .bool else none
  | some 5 | some 6 => BaseKind.signed? size
  | some 4 => if size = 1 then none else BaseKind.floating? size
  | _ => BaseKind.unsigned? size

namespace Die

/-- The kind of a base type; `void` where size or encoding name none. -/
def baseKind (d : Die) : BaseKind :=
  match d.constant? "DW_AT_byte_size" with
  | none => .void
  | some size =>
    if size = 0 then .void
    else (encodedKind? (d.constant? "DW_AT_encoding") size).getD .void

/-- The extent that a subrange gives, 0 where it gives none. -/
def extent (d : Die) : Int :=
  match d.constant? "DW_AT_count" with
  | some count => count
  | none =>
    match d.constant? "DW_AT_upper_bound" with
    | some bound => bound + 1
    | none => 0

end Die

/-- The most type references that a chain may have. -/
def chainLimit : Nat := 64

/-- Entries that were listed without a fault. -/
def whole : List Die × Option ReadError → Except ReadError (List Die)
  | (dies, none) => .ok dies
  | (_, some e) => .error e

namespace DebugInfo

/-- The type of an entry over at most `links` references. -/
def typeWithin (info : DebugInfo) : Nat → Die → Except ReadError Ty
  | 0, _ => .ok .void
  | links + 1, d =>
    let referenced : Except ReadError Ty :=
      if d.has "DW_AT_type" then
        match info.target d with
        | .ok target => typeWithin info links target
        | .error e => .error e
      else .ok .void
    if d.tag = "DW_TAG_base_type" then .ok (.base d.baseKind)
    else if d.tag = enumTag then .ok (.enumRef d.typeName)
    else if isAggregateTag d.tag then .ok (.structRef d.typeName)
    else if d.tag = "DW_TAG_array_type" then
      match referenced with
      | .error e => .error e
      | .ok element =>
        match whole (info.children d) with
        | .error e => .error e
        | .ok children =>
          let dims := (children.filter fun c => c.tag = "DW_TAG_subrange_type").map Die.extent
          .ok (.array element dims (dims.headD 0))
    else if isPointerTag d.tag then referenced.map .pointer
    else if d.tag = "DW_TAG_subroutine_type" then .ok .function
    else if isTransparentTag d.tag then referenced
    else .ok .void

/-- The type of an entry. -/
def translate (info : DebugInfo) (d : Die) : Except ReadError Ty :=
  info.typeWithin (chainLimit + 1) d

/-- The type that an entry's type attribute refers to, `void` where it has none. -/
def referencedType (info : DebugInfo) (d : Die) : Except ReadError Ty := do
  if d.has "DW_AT_type" then info.typeWithin chainLimit (← info.target d) else return .void

/-- The size of the storage under an entry: the first one given on the way through typedefs and
qualifiers. -/
def storageSizeWithin (info : DebugInfo) : Nat → Die → Except ReadError (Option Int)
  | 0, _ => .ok none
  | links + 1, d => do
    if d.has "DW_AT_type" then
      let target ← info.target d
      match target.constant? "DW_AT_byte_size" with
      | some size => return some size
      | none => if isTransparentTag target.tag then storageSizeWithin info links target else
          return none
    else return none

def storageSize (info : DebugInfo) (d : Die) : Except ReadError (Option Int) :=
  info.storageSizeWithin chainLimit d

/-- The bit offset of a bit-field whose place is counted from the most significant bit of its
storage. On a little-endian target the size of the storage has to be known. -/
def countedFromTop (info : DebugInfo) (member : Die) (location bitSize : Int) :
    Except ReadError (Option Int) := do
  match member.constant? "DW_AT_bit_offset" with
  | none => return none
  | some bitOffset =>
    if !info.littleEndian then return some (location * 8 + bitOffset)
    else
      let size ← match member.constant? "DW_AT_byte_size" with
        | some size => .ok (some size)
        | none => info.storageSize member
      return size.map fun s => location * 8 + s * 8 - bitOffset - bitSize

/-- The byte offset and type of a member. A member with a bit size is a bit-field whose position is
relative to the byte at the offset. -/
def memberLayout (info : DebugInfo) (member : Die) : Except ReadError (Int × Ty) := do
  let location := member.location?
  let dataBitOffset := member.constant? "DW_AT_data_bit_offset"
  let plainOffset := match location, dataBitOffset with
    | some l, _ => l
    | none, some b => b / 8
    | none, none => 0
  match member.constant? "DW_AT_bit_size" with
  | none => return (plainOffset, ← info.referencedType member)
  | some bitSize =>
    let bitOffset ← if dataBitOffset.isNone && member.has "DW_AT_bit_offset" then
        info.countedFromTop member (location.getD 0) bitSize
      else .ok none
    match bitOffset with
    | some first =>
      return (first.fdiv 8, .bitfield (← info.referencedType member) bitSize (first.fmod 8))
    | none =>
      let position := (dataBitOffset.map (· % 8)).getD 0
      return (plainOffset, .bitfield (← info.referencedType member) bitSize position)

end DebugInfo
end KernelProfile.Dwarf
