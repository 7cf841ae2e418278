import KernelProfile.Dwarf.Die

/-! How attribute values are written: the names of tags, attributes and forms by their codes, and
the reading of a value by its form. -/
namespace KernelProfile.Dwarf

/-- A reader of bytes of a debug section. -/
abbrev Reader (α : Type) := StateT Bytes (Except ReadError) α

namespace Reader

/-- An unsigned number of `width` bytes. -/
def unsigned (littleEndian : Bool) (width : Nat) : Reader Nat := fun bs =>
  match bs.split? width with
  | none => .error .malformed
  | some (word, rest) => .ok (Bytes.toNat littleEndian word, rest)

/-- An unsigned number in base 128. -/
def uleb : Reader Nat := fun bs =>
  match unsignedLeb bs with
  | none => .error .malformed
  | some (n, rest) => .ok (n, rest)

/-- A two's complement number in base 128: the value and the number of its digits. -/
def signedLeb : Bytes → Option (Int × Bytes)
  | [] => none
  | b :: rest =>
    if b.toNat < 64 then some (b.toNat, rest)
    else if b.toNat < 128 then some ((b.toNat : Int) - 128, rest)
    else (signedLeb rest).map fun (n, tail) => ((b.toNat : Int) - 128 + 128 * n, tail)

def sleb : Reader Int := fun bs =>
  match signedLeb bs with
  | none => .error .malformed
  | some (n, rest) => .ok (n, rest)

/-- A number of bytes. -/
def block (length : Nat) : Reader Bytes := fun bs =>
  match bs.split? length with
  | none => .error .malformed
  | some (b, rest) => .ok (b, rest)

/-- The bytes before the next zero byte, which is passed over. -/
def zeroTerminated : Reader Bytes := fun bs =>
  let text := bs.takeWhile (· != 0)
  if text.length < bs.length then .ok (text, bs.drop (text.length + 1)) else .error .malformed

end Reader

open Reader

/-- Tags whose entries play a part, by their codes. -/
def tagName : Nat → String
  | 0x01 => "DW_TAG_array_type"
  | 0x02 => "DW_TAG_class_type"
  | 0x04 => "DW_TAG_enumeration_type"
  | 0x0D => "DW_TAG_member"
  | 0x0F => "DW_TAG_pointer_type"
  | 0x10 => "DW_TAG_reference_type"
  | 0x13 => "DW_TAG_structure_type"
  | 0x15 => "DW_TAG_subroutine_type"
  | 0x16 => "DW_TAG_typedef"
  | 0x17 => "DW_TAG_union_type"
  | 0x21 => "DW_TAG_subrange_type"
  | 0x24 => "DW_TAG_base_type"
  | 0x26 => "DW_TAG_const_type"
  | 0x28 => "DW_TAG_enumerator"
  | 0x35 => "DW_TAG_volatile_type"
  | 0x37 => "DW_TAG_restrict_type"
  | 0x42 => "DW_TAG_rvalue_reference_type"
  | 0x47 => "DW_TAG_atomic_type"
  | n => "DW_TAG_" ++ toString n

/-- Attributes that play a part, by their codes. -/
def attributeName : Nat → String
  | 0x01 => "DW_AT_sibling"
  | 0x03 => "DW_AT_name"
  | 0x0B => "DW_AT_byte_size"
  | 0x0C => "DW_AT_bit_offset"
  | 0x0D => "DW_AT_bit_size"
  | 0x10 => "DW_AT_stmt_list"
  | 0x1C => "DW_AT_const_value"
  | 0x2F => "DW_AT_upper_bound"
  | 0x37 => "DW_AT_count"
  | 0x38 => "DW_AT_data_member_location"
  | 0x39 => "DW_AT_decl_column"
  | 0x3A => "DW_AT_decl_file"
  | 0x3B => "DW_AT_decl_line"
  | 0x3C => "DW_AT_declaration"
  | 0x3E => "DW_AT_encoding"
  | 0x49 => "DW_AT_type"
  | 0x6B => "DW_AT_data_bit_offset"
  | n => "DW_AT_" ++ toString n

/-- What reading a value depends on: byte order, sizes of offsets and addresses, the version of the
unit, and the sections that hold texts. -/
structure FormContext where
  littleEndian : Bool
  offsetSize : Nat
  addressSize : Nat
  version : Nat
  strings : Bytes
  lineStrings : Bytes

/-- How a form writes its value. -/
inductive Shape where
  | fixed (width : Nat)
  | unsignedLeb
  | signedLeb
  | blockOf (lengthWidth : Option Nat)
  | text
  | textAt (inLineStrings : Bool)
  | textElsewhere
  | flag
  | present
  | bytes (length : Nat)
  deriving DecidableEq, Repr

/-- The name and the shape of a form by its code, where the value stands with the entry. -/
def FormContext.form? (c : FormContext) (code : Nat) : Option (String × Shape) :=
  let offset := Shape.fixed c.offsetSize
  let address := Shape.fixed c.addressSize
  match code with
  | 0x01 => some ("DW_FORM_addr", address)
  | 0x02 => some ("DW_FORM_ref", .fixed 4)
  | 0x03 => some ("DW_FORM_block2", .blockOf (some 2))
  | 0x04 => some ("DW_FORM_block4", .blockOf (some 4))
  | 0x05 => some ("DW_FORM_data2", .fixed 2)
  | 0x06 => some ("DW_FORM_data4", .fixed 4)
  | 0x07 => some ("DW_FORM_data8", .fixed 8)
  | 0x08 => some ("DW_FORM_string", .text)
  | 0x09 => some ("DW_FORM_block", .blockOf none)
  | 0x0A => some ("DW_FORM_block1", .blockOf (some 1))
  | 0x0B => some ("DW_FORM_data1", .fixed 1)
  | 0x0C => some ("DW_FORM_flag", .flag)
  | 0x0D => some ("DW_FORM_sdata", .signedLeb)
  | 0x0E => some ("DW_FORM_strp", .textAt false)
  | 0x0F => some ("DW_FORM_udata", .unsignedLeb)
  | 0x10 => some ("DW_FORM_ref_addr", if c.version = 2 then address else offset)
  | 0x11 => some ("DW_FORM_ref1", .fixed 1)
  | 0x12 => some ("DW_FORM_ref2", .fixed 2)
  | 0x13 => some ("DW_FORM_ref4", .fixed 4)
  | 0x14 => some ("DW_FORM_ref8", .fixed 8)
  | 0x15 => some ("DW_FORM_ref_udata", .unsignedLeb)
  | 0x17 => some ("DW_FORM_sec_offset", offset)
  | 0x18 => some ("DW_FORM_exprloc", .blockOf none)
  | 0x19 => some ("DW_FORM_flag_present", .present)
  | 0x1A => some ("DW_FORM_strx", .unsignedLeb)
  | 0x1B => some ("DW_FORM_addrx", .unsignedLeb)
  | 0x1C => some ("DW_FORM_ref_sup4", .fixed 4)
  | 0x1D => some ("DW_FORM_strp_sup", .textElsewhere)
  | 0x1E => some ("DW_FORM_data16", .bytes 16)
  | 0x1F => some ("DW_FORM_line_strp", .textAt true)
  | 0x20 => some ("DW_FORM_ref_sig8", .fixed 8)
  | 0x22 => some ("DW_FORM_loclistx", .unsignedLeb)
  | 0x23 => some ("DW_FORM_rnglistx", .unsignedLeb)
  | 0x24 => some ("DW_FORM_ref_sup8", .fixed 8)
  | 0x25 => some ("DW_FORM_strx1", .fixed 1)
  | 0x26 => some ("DW_FORM_strx2", .fixed 2)
  | 0x27 => some ("DW_FORM_strx3", .fixed 3)
  | 0x28 => some ("DW_FORM_strx4", .fixed 4)
  | 0x29 => some ("DW_FORM_addrx1", .fixed 1)
  | 0x2A => some ("DW_FORM_addrx2", .fixed 2)
  | 0x2B => some ("DW_FORM_addrx3", .fixed 3)
  | 0x2C => some ("DW_FORM_addrx4", .fixed 4)
  | 0x1F20 => some ("DW_FORM_GNU_ref_alt", offset)
  | 0x1F21 => some ("DW_FORM_GNU_strp_alt", .textElsewhere)
  | _ => none

/-- The text behind an offset of a section of texts; without a zero byte there is none. -/
def textAt (strings : Bytes) (offset : Nat) : AttrValue :=
  let rest := strings.drop offset
  let text := rest.takeWhile (· != 0)
  if text.length < rest.length then .bytes text else .absent

/-- A value of a given shape. -/
def FormContext.readShape (c : FormContext) : Shape → Reader AttrValue
  | .fixed width => do return .number (← unsigned c.littleEndian width)
  | .unsignedLeb => do return .number (← uleb)
  | .signedLeb => do return .number (← sleb)
  | .blockOf none => do return .expression (← block (← uleb))
  | .blockOf (some width) => do return .expression (← block (← unsigned c.littleEndian width))
  | .text => do return .bytes (← zeroTerminated)
  | .textAt inLineStrings => do
    let offset ← unsigned c.littleEndian c.offsetSize
    return textAt (if inLineStrings then c.lineStrings else c.strings) offset
  | .textElsewhere => do
    let _ ← block c.offsetSize
    return .absent
  | .flag => do return .flag ((← unsigned c.littleEndian 1) != 0)
  | .present => return .flag true
  | .bytes length => do return .expression (← block length)

/-- A form of which there is no value to read is reported by its code. -/
def FormContext.readForm (c : FormContext) (code : Nat) : Reader Attribute :=
  match c.form? code with
  | none => throw (.unknownForm code)
  | some (name, shape) => do return ⟨name, ← c.readShape shape⟩

end KernelProfile.Dwarf
