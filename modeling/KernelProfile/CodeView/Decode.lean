import KernelProfile.Bytes
import KernelProfile.CodeView.Record
import KernelProfile.Text.Utf8

/-! Decoding of type records from their bytes. A record is a fixed head for its leaf, then numbers
in a variable-width form and names that end with a zero byte. -/
namespace KernelProfile.CodeView

/-- Why the bytes of a record are refused. -/
inductive Fault where
  | short
  | numericLeaf (leaf : Nat)
  deriving DecidableEq, Repr

/-- A reader of the bytes of one record. -/
abbrev Reader (α : Type) := StateT Bytes (Except Fault) α

namespace Reader

/-- An unsigned little-endian number of `width` bytes. -/
def unsigned (width : Nat) : Reader Nat := fun bs =>
  match bs.split? width with
  | none => .error .short
  | some (word, rest) => .ok (word.littleNat, rest)

/-- A two's complement little-endian number of `width` bytes. -/
def signed (width : Nat) : Reader Int := do return Bytes.signed width (← unsigned width)

/-- Pass over `n` bytes, all of which have to be there. -/
def skip (n : Nat) : Reader Unit := do let _ ← unsigned n

/-- The kind of number behind a numeric leaf. -/
def numericKind? : Nat → Option VariantKind
  | 0x8000 => some .i8
  | 0x8001 => some .i16
  | 0x8002 => some .u16
  | 0x8003 => some .i32
  | 0x8004 => some .u32
  | 0x8009 => some .i64
  | 0x800A => some .u64
  | 0x8017 => some .i128
  | 0x8018 => some .u128
  | _ => none

/-- A number of variable width with the label of that width. A leaf below 0x8000 is the number. -/
def numeric : Reader (Int × String) := do
  let leaf ← unsigned 2
  if leaf < 0x8000 then return (leaf, VariantKind.u16.label)
  else
    match numericKind? leaf with
    | none => throw (.numericLeaf leaf)
    | some kind =>
      let width := kind.bits / 8
      if kind.isSigned then return (← signed width, kind.label)
      else return (← unsigned width, kind.label)

/-- A name up to its zero byte, or to the end of the record. -/
def name : Reader String := fun bs =>
  let raw := bs.takeWhile (· != 0)
  .ok (Text.Utf8.decodeLossy raw, (bs.drop raw.length).drop 1)

/-- Pass over padding. A padding byte is above 0xF0 and its low half is the distance to the next
entry. -/
def skipPadding : Reader Unit := fun bs =>
  match bs with
  | b :: _ => .ok ((), if 0xF0 < b.toNat then bs.drop (b.toNat % 16) else bs)
  | [] => .ok ((), [])

end Reader

open Reader

/-- What an entry of a field list adds to the list. -/
inductive FieldStep where
  | entry (e : FieldEntry)
  | continuation (index : Int)

/-- The body of a field list entry with a given leaf, if the leaf is a known one. -/
def fieldStep (leaf : Nat) : Option (Reader FieldStep) :=
  match leaf with
  | 0x150D => some do
    let attributes ← unsigned 2
    let type ← unsigned 4
    let (offset, _) ← numeric
    return .entry (.member attributes type offset (← name))
  | 0x1502 => some do
    let attributes ← unsigned 2
    let (value, label) ← numeric
    return .entry (.enumerator attributes value label (← name))
  | 0x1404 => some do
    skip 2
    return .continuation (← unsigned 4)
  | 0x1400 | 0x151A => some do
    skip 6
    let _ ← numeric
    return .entry (.other leaf none)
  | 0x1401 | 0x1402 => some do
    skip 10
    let _ ← numeric
    let _ ← numeric
    return .entry (.other leaf none)
  | 0x1409 => some do
    skip 6
    return .entry (.other leaf none)
  | 0x140C => some do
    skip 10
    return .entry (.other leaf none)
  | 0x150E | 0x150F | 0x1510 | 0x1512 => some do
    skip 6
    return .entry (.other leaf (some (← name)))
  | 0x1511 => some do
    let attributes ← unsigned 2
    skip 4
    let kind := bitsOf attributes 2 3
    if kind == 4 || kind == 6 then skip 4
    return .entry (.other leaf (some (← name)))
  | _ => none

/-- The entries of a field list and its last continuation. An unknown leaf ends the list, because
the size of its entry is not known. Every entry takes two bytes at least, which bounds their
number. -/
def fieldEntries : Nat → Option Int → Reader FieldListRecord
  | 0, last => return ⟨[], last⟩
  | bound + 1, last => do
    if (← get).length < 2 then return ⟨[], last⟩
    else
      match fieldStep (← unsigned 2) with
      | none => return ⟨[], last⟩
      | some body =>
        match ← body with
        | .continuation index =>
          skipPadding
          fieldEntries bound (some index)
        | .entry e =>
          skipPadding
          let rest ← fieldEntries bound last
          return { rest with entries := e :: rest.entries }

/-- The body of a record with a given leaf; leaves that no layout needs stay unread. -/
def recordBody (leaf : Nat) : Reader TypeRecord :=
  match leaf with
  | 0x1001 => do return .modifier (← unsigned 4) (← unsigned 2)
  | 0x1002 => do return .pointer (← unsigned 4) (← unsigned 4)
  | 0x1008 => do
    let returnType ← unsigned 4
    skip 2
    let count ← unsigned 2
    skip 4
    return .procedure returnType count
  | 0x1009 => do
    let returnType ← unsigned 4
    let classType ← unsigned 4
    let thisType ← unsigned 4
    skip 2
    let count ← unsigned 2
    skip 8
    return .memberFunction returnType classType thisType count
  | 0x1205 => do return .bitfield (← unsigned 4) (← unsigned 1) (← unsigned 1)
  | 0x1503 => do
    let element ← unsigned 4
    let indexType ← unsigned 4
    let (size, _) ← numeric
    return .array ⟨element, indexType, size, ← name⟩
  | 0x1504 | 0x1505 | 0x1519 => do
    let count ← unsigned 2
    let properties ← unsigned 2
    let fields ← unsigned 4
    skip 8
    let (size, _) ← numeric
    return .aggregate ⟨leaf, count, properties, fields, size, ← name⟩
  | 0x1506 => do
    let count ← unsigned 2
    let properties ← unsigned 2
    let fields ← unsigned 4
    let (size, _) ← numeric
    return .aggregate ⟨leaf, count, properties, fields, size, ← name⟩
  | 0x1507 => do
    let count ← unsigned 2
    let properties ← unsigned 2
    let underlying ← unsigned 4
    let fields ← unsigned 4
    return .enumeration ⟨count, properties, underlying, fields, ← name⟩
  | 0x1203 => do return .fieldList (← fieldEntries (← get).length none)
  | _ => return .unknown leaf

/-- The record of a leaf and the bytes behind it. -/
def decodeRecord (leaf : Nat) (payload : Bytes) : Except RecordError TypeRecord :=
  match (recordBody leaf).run payload with
  | .ok (record, _) => .ok record
  | .error .short => .error (.truncated leaf)
  | .error (.numericLeaf n) => .error (.unsupportedNumeric n)

end KernelProfile.CodeView
