import KernelProfile.CodeView.Decode
import KernelProfile.Proofs.Bytes

/-! The format of type records as its writers produce it. A written record holds every field that is
in the bytes, also those that no decoder keeps, and one choice for each freedom of the format: how a
number is written, how an entry is padded, what follows the last field. It has a leaf, the bytes
behind that leaf, and the record that it stands for. -/
namespace KernelProfile.CodeView.Written

/-! ## Fields -/

/-- A little-endian number of a fixed number of bytes. -/
structure Word (width : Nat) where
  value : Nat
  fits : value < 256 ^ width

def Word.bytes {width : Nat} (w : Word width) : Bytes := Bytes.ofNatLittle width w.value

/-- A text that a zero byte can end. -/
structure Name where
  text : String
  noZero : '\x00' ∉ text.toList

def Name.bytes (n : Name) : Bytes := Text.Utf8.encode n.text ++ [0]

/-- The leaf that stands in front of a number of a kind. Single unsigned bytes have none. -/
def numericLeaf? : VariantKind → Option Nat
  | .u8 => none
  | .i8 => some 0x8000
  | .i16 => some 0x8001
  | .u16 => some 0x8002
  | .i32 => some 0x8003
  | .u32 => some 0x8004
  | .i64 => some 0x8009
  | .u64 => some 0x800A
  | .i128 => some 0x8017
  | .u128 => some 0x8018

/-- A number of variable width: in the place of a leaf while it is below 0x8000, or behind the leaf
of a kind that holds it. -/
inductive Numeric where
  | inline (n : Nat) (small : n < 0x8000)
  | wide (leaf : Nat) (number : Variant) (named : numericLeaf? number.kind = some leaf)

namespace Numeric

def bytes : Numeric → Bytes
  | inline n _ => Bytes.ofNatLittle 2 n
  | wide leaf v _ => Bytes.ofNatLittle 2 leaf ++ Bytes.ofIntLittle (v.kind.bits / 8) v.value

def value : Numeric → Int
  | inline n _ => n
  | wide _ v _ => v.value

def label : Numeric → String
  | inline _ _ => VariantKind.u16.label
  | wide _ v _ => v.kind.label

end Numeric

/-! ## Field lists -/

/-- Whether the attributes of a method make it the first in its slot of the table of virtual
functions. -/
def introduces (attributes : Word 2) : Bool :=
  bitsOf attributes.value 2 3 == 4 || bitsOf attributes.value 2 3 == 6

/-- One entry of a field list. -/
inductive Entry where
  | member (attributes : Word 2) (type : Word 4) (offset : Numeric) (name : Name)
  | enumerator (attributes : Word 2) (value : Numeric) (name : Name)
  /-- Where the list goes on. -/
  | continuation (pad : Word 2) (target : Word 4)
  /-- A base class or interface. -/
  | base (leaf : Nat) (known : leaf ∈ [0x1400, 0x151A]) (attributes : Word 2) (type : Word 4)
      (offset : Numeric)
  /-- A virtual base class, direct or indirect. -/
  | virtualBase (leaf : Nat) (known : leaf ∈ [0x1401, 0x1402]) (attributes : Word 2)
      (type pointer : Word 4) (offset slot : Numeric)
  | functionTable (pad : Word 2) (type : Word 4)
  | functionOffset (pad : Word 2) (type offset : Word 4)
  /-- A static member, a group of overloaded methods or a nested type. -/
  | named (leaf : Nat) (known : leaf ∈ [0x150E, 0x150F, 0x1510, 0x1512]) (head : Word 2)
      (target : Word 4) (name : Name)
  /-- A method, with its slot exactly when it introduces one. -/
  | method (attributes : Word 2) (type : Word 4) (slot : Option (Word 4))
      (exact : slot.isSome = introduces attributes) (name : Name)

namespace Entry

def leaf : Entry → Nat
  | member .. => 0x150D
  | enumerator .. => 0x1502
  | continuation .. => 0x1404
  | base leaf .. => leaf
  | virtualBase leaf .. => leaf
  | functionTable .. => 0x1409
  | functionOffset .. => 0x140C
  | named leaf .. => leaf
  | method .. => 0x1511

/-- The bytes behind the leaf. -/
def body : Entry → Bytes
  | member attributes type offset name =>
    [attributes.bytes, type.bytes, offset.bytes, name.bytes].flatten
  | enumerator attributes value name => [attributes.bytes, value.bytes, name.bytes].flatten
  | continuation pad target => [pad.bytes, target.bytes].flatten
  | base _ _ attributes type offset => [attributes.bytes ++ type.bytes, offset.bytes].flatten
  | virtualBase _ _ attributes type pointer offset slot =>
    [attributes.bytes ++ type.bytes ++ pointer.bytes, offset.bytes, slot.bytes].flatten
  | functionTable pad type => [pad.bytes ++ type.bytes].flatten
  | functionOffset pad type offset => [pad.bytes ++ type.bytes ++ offset.bytes].flatten
  | named _ _ head target name => [head.bytes ++ target.bytes, name.bytes].flatten
  | method attributes type slot _ name =>
    [attributes.bytes, type.bytes, (slot.map Word.bytes).getD [], name.bytes].flatten

/-- What the entry stands for in the list. -/
def step : Entry → FieldStep
  | member attributes type offset name =>
    .entry (.member attributes.value type.value offset.value name.text)
  | enumerator attributes value name =>
    .entry (.enumerator attributes.value value.value value.label name.text)
  | continuation _ target => .continuation target.value
  | base leaf .. => .entry (.other leaf none)
  | virtualBase leaf .. => .entry (.other leaf none)
  | functionTable .. => .entry (.other 0x1409 none)
  | functionOffset .. => .entry (.other 0x140C none)
  | named leaf _ _ _ name => .entry (.other leaf (some name.text))
  | method _ _ _ _ name => .entry (.other 0x1511 (some name.text))

end Entry

/-- The bytes 0xF0 + n down to 0xF1. -/
def padding (n : Fin 16) : Bytes := (List.range n).reverse.map fun k => UInt8.ofNat (0xF1 + k)

/-- An entry with the number of bytes that pad it. -/
structure Padded where
  entry : Entry
  pad : Fin 16

def Padded.bytes (p : Padded) : Bytes :=
  Bytes.ofNatLittle 2 p.entry.leaf ++ (p.entry.body ++ padding p.pad)

/-- The entry of the list that a written entry stands for; a continuation stands for none. -/
def Padded.entry? (p : Padded) : Option FieldEntry :=
  match p.entry.step with
  | .entry e => some e
  | .continuation _ => none

def Padded.target? (p : Padded) : Option Int :=
  match p.entry.step with
  | .entry _ => none
  | .continuation target => some target

/-! ## Records -/

/-- A record other than a field list. -/
inductive Body where
  | modifier (underlying : Word 4) (attributes : Word 2)
  | pointer (underlying attributes : Word 4)
  | procedure (returnType : Word 4) (convention attributes : Word 1) (count : Word 2)
      (parameters : Word 4)
  | memberFunction (returnType classType thisType : Word 4) (convention attributes : Word 1)
      (count : Word 2) (parameters adjustment : Word 4)
  | bitfield (underlying : Word 4) (length position : Word 1)
  | array (element indexType : Word 4) (size : Numeric) (name : Name)
  /-- A class, structure or interface. -/
  | aggregate (leaf : Nat) (known : leaf ∈ [0x1504, 0x1505, 0x1519]) (count properties : Word 2)
      (fields derived shape : Word 4) (size : Numeric) (name : Name) (unique : Option Name)
      (exact : unique.isSome = hasUniqueName properties.value)
  | union (count properties : Word 2) (fields : Word 4) (size : Numeric) (name : Name)
      (unique : Option Name) (exact : unique.isSome = hasUniqueName properties.value)
  | enumeration (count properties : Word 2) (underlying fields : Word 4) (name : Name)
      (unique : Option Name) (exact : unique.isSome = hasUniqueName properties.value)

namespace Body

def leaf : Body → Nat
  | modifier .. => 0x1001
  | pointer .. => 0x1002
  | procedure .. => 0x1008
  | memberFunction .. => 0x1009
  | bitfield .. => 0x1205
  | array .. => 0x1503
  | aggregate leaf .. => leaf
  | union .. => 0x1506
  | enumeration .. => 0x1507

/-- The bytes up to the name. -/
def head : Body → Bytes
  | modifier underlying attributes => [underlying.bytes, attributes.bytes].flatten
  | pointer underlying attributes => [underlying.bytes, attributes.bytes].flatten
  | procedure returnType convention attributes count parameters =>
    [returnType.bytes, convention.bytes ++ attributes.bytes, count.bytes, parameters.bytes].flatten
  | memberFunction returnType classType thisType convention attributes count parameters
      adjustment =>
    [returnType.bytes, classType.bytes, thisType.bytes, convention.bytes ++ attributes.bytes,
      count.bytes, parameters.bytes ++ adjustment.bytes].flatten
  | bitfield underlying length position =>
    [underlying.bytes, length.bytes, position.bytes].flatten
  | array element indexType size name =>
    [element.bytes, indexType.bytes, size.bytes, name.bytes].flatten
  | aggregate _ _ count properties fields derived shape size name _ _ =>
    [count.bytes, properties.bytes, fields.bytes, derived.bytes ++ shape.bytes, size.bytes,
      name.bytes].flatten
  | union count properties fields size name _ _ =>
    [count.bytes, properties.bytes, fields.bytes, size.bytes, name.bytes].flatten
  | enumeration count properties underlying fields name _ _ =>
    [count.bytes, properties.bytes, underlying.bytes, fields.bytes, name.bytes].flatten

/-- The name that tells a type from others of the same name, where the properties announce one. -/
def unique : Body → Option Name
  | aggregate _ _ _ _ _ _ _ _ _ unique _ => unique
  | union _ _ _ _ _ unique _ => unique
  | enumeration _ _ _ _ _ unique _ => unique
  | _ => none

def bytes (b : Body) : Bytes := b.head ++ (b.unique.map Name.bytes).getD []

def record : Body → TypeRecord
  | modifier underlying attributes => .modifier underlying.value attributes.value
  | pointer underlying attributes => .pointer underlying.value attributes.value
  | procedure returnType _ _ count _ => .procedure returnType.value count.value
  | memberFunction returnType classType thisType _ _ count _ _ =>
    .memberFunction returnType.value classType.value thisType.value count.value
  | bitfield underlying length position => .bitfield underlying.value length.value position.value
  | array element indexType size name =>
    .array ⟨element.value, indexType.value, size.value, name.text⟩
  | aggregate leaf _ count properties fields _ _ size name _ _ =>
    .aggregate ⟨leaf, count.value, properties.value, fields.value, size.value, name.text⟩
  | union count properties fields size name _ _ =>
    .aggregate ⟨0x1506, count.value, properties.value, fields.value, size.value, name.text⟩
  | enumeration count properties underlying fields name _ _ =>
    .enumeration ⟨count.value, properties.value, underlying.value, fields.value, name.text⟩

end Body

/-- A record as its bytes are. Anything may stand behind the last field of a record that is no field
list, since its padding belongs to its bytes. -/
inductive Record where
  | plain (body : Body) (tail : Bytes)
  | fieldList (entries : List Padded)

namespace Record

def leaf : Record → Nat
  | plain body _ => body.leaf
  | fieldList _ => 0x1203

def bytes : Record → Bytes
  | plain body tail => body.bytes ++ tail
  | fieldList entries => entries.flatMap Padded.bytes

/-- The record that is written. A field list goes on where its last continuation says. -/
def record : Record → TypeRecord
  | plain body _ => body.record
  | fieldList entries =>
    .fieldList ⟨entries.filterMap Padded.entry?, (entries.filterMap Padded.target?).getLast?⟩

end Record
end KernelProfile.CodeView.Written
