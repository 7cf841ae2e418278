import KernelProfile.CodeView.TypeStream
import KernelProfile.Table
import KernelProfile.Ty

/-! Types of type indices. Aggregates and enumerations become references by name, so that only
pointers, modifiers, bit-fields, arrays and the types under enumerations are followed; a chain
of more than 64 of those links is cut off with `void`. -/
namespace KernelProfile.CodeView

/-- The base kind of a built-in type; one that is not known counts as `void`. -/
def primitiveBase (kind : Int) : BaseKind :=
  match kind with
  | 0x08 | 0x12 | 0x74 => .i32
  | 0x10 | 0x20 | 0x70 | 0x7C => .char
  | 0x71 | 0x7A => .wchar
  | 0x68 => .i8
  | 0x69 => .u8
  | 0x11 | 0x72 => .i16
  | 0x21 | 0x73 | 0x31 => .u16
  | 0x22 | 0x75 | 0x7B | 0x32 => .u32
  | 0x13 | 0x76 => .i64
  | 0x23 | 0x77 | 0x33 => .u64
  | 0x14 | 0x78 => .i128
  | 0x24 | 0x79 => .u128
  | 0x46 => .f16
  | 0x40 => .f32
  | 0x41 => .f64
  | 0x43 => .f128
  | 0x30 => .bool
  | _ => .void

/-- Whether a name starts as compilers start the names that they make up. -/
def isMadeUp (name : String) : Bool :=
  ["<anonymous-", "<unnamed-", "__unnamed"].any fun p => p.toList.isPrefixOf name.toList

/-- The profile's name of a type: the declared one, or one made of the index. -/
def profileName (name : String) (index : Int) : String :=
  if isMadeUp name then "__anonymous_" ++ Text.hex index else name

/-- The most links that a chain of types may have. -/
def chainLimit : Nat := 64

/-- What types are translated against: the records, the size of a pointer, and the sizes of the
defined aggregates by declared name. -/
structure Context where
  records : RecordTable
  pointerSize : Int
  sizes : Table Int := .empty

namespace Context

/-- The record of an index, if there is a readable one. -/
def record? (c : Context) (index : Int) : Option TypeRecord := (c.records.get index).toOption

/-- The byte size of a type over at most `links` links, 0 when it cannot be told. -/
def sizeWithin (c : Context) : Nat → Int → Int
  | 0, _ => 0
  | links + 1, index =>
    match c.record? index with
    | some (.primitive i) =>
      if primitiveModeOf i = 0 then (primitiveBase (primitiveKindOf i)).size else c.pointerSize
    | some (.aggregate r) => if r.isForward then (c.sizes.get? r.name).getD 0 else r.size
    | some (.array r) => r.byteSize
    | some (.pointer _ attributes) =>
      if pointerSizeOf attributes = 0 then c.pointerSize else pointerSizeOf attributes
    | some (.enumeration r) => sizeWithin c links r.underlying
    | some (.modifier underlying _) => sizeWithin c links underlying
    | some (.bitfield underlying _ _) => sizeWithin c links underlying
    | _ => 0

/-- The byte size of a type, 0 when it cannot be told. -/
def recordSize (c : Context) (index : Int) : Int := c.sizeWithin (chainLimit + 1) index

/-- The number of elements of an array, 0 when their size is not known. -/
def extent (c : Context) (r : ArrayRecord) : Int :=
  let size := c.recordSize r.element
  if size = 0 then 0 else r.byteSize.fdiv size

/-- The extents of directly nested arrays behind the first one, at most `levels` of them, and the
index of the type at which the nesting ends. -/
def innerExtents (c : Context) : Nat → Int → List Int × Int
  | 0, index => ([], index)
  | levels + 1, index =>
    match c.record? index with
    | some (.array r) =>
      let (dims, element) := innerExtents c levels r.element
      (c.extent r :: dims, element)
    | _ => ([], index)

/-- The type of an index over at most `links` links. -/
def typeWithin (c : Context) : Nat → Int → Ty
  | 0, _ => .void
  | links + 1, index =>
    match c.record? index with
    | some (.primitive i) =>
      let base := Ty.base (primitiveBase (primitiveKindOf i))
      if primitiveModeOf i = 0 then base else .pointer base
    | some (.aggregate r) => .structRef (profileName r.name index)
    | some (.enumeration r) => .enumRef (profileName r.name index)
    | some (.array r) =>
      let inner := c.innerExtents chainLimit r.element
      let dims := c.extent r :: inner.1
      .array (typeWithin c (links - inner.1.length) inner.2) dims (dims.foldl (· * ·) 1)
    | some (.pointer underlying _) => .pointer (typeWithin c links underlying)
    | some (.bitfield underlying length position) =>
      .bitfield (typeWithin c links underlying) length position
    | some (.modifier underlying _) => typeWithin c links underlying
    | some (.procedure ..) => .function
    | some (.memberFunction ..) => .function
    | _ => .void
termination_by links => links
decreasing_by all_goals omega

/-- The type of an index. -/
def translate (c : Context) (index : Int) : Ty := c.typeWithin (chainLimit + 1) index

end Context
end KernelProfile.CodeView
