import KernelProfile.Text.Numeral
import KernelProfile.Variant

/-! Type records. A record refers to other types by index; indices below 0x1000 are built-in types
spelled by the index itself. -/
namespace KernelProfile.CodeView

/-- One entry of a field list. -/
inductive FieldEntry where
  /-- A data member at a byte offset. -/
  | member (attributes fieldType offset : Int) (name : String)
  /-- An enumerator, with the label of the width its value was written in. -/
  | enumerator (attributes value : Int) (label name : String)
  /-- An entry without data layout: a base class, a method, a nested type. -/
  | other (leaf : Int) (name : Option String)
  deriving DecidableEq, Repr

/-- A class, structure, interface or union. -/
structure AggregateRecord where
  leaf : Int
  count : Int
  properties : Int
  fields : Int
  size : Int
  name : String
  deriving DecidableEq, Repr

structure EnumRecord where
  count : Int
  properties : Int
  underlying : Int
  fields : Int
  name : String
  deriving DecidableEq, Repr

/-- An array whose byte size covers all elements. -/
structure ArrayRecord where
  element : Int
  indexType : Int
  byteSize : Int
  name : String
  deriving DecidableEq, Repr

structure FieldListRecord where
  entries : List FieldEntry
  continuation : Option Int
  deriving DecidableEq, Repr

inductive TypeRecord where
  | primitive (index : Int)
  | modifier (underlying attributes : Int)
  | pointer (underlying attributes : Int)
  | procedure (returnType parameterCount : Int)
  | memberFunction (returnType classType thisType parameterCount : Int)
  | bitfield (underlying length position : Int)
  | array (record : ArrayRecord)
  | aggregate (record : AggregateRecord)
  | enumeration (record : EnumRecord)
  | fieldList (record : FieldListRecord)
  | unknown (leaf : Int)
  deriving DecidableEq, Repr

/-- Bits of a number: `width` of them above the lowest `low`. -/
def bitsOf (n : Int) (low width : Nat) : Int := n / 2 ^ low % 2 ^ width

/-- The property bit of a declaration whose definition is elsewhere. -/
def isForward (properties : Int) : Bool := bitsOf properties 7 1 == 1

/-- The property bit of a record that carries a second, unique name. -/
def hasUniqueName (properties : Int) : Bool := bitsOf properties 9 1 == 1

def AggregateRecord.isForward (r : AggregateRecord) : Bool := CodeView.isForward r.properties

def EnumRecord.isForward (r : EnumRecord) : Bool := CodeView.isForward r.properties

/-- The first index of a type that has a record. -/
def firstRecordIndex : Int := 0x1000

/-- The built-in type that an index below 0x1000 names. -/
def primitiveKindOf (index : Int) : Int := bitsOf index 0 8

/-- How a built-in type is reached: 0 as a value, anything else through a pointer. -/
def primitiveModeOf (index : Int) : Int := bitsOf index 8 4

/-- The byte size that a pointer's attributes give, 0 when they give none. -/
def pointerSizeOf (attributes : Int) : Int := bitsOf attributes 13 6

/-- Why a record cannot be had. -/
inductive RecordError where
  | truncated (leaf : Nat)
  | unsupportedNumeric (leaf : Nat)
  | outOfRange (index : Int)
  deriving DecidableEq, Repr

/-- A leaf as messages show it, with at least four hexadecimal digits. -/
def leafText (leaf : Nat) : String :=
  let digits := Nat.toDigits 16 leaf
  "0x" ++ String.ofList (List.replicate (4 - digits.length) '0' ++ digits)

def RecordError.message : RecordError → String
  | truncated leaf => "truncated record for leaf " ++ leafText leaf
  | unsupportedNumeric leaf => "unsupported numeric leaf " ++ leafText leaf
  | outOfRange index => "type index 0x" ++ Text.hex index ++ " out of range"

end KernelProfile.CodeView
