import KernelProfile.Table
import KernelProfile.Ty
import KernelProfile.Variant

/-! Definitions of enumerations and aggregates, and the collection of both that a profile holds.
The two kinds of definition have namespaces of their own. -/
namespace KernelProfile

structure EnumDef where
  subtype : Ty
  fields : Table Variant
  deriving DecidableEq

/-- How an aggregate was declared. -/
inductive StructKind where
  | structType | classType | unionType | interfaceType
  deriving DecidableEq, Repr

namespace StructKind

def all : List StructKind := [structType, classType, unionType, interfaceType]

/-- The name of a kind in a profile document. -/
def name : StructKind → String
  | structType => "struct"
  | classType => "class"
  | unionType => "union"
  | interfaceType => "interface"

def ofName? (s : String) : Option StructKind := all.find? fun k => k.name == s

theorem ofName?_name (k : StructKind) : ofName? k.name = some k := by
  cases k <;> rfl

end StructKind

/-- A member of an aggregate: its byte offset and its type. -/
structure Member where
  offset : Int
  type : Ty
  deriving DecidableEq

/-- An aggregate. Its size is the declared one. -/
structure StructDef where
  kind : StructKind
  size : Int
  fields : Table Member
  deriving DecidableEq

structure TypeCollection where
  enums : Table EnumDef := .empty
  structs : Table StructDef := .empty
  deriving DecidableEq

end KernelProfile
