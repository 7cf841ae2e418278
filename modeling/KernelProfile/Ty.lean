import KernelProfile.BaseKind

/-! Types of fields and enumerations. Aggregates and enumerations are referred to by name, and a
reference whose definition is absent is still a type. -/
namespace KernelProfile

/-- A type as a profile stores it. An array has one extent per dimension (0 when unknown) and the
flattened number of its elements; the position of a bit-field is relative to the byte at the
offset of its member. -/
inductive Ty where
  | base (kind : BaseKind)
  | enumRef (name : String)
  | structRef (name : String)
  | array (element : Ty) (dims : List Int) (count : Int)
  | pointer (target : Ty)
  | bitfield (underlying : Ty) (length position : Int)
  | function
  deriving DecidableEq, Repr, Inhabited

namespace Ty

def void : Ty := base .void

end Ty
end KernelProfile
