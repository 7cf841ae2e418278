import KernelProfile.Definition

/-! References by name. A type goes through pointers, arrays and bit-fields to one type at its end,
so that at most one reference stands in it; a collection mentions what stands in the types of its
fields and under its enumerations, and defines what is a key of the namespace concerned. -/
namespace KernelProfile

/-- A name in one of the two namespaces of definitions. -/
inductive Reference where
  | enumeration (name : String)
  | aggregate (name : String)
  deriving DecidableEq, Repr

namespace Ty

/-- The reference that stands in a type, at any depth. -/
def reference? : Ty → Option Reference
  | .enumRef name => some (.enumeration name)
  | .structRef name => some (.aggregate name)
  | .array element _ _ => element.reference?
  | .pointer target => target.reference?
  | .bitfield underlying _ _ => underlying.reference?
  | .base _ => none
  | .function => none

/-- How many pointers, arrays and bit-fields stand one inside the other. -/
def nesting : Ty → Nat
  | .array element _ _ => element.nesting + 1
  | .pointer target => target.nesting + 1
  | .bitfield underlying _ _ => underlying.nesting + 1
  | _ => 0

end Ty

namespace TypeCollection

def Defines (types : TypeCollection) : Reference → Prop
  | .enumeration name => name ∈ types.enums.keys
  | .aggregate name => name ∈ types.structs.keys

instance (types : TypeCollection) : (r : Reference) → Decidable (types.Defines r)
  | .enumeration name => inferInstanceAs (Decidable (name ∈ types.enums.keys))
  | .aggregate name => inferInstanceAs (Decidable (name ∈ types.structs.keys))

/-- A reference stands in the subtype of an enumeration or in the type of a field. -/
inductive Mentions (types : TypeCollection) (r : Reference) : Prop
  | subtype {name : String} {e : EnumDef} (he : (name, e) ∈ types.enums.entries)
      (hr : e.subtype.reference? = some r)
  | field {name : String} {s : StructDef} {field : String} {m : Member}
      (hs : (name, s) ∈ types.structs.entries) (hm : (field, m) ∈ s.fields.entries)
      (hr : m.type.reference? = some r)

end TypeCollection
end KernelProfile
