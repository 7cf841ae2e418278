import KernelProfile.Descriptor
import KernelProfile.Profile.Basic

/-! Questions to a profile: sizes of types, addresses of symbols, and places of fields. A field is
looked for in a structure itself and then, depth first in declaration order, in the structures
that it embeds; a structure on the way to the current one is not entered again. -/
namespace KernelProfile

/-- Why a question has no answer. -/
inductive LookupError where
  | symbol (name : String)
  | type (name : String)
  | field (owner name : String)
  | shape (e : DescriptorError)
  deriving DecidableEq, Repr

def LookupError.message : LookupError → String
  | .symbol name => "symbol not found: " ++ name
  | .type name => "type not found: " ++ name
  | .field owner name => "field not found: " ++ owner ++ "." ++ name
  | .shape e => e.message

namespace Profile

def pointerSize (p : Profile) : Int := p.architecture.pointerSize

def findSymbol? (p : Profile) (name : String) : Option Int := p.symbols.get? name

def findEnum? (p : Profile) (name : String) : Option EnumDef := p.types.enums.get? name

def findStruct? (p : Profile) (name : String) : Option StructDef := p.types.structs.get? name

/-- The size of a type through at most `hops` enumerations. An array has the size of one element
and a bit-field that of its storage. -/
def sizeWithin (p : Profile) : Nat → Ty → Option Int
  | _, .base kind => some kind.size
  | _, .structRef name => (p.findStruct? name).map StructDef.size
  | hops, .array element _ _ => sizeWithin p hops element
  | hops, .bitfield underlying _ _ => sizeWithin p hops underlying
  | _, .pointer _ => some p.pointerSize
  | _, .function => some p.pointerSize
  | 0, .enumRef _ => none
  | hops + 1, .enumRef name => (p.findEnum? name).bind fun e => sizeWithin p hops e.subtype
termination_by hops t => (hops, t)

/-- The size of a type in bytes, if every definition it needs is there. A chain of enumerations
that does not come back on itself has at most as many links as there are enumerations. -/
def typeSize (p : Profile) (t : Ty) : Option Int := p.sizeWithin p.types.enums.size t

/-- The place of a member in its own structure, if its size is known. -/
def describe (p : Profile) (m : Member) : Option Descriptor :=
  (p.typeSize m.type).map fun size =>
    match m.type with
    | .bitfield _ length position => .bits ⟨m.offset, size, position, length⟩
    | _ => .plain ⟨m.offset, size⟩

/-- Look for a field in a structure at the end of a path of structure names. A field that the
structure declares itself settles the search there, even where its size is unknown. -/
def search (p : Profile) (field : String) : Nat → List String → StructDef → Option Descriptor
  | depth, path, s =>
    match s.fields.get? field with
    | some m => p.describe m
    | none =>
      match depth with
      | 0 => none
      | depth + 1 =>
        s.fields.entries.findSome? fun (_, m) =>
          match m.type with
          | .structRef name =>
            if name ∈ path then none
            else
              match p.findStruct? name with
              | none => none
              | some nested =>
                (search p field depth (path ++ [name]) nested).map (·.shift m.offset)
          | _ => none

/-- The place of a field in a structure or in one that it embeds. A path never repeats a name, so
it is no longer than the number of structures. -/
def fieldDescriptor (p : Profile) (owner field : String) : Except LookupError Descriptor :=
  match p.findStruct? owner with
  | none => .error (.type owner)
  | some s =>
    match p.search field p.types.structs.size [owner] s with
    | none => .error (.field owner field)
    | some d => .ok d

/-- The byte range of a field that may be absent. -/
def findField (p : Profile) (owner field : String) : Except LookupError (Option ByteSlot) :=
  match p.fieldDescriptor owner field with
  | .error _ => .ok none
  | .ok d => (d.toPlain.map some).mapError .shape

/-- The bit range of a field that may be absent. -/
def findBits (p : Profile) (owner field : String) : Except LookupError (Option BitSlot) :=
  match p.fieldDescriptor owner field with
  | .error _ => .ok none
  | .ok d => (d.toBits.map some).mapError .shape

/-- The byte offset of a plain field. -/
def fieldOffset (p : Profile) (owner field : String) : Except LookupError Int := do
  let d ← p.fieldDescriptor owner field
  d.toOffset.mapError .shape

/-- The address of the first of some names that is a symbol, with that name. -/
def symbolAddress (p : Profile) (name : String) (aliases : List String) :
    Except LookupError (String × Int) :=
  match (name :: aliases).findSome? fun n => (p.findSymbol? n).map fun a => (n, a) with
  | some found => .ok found
  | none => .error (.symbol name)

end Profile
end KernelProfile
