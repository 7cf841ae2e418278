import KernelProfile.Json.Writer
import KernelProfile.Profile.Draft

/-! Profiles as JSON documents. A type is an object tagged by its `kind`; an enumerator is an
object with its width and value, and a bare integer is read as the narrowest variant that holds
it. Writing and reading keep every order. A document is read by way of its draft. -/
namespace KernelProfile

namespace Ty

/-- The document of a type. -/
def toJson : Ty → Json
  | .base kind => .obj [("kind", .str "base"), ("subkind", .str kind.name)]
  | .enumRef name => .obj [("kind", .str "enum"), ("name", .str name)]
  | .structRef name => .obj [("kind", .str "struct"), ("name", .str name)]
  | .array element dims count =>
    .obj [("kind", .str "array"), ("subtype", element.toJson), ("dims", .arr (dims.map .int)),
      ("size", .int count)]
  | .pointer target => .obj [("kind", .str "pointer"), ("subtype", target.toJson)]
  | .bitfield underlying length position =>
    .obj [("kind", .str "bitfield"), ("subtype", underlying.toJson),
      ("bit_length", .int length), ("bit_position", .int position)]
  | .function => .obj [("kind", .str "function")]

/-- The type of a document. -/
def ofJson (value : Json) : Except DocumentError Ty := do
  match (← TyDraft.ofJson value).type? with
  | some t => return t
  | none => throw .wrongShape

end Ty

namespace Variant

def toJson (v : Variant) : Json :=
  .obj [("kind", .str v.kind.label), ("value", .int v.value)]

/-- The variant of an enumerator document. -/
def ofJson (value : Json) : Except DocumentError Variant := do
  match (← VariantDraft.ofJson value).variant? with
  | some v => return v
  | none => throw .wrongShape

end Variant

namespace EnumDef

def toJson (e : EnumDef) : Json :=
  .obj [("subtype", e.subtype.toJson), ("fields", .obj (e.fields.map Variant.toJson).entries)]

end EnumDef

namespace Member

def toJson (m : Member) : Json := .obj [("offset", .int m.offset), ("type", m.type.toJson)]

end Member

namespace StructDef

def toJson (s : StructDef) : Json :=
  .obj [("kind", .str s.kind.name), ("size", .int s.size),
    ("fields", .obj (s.fields.map Member.toJson).entries)]

end StructDef

namespace TypeCollection

def toJson (types : TypeCollection) : Json :=
  .obj [("enums", .obj (types.enums.map EnumDef.toJson).entries),
    ("structs", .obj (types.structs.map StructDef.toJson).entries)]

end TypeCollection

namespace Profile

/-- The document of a profile. -/
def toJson (p : Profile) : Json :=
  .obj [("architecture", .str p.architecture.tag), ("symbols", .obj (p.symbols.map .int).entries),
    ("types", p.types.toJson)]

/-- The profile of a document. -/
def ofJson (doc : Json) : Except LoadError Profile := Draft.ofJson doc >>= Draft.profile

/-- The text of a profile's document. -/
def dump (p : Profile) (indent : Option Nat) : String := p.toJson.write indent

/-- The profile of a document's text. -/
def load (text : String) : Except LoadError Profile := Draft.load text >>= Draft.profile

/-- The profile of a document given as bytes of an encoding that they show themselves. -/
def loadBytes (bytes : List UInt8) : Except LoadError Profile :=
  Draft.loadBytes bytes >>= Draft.profile

end Profile
end KernelProfile
