import KernelProfile.Json.Display
import KernelProfile.Json.Reader
import KernelProfile.Profile.Basic
import KernelProfile.Text.Encoding

/-! Drafts of profiles. A draft is a document taken apart: it has the kinds and the maps of a
profile, and enumerators that lie in their ranges, but the names and numbers in it are whatever
values stand in their places. Every fault of a document is one of its draft, except that such a
value is none that a profile can hold. -/
namespace KernelProfile

/-- Why a part of a document is refused. -/
inductive DocumentError where
  | missing (key : String)
  | wrongShape
  | notBaseKind (found : Json)
  | notStructKind (found : Json)
  | notTypeKind (found : Json)
  | notVariantKind (found : Json)
  | variant (e : VariantError)
  | floatOutOfRange (x : Binary64) (kind : VariantKind)
  | literal (text : String) (e : Text.LiteralError)
  | nanAddress
  | infiniteAddress

namespace DocumentError

/-- The wording of a fault: for a missing key its quoted name, for a wrong shape nothing. -/
def message : DocumentError → String
  | missing key => Text.quoted key
  | wrongShape => ""
  | notBaseKind found => found.display ++ " is not a valid BaseKind"
  | notStructKind found => found.display ++ " is not a valid StructKind"
  | notTypeKind found => "unknown type kind " ++ found.display
  | notVariantKind found => "unknown variant kind: " ++ found.display
  | variant e => e.message
  | floatOutOfRange x kind => x.display ++ " does not fit in " ++ kind.label
  | literal text e => e.message text
  | nanAddress => "cannot convert float NaN to integer"
  | infiniteAddress => "cannot convert float infinity to integer"

/-- A fault as the cause of a refused profile. -/
def cause : DocumentError → String
  | e@(missing _) => ": KeyError(" ++ e.message ++ ")"
  | wrongShape => ""
  | infiniteAddress => ""
  | e => ": ValueError(" ++ Text.quoted e.message ++ ")"

end DocumentError

/-- Why no profile is read from a text. The last two are not faults of the document: texts with half
of a surrogate pair on its own cannot be held here, and a document may be accepted although a name
or a number in it is a value of another type. -/
inductive LoadError where
  | undecodable
  | notJson
  | tooManyDigits (digits : Nat)
  | notAnObject
  | malformed (e : DocumentError)
  | infiniteAddress
  | unsupported (e : UnsupportedArchitecture)
  | loneSurrogate
  | illTyped

namespace LoadError

def message : LoadError → String
  | undecodable => ""
  | notJson => "invalid JSON"
  | tooManyDigits digits => (Text.LiteralError.tooLong digits).message ""
  | notAnObject => "profile must be a JSON object"
  | malformed e => "malformed profile" ++ e.cause
  | infiniteAddress => ""
  | unsupported e => e.message
  | loneSurrogate => ""
  | illTyped => ""

end LoadError

namespace Json

/-- The member of an object under a key that has to be there. -/
def member (key : String) : Json → Except DocumentError Json
  | .obj members =>
    match members.lookup key with
    | some value => .ok value
    | none => .error (.missing key)
  | _ => .error .wrongShape

/-- The members of a value that has to be an object. -/
def members : Json → Except DocumentError (List (String × Json))
  | .obj members => .ok members
  | _ => .error .wrongShape

/-- The items that a value lists: those of an array, the characters of a text, the keys of an
object. -/
def items : Json → Except DocumentError (List Json)
  | .arr items => .ok items
  | .str s => .ok (s.toList.map fun c => .str (String.singleton c))
  | .obj members => .ok (members.map fun e => .str e.1)
  | _ => .error .wrongShape

/-- A map from names: the members of an object, each of them read. -/
def table {α : Type} (read : Json → Except DocumentError α) (value : Json) :
    Except DocumentError (Table α) := do
  let entries ← (← value.members).mapM fun (name, v) => do return (name, ← read v)
  return .ofList entries

/-- A kind given by its name. -/
def named {κ : Type} (ofName? : String → Option κ) (fault : Json → DocumentError) :
    Json → Except DocumentError κ
  | .str s =>
    match ofName? s with
    | some k => .ok k
    | none => .error (fault (.str s))
  | value => .error (fault value)

/-- Whether a value is a certain text. -/
def isText (value : Json) (text : String) : Bool :=
  match value with
  | .str s => s == text
  | _ => false

def text? : Json → Option String
  | .str s => some s
  | _ => none

def int? : Json → Option Int
  | .int n => some n
  | _ => none

end Json

def BaseKind.ofJson : Json → Except DocumentError BaseKind := Json.named ofName? .notBaseKind

def StructKind.ofJson : Json → Except DocumentError StructKind :=
  Json.named ofName? .notStructKind

def VariantKind.ofJson : Json → Except DocumentError VariantKind :=
  Json.named ofLabel? .notVariantKind

/-- A type taken apart. -/
inductive TyDraft where
  | base (kind : BaseKind)
  | enumRef (name : Json)
  | structRef (name : Json)
  | array (element : TyDraft) (dims : List Json) (count : Json)
  | pointer (target : TyDraft)
  | bitfield (underlying : TyDraft) (length position : Json)
  | function

namespace TyDraft

mutual

/-- The draft of a type document. -/
def ofJson : Json → Except DocumentError TyDraft
  | .obj members => do
    let kind ← (Json.obj members).member "kind"
    if kind.isText "base" then
      return .base (← BaseKind.ofJson (← (Json.obj members).member "subkind"))
    else if kind.isText "enum" then
      return .enumRef (← (Json.obj members).member "name")
    else if kind.isText "struct" then
      return .structRef (← (Json.obj members).member "name")
    else if kind.isText "array" then
      let element ← ofSubtype members
      let dims ← (← (Json.obj members).member "dims").items
      return .array element dims (← (Json.obj members).member "size")
    else if kind.isText "pointer" then
      return .pointer (← ofSubtype members)
    else if kind.isText "bitfield" then
      let underlying ← ofSubtype members
      let length ← (Json.obj members).member "bit_length"
      return .bitfield underlying length (← (Json.obj members).member "bit_position")
    else if kind.isText "function" then
      return .function
    else
      throw (.notTypeKind kind)
  | _ => .error .wrongShape

/-- The draft of the `subtype` member. -/
def ofSubtype : List (String × Json) → Except DocumentError TyDraft
  | [] => .error (.missing "subtype")
  | (key, value) :: rest => if key = "subtype" then ofJson value else ofSubtype rest

end

/-- The type that a draft is of, if its names are texts and its numbers integers. -/
def type? : TyDraft → Option Ty
  | base kind => some (.base kind)
  | enumRef name => name.text?.map .enumRef
  | structRef name => name.text?.map .structRef
  | array element dims count => do
    return .array (← element.type?) (← dims.mapM Json.int?) (← count.int?)
  | pointer target => target.type?.map .pointer
  | bitfield underlying length position => do
    return .bitfield (← underlying.type?) (← length.int?) (← position.int?)
  | function => some .function

end TyDraft

/-- An enumerator taken apart: a variant, or a kind with a truth value or a fraction in its
range. -/
inductive VariantDraft where
  | whole (v : Variant)
  | truth (kind : VariantKind) (b : Bool)
  | real (kind : VariantKind) (x : Binary64)

namespace VariantDraft

/-- The draft of an enumerator document. -/
def ofJson : Json → Except DocumentError VariantDraft
  | .int n => do return .whole (← (Variant.fit n).mapError .variant)
  | .obj members => do
    let kind ← VariantKind.ofJson (← (Json.obj members).member "kind")
    match ← (Json.obj members).member "value" with
    | .int n => return .whole (← (Variant.make kind n).mapError .variant)
    | .bool b => return .truth kind b
    | .float x =>
      if x.between kind.least kind.greatest then return .real kind x
      else throw (.floatOutOfRange x kind)
    | _ => throw .wrongShape
  | _ => .error .wrongShape

/-- The variant that a draft is of. A truth value counts as a number, a fraction does not. -/
def variant? : VariantDraft → Option Variant
  | whole v => some v
  | truth kind b => (Variant.make kind (if b then 1 else 0)).toOption
  | real _ _ => none

end VariantDraft

/-- An enumeration taken apart. -/
structure EnumDraft where
  subtype : TyDraft
  fields : Table VariantDraft

namespace EnumDraft

def ofJson (value : Json) : Except DocumentError EnumDraft := do
  let subtype ← TyDraft.ofJson (← value.member "subtype")
  return ⟨subtype, ← (← value.member "fields").table VariantDraft.ofJson⟩

def enum? (d : EnumDraft) : Option EnumDef := do
  return ⟨← d.subtype.type?, ← d.fields.mapM? VariantDraft.variant?⟩

end EnumDraft

/-- A member of an aggregate taken apart. -/
structure MemberDraft where
  offset : Json
  type : TyDraft

namespace MemberDraft

def ofJson (value : Json) : Except DocumentError MemberDraft := do
  let offset ← value.member "offset"
  return ⟨offset, ← TyDraft.ofJson (← value.member "type")⟩

def member? (d : MemberDraft) : Option Member := do
  return ⟨← d.offset.int?, ← d.type.type?⟩

end MemberDraft

/-- An aggregate taken apart. -/
structure StructDraft where
  kind : StructKind
  size : Json
  fields : Table MemberDraft

namespace StructDraft

def ofJson (value : Json) : Except DocumentError StructDraft := do
  let kind ← StructKind.ofJson (← value.member "kind")
  let size ← value.member "size"
  return ⟨kind, size, ← (← value.member "fields").table MemberDraft.ofJson⟩

def struct? (d : StructDraft) : Option StructDef := do
  return ⟨d.kind, ← d.size.int?, ← d.fields.mapM? MemberDraft.member?⟩

end StructDraft

/-- The definitions of a profile taken apart. -/
structure TypesDraft where
  enums : Table EnumDraft
  structs : Table StructDraft

namespace TypesDraft

/-- The draft of the definitions of a profile document, enumerations first. -/
def ofJson (doc : Json) : Except DocumentError TypesDraft := do
  let enums ← (← (← doc.member "types").member "enums").table EnumDraft.ofJson
  return ⟨enums, ← (← (← doc.member "types").member "structs").table StructDraft.ofJson⟩

def types? (d : TypesDraft) : Option TypeCollection := do
  return ⟨← d.enums.mapM? EnumDraft.enum?, ← d.structs.mapM? StructDraft.struct?⟩

end TypesDraft

/-- The address that a symbol's value denotes: a number without its fraction, a truth value as 0
or 1, or a decimal literal. -/
def addressOf : Json → Except DocumentError Int
  | .int n => .ok n
  | .bool b => .ok (if b then 1 else 0)
  | .float .nan => .error .nanAddress
  | .float (.infinite _) => .error .infiniteAddress
  | .float (.finite negative m e) =>
    let n : Int := Binary64.floorMagnitude m e
    .ok (if negative then -n else n)
  | .str s => (Text.readInteger s.toList).mapError (.literal s)
  | _ => .error .wrongShape

namespace Architecture

/-- The architecture of a tag, which has to be a string. -/
def ofJson : Json → Except UnsupportedArchitecture Architecture
  | .str s => parse s
  | found => .error ⟨found.display⟩

end Architecture

/-- A profile taken apart. -/
structure Draft where
  architecture : Architecture
  symbols : Table Int
  types : TypesDraft

namespace Draft

/-- The parts of a profile document: definitions, symbols and the architecture's tag, which are
looked at in this order. -/
def parts (doc : Json) : Except DocumentError (TypesDraft × Table Int × Json) := do
  let types ← TypesDraft.ofJson doc
  let symbols ← (← doc.member "symbols").table addressOf
  return (types, symbols, ← doc.member "architecture")

/-- The draft of a document. An infinite address is no fault of the document's form. -/
def ofJson (doc : Json) : Except LoadError Draft :=
  match parts doc with
  | .error .infiniteAddress => .error .infiniteAddress
  | .error e => .error (.malformed e)
  | .ok (types, symbols, tag) =>
    match Architecture.ofJson tag with
    | .error e => .error (.unsupported e)
    | .ok architecture => .ok ⟨architecture, symbols, types⟩

/-- The document of a text, which has to be an object. -/
def document (text : String) : Except LoadError Json :=
  match Json.read text with
  | .error .malformed => .error .notJson
  | .error (.tooLong digits) => .error (.tooManyDigits digits)
  | .error .loneSurrogate => .error .loneSurrogate
  | .ok doc@(.obj _) => .ok doc
  | .ok _ => .error .notAnObject

/-- The draft of a document's text. -/
def load (text : String) : Except LoadError Draft := document text >>= ofJson

/-- The draft of a document given as bytes of an encoding that they show themselves. -/
def loadBytes (bytes : List UInt8) : Except LoadError Draft :=
  match Text.decodeDetected bytes with
  | .error .invalid => .error .undecodable
  | .error .loneSurrogate => .error .loneSurrogate
  | .ok text => load text

/-- The profile that a draft is of, if each name is a text and each number an integer. -/
def profile (d : Draft) : Except LoadError Profile :=
  match d.types.types? with
  | some types => .ok ⟨d.architecture, d.symbols, types⟩
  | none => .error .illTyped

end Draft
end KernelProfile
