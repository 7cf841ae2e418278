import KernelProfile.Definition
import KernelProfile.Dwarf.Translate

/-! Definitions at the top level of compilation units. Units repeat what their headers define, so a
definition whose declaration site is known is passed over, and of definitions that share a name
the one with more fields stays. -/
namespace KernelProfile.Dwarf

/-- Why collecting stops. -/
inductive CollectError where
  | read (e : ReadError)
  | variant (e : VariantError)
  deriving DecidableEq, Repr

/-- How an aggregate of a tag was declared. -/
def structKind? (tag : String) : Option StructKind :=
  if tag = "DW_TAG_structure_type" then some .structType
  else if tag = "DW_TAG_class_type" then some .classType
  else if tag = "DW_TAG_union_type" then some .unionType
  else none

namespace Die

/-- The value of an enumerator: 64 bits wide, signed where it is negative. -/
def enumeratorValue? (d : Die) : Except VariantError (Option Variant) :=
  match d.attribute? "DW_AT_const_value" with
  | some ⟨_, .number n⟩ => (Variant.make (if n < 0 then .i64 else .u64) n).map some
  | _ => .ok none

end Die

namespace DebugInfo

/-- The type under an enumeration: the one it refers to, or the unsigned one of its size. -/
def enumSubtype (info : DebugInfo) (d : Die) : Except ReadError Ty :=
  if d.has "DW_AT_type" then info.referencedType d
  else .ok (.base (((d.constant? "DW_AT_byte_size").bind BaseKind.unsigned?).getD .void))

/-- Put an entry's enumerator into the fields of an enumeration; other entries, and enumerators
without a constant value, have none. -/
def addEnumerator (fields : Table Variant) (d : Die) : Except CollectError (Table Variant) :=
  if d.tag = "DW_TAG_enumerator" then
    match d.enumeratorValue? with
    | .error e => .error (.variant e)
    | .ok none => .ok fields
    | .ok (some v) =>
      .ok (fields.insert (d.name?.getD ("__unnamed_" ++ Text.hex fields.size)) v)
  else .ok fields

/-- Put an entry's member into the fields of a structure; other entries have none. -/
def addMember (info : DebugInfo) (fields : Table Member) (d : Die) :
    Except CollectError (Table Member) :=
  if d.tag = "DW_TAG_member" then
    match info.memberLayout d with
    | .error e => .error (.read e)
    | .ok (offset, type) =>
      .ok (fields.insert (d.name?.getD ("__unnamed_field_" ++ Text.hex fields.size))
        ⟨offset, type⟩)
  else .ok fields

/-- Work through the entries below an entry, then fail if their listing broke off. -/
def foldChildren {α : Type} (info : DebugInfo) (step : α → Die → Except CollectError α) (start : α)
    (d : Die) : Except CollectError α := do
  let (dies, fault) := info.children d
  let result ← dies.foldlM step start
  match fault with
  | none => return result
  | some e => throw (.read e)

/-- The definition of an enumeration. -/
def enumDef (info : DebugInfo) (d : Die) : Except CollectError EnumDef := do
  let subtype ← (info.enumSubtype d).mapError .read
  return ⟨subtype, ← info.foldChildren addEnumerator .empty d⟩

/-- The definition of an aggregate. -/
def structDef (info : DebugInfo) (kind : StructKind) (d : Die) : Except CollectError StructDef := do
  let fields ← info.foldChildren info.addMember .empty d
  return ⟨kind, (d.constant? "DW_AT_byte_size").getD 0, fields⟩

end DebugInfo

/-- What was collected, and what has to be known to go on: the claimed sites, the line tables found,
and how many definitions were worked on and passed over. -/
structure Collector where
  types : TypeCollection := {}
  claims : Claims := {}
  lineTables : LineTables := []
  processed : Nat := 0
  skipped : Nat := 0

namespace Collector

/-- Register the definition of an entry. -/
def define (info : DebugInfo) (s : Collector) (d : Die) : Except CollectError TypeCollection :=
  match structKind? d.tag with
  | some kind => do
    let definition ← info.structDef kind d
    return { s.types with
      structs := (s.types.structs.register (·.fields.size) d.typeName definition).1 }
  | none => do
    let definition ← info.enumDef d
    return { s.types with
      enums := (s.types.enums.register (·.fields.size) d.typeName definition).1 }

/-- Whether an entry defines a type: an aggregate or enumeration that is no mere declaration. -/
def defines (d : Die) : Bool :=
  (d.tag = enumTag || isAggregateTag d.tag) && !d.isDeclaration

/-- Take up one top-level entry. Its site stays claimed also where its definition fails. -/
def addDie (info : DebugInfo) (s : Collector) (d : Die) : Collector × Option CollectError :=
  if defines d then
    match info.site s.lineTables d with
    | .error e => (s, some (.read e))
    | .ok (site, lineTables) =>
      let (admitted, claims) := s.claims.admit? site
      if admitted then
        let s := { s with lineTables, claims, processed := s.processed + 1 }
        match s.define info d with
        | .ok types => ({ s with types }, none)
        | .error e => (s, some e)
      else ({ s with lineTables, claims, skipped := s.skipped + 1 }, none)
  else (s, none)

/-- Take up entries in order until one fails. -/
def addDies (info : DebugInfo) (s : Collector) : List Die → Collector × Option CollectError
  | [] => (s, none)
  | d :: rest =>
    match s.addDie info d with
    | (s, none) => addDies info s rest
    | (s, some e) => (s, some e)

/-- Take up the top-level entries of a unit, whose listing may break off. -/
def addUnit (info : DebugInfo) (s : Collector) (top : List Die × Option ReadError) :
    Collector × Option CollectError :=
  match s.addDies info top.1 with
  | (s, some e) => (s, some e)
  | (s, none) => (s, top.2.map .read)

end Collector
end KernelProfile.Dwarf
