import KernelProfile.CodeView.Translate
import KernelProfile.Definition
import KernelProfile.Registration

/-! Definitions of a stream of type records: every class, structure, interface, union and
enumeration that is no forward declaration. -/
namespace KernelProfile.CodeView

/-- Why no definitions are collected. -/
inductive CollectError where
  | record (e : RecordError)
  | notAnAggregate (leaf : Int)
  | variant (e : VariantError)
  deriving DecidableEq, Repr

def CollectError.message : CollectError → String
  | record e => e.message
  | notAnAggregate leaf => Text.decimal leaf
  | variant e => e.message

/-- How an aggregate of a leaf was declared. -/
def structKind? : Int → Option StructKind
  | 0x1504 => some .classType
  | 0x1505 => some .structType
  | 0x1519 => some .interfaceType
  | 0x1506 => some .unionType
  | _ => none

namespace Context

/-- The entries of a field list and of the lists that it goes on in. No list is entered twice, so
there are at most as many as there are records. -/
def fieldEntriesFrom (c : Context) : Nat → List Int → Option Int → List FieldEntry
  | 0, _, _ => []
  | _, _, none => []
  | lists + 1, visited, some index =>
    if index = 0 || index ∈ visited then []
    else
      match c.record? index with
      | some (.fieldList r) =>
        r.entries ++ fieldEntriesFrom c lists (index :: visited) r.continuation
      | _ => []

def fieldEntries (c : Context) (index : Int) : List FieldEntry :=
  c.fieldEntriesFrom (c.records.rows.length + 1) [] (some index)

/-- The type and offset of a member. A bit position of a byte or more moves the offset to the byte
that holds the first bit. -/
def memberAt (c : Context) (type offset : Int) : Member :=
  match c.translate type with
  | .bitfield underlying length position =>
    if 8 ≤ position then ⟨offset + position / 8, .bitfield underlying length (position % 8)⟩
    else ⟨offset, .bitfield underlying length position⟩
  | t => ⟨offset, t⟩

/-- The name of a member in a structure that has `count` fields so far: the declared one, or one
made of the count. -/
def memberName (name : String) (count : Nat) : String :=
  if name.isEmpty || isMadeUp name then "__unnamed_field_" ++ Text.hex count else name

/-- Put an entry's member into the fields of a structure; other entries have none. -/
def addMember (c : Context) (fields : Table Member) : FieldEntry → Table Member
  | .member _ type offset name =>
    fields.insert (memberName name fields.size) (c.memberAt type offset)
  | _ => fields

/-- The definition of an aggregate. -/
def structDef (c : Context) (r : AggregateRecord) : Except CollectError StructDef :=
  match structKind? r.leaf with
  | none => .error (.notAnAggregate r.leaf)
  | some kind => .ok ⟨kind, r.size, (c.fieldEntries r.fields).foldl c.addMember .empty⟩

/-- Put an entry's enumerator into the fields of an enumeration; other entries have none. -/
def addEnumerator (fields : Table Variant) :
    FieldEntry → Except CollectError (Table Variant)
  | .enumerator _ value label name =>
    match Variant.ofLabel label value with
    | .ok v => .ok (fields.insert name v)
    | .error e => .error (.variant e)
  | _ => .ok fields

/-- The definition of an enumeration. -/
def enumDef (c : Context) (r : EnumRecord) : Except CollectError EnumDef := do
  let fields ← (c.fieldEntries r.fields).foldlM addEnumerator .empty
  return ⟨c.translate r.underlying, fields⟩

end Context

/-- The definitions collected so far and how many records they came from. -/
structure Collected where
  types : TypeCollection := {}
  count : Nat := 0

/-- Register the definition of a record, if it defines something. -/
def Collected.add (c : Context) (s : Collected) (index : Int) :
    TypeRecord → Except CollectError Collected
  | .aggregate r => do
    if r.isForward then return s
    let d ← c.structDef r
    let (structs, _) := s.types.structs.register (·.fields.size) (profileName r.name index) d
    return ⟨{ s.types with structs }, s.count + 1⟩
  | .enumeration r => do
    if r.isForward then return s
    let d ← c.enumDef r
    let (enums, _) := s.types.enums.register (·.fields.size) (profileName r.name index) d
    return ⟨{ s.types with enums }, s.count + 1⟩
  | _ => .ok s

/-- The sizes of defined aggregates by declared name, the first definition's counting. -/
def definedSizes (records : List (Int × TypeRecord)) : Table Int :=
  records.foldl (fun sizes (_, record) =>
    match record with
    | .aggregate r =>
      if r.isForward || sizes.contains r.name then sizes else sizes.insert r.name r.size
    | _ => sizes) .empty

/-- All records of a table, if every one can be read. -/
def RecordTable.all (t : RecordTable) : Except CollectError (List (Int × TypeRecord)) :=
  match t.listing with
  | (records, none) => .ok records
  | (_, some e) => .error (.record e)

/-- The context in which the records of a table refer to each other. -/
def RecordTable.context (t : RecordTable) (pointerSize : Int) : Except CollectError Context := do
  return ⟨t, pointerSize, definedSizes (← t.all)⟩

/-- The definitions of a table of records. -/
def RecordTable.collect (t : RecordTable) (pointerSize : Int) : Except CollectError Collected := do
  let c ← t.context pointerSize
  (← t.all).foldlM (fun s (index, record) => s.add c index record) {}

end KernelProfile.CodeView
