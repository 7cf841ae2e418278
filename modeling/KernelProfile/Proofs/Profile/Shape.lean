import KernelProfile.Proofs.Profile.Draft
import KernelProfile.Proofs.Variant

/-! Shapes of documents. A shape tells which keys of an object are recognised, in which order they
are written, and what stands under them. Every value has a normal form of a shape: only recognised
keys are left, in their order, maps from names keep theirs, and an enumerator that is a bare number
is written out with the narrowest kind that holds it. -/
namespace KernelProfile

/-- What stands in a place of a document. -/
inductive Shape where
  | any
  | text
  | number
  | numbers
  | type
  | enumerator
  | names (entry : Shape)
  | record (fields : List (String × Shape))

namespace Shape

/-- The recognised keys of a type document with a certain tag. -/
def typeFields : Json → List (String × Shape)
  | .str "base" => [("kind", any), ("subkind", any)]
  | .str "enum" => [("kind", any), ("name", text)]
  | .str "struct" => [("kind", any), ("name", text)]
  | .str "array" => [("kind", any), ("subtype", type), ("dims", numbers), ("size", number)]
  | .str "pointer" => [("kind", any), ("subtype", type)]
  | .str "bitfield" =>
    [("kind", any), ("subtype", type), ("bit_length", number), ("bit_position", number)]
  | .str "function" => [("kind", any)]
  | _ => []

/-- The recognised keys of an object, in the order in which they are written. -/
def fields? (shape : Shape) (members : List (String × Json)) : Option (List (String × Shape)) :=
  match shape with
  | record fields => some fields
  | type => (members.lookup "kind").map typeFields
  | enumerator => some [("kind", any), ("value", number)]
  | _ => none

mutual

/-- The normal form of a value. -/
def normal (shape : Shape) : Json → Json
  | .obj members =>
    match shape, shape.fields? members with
    | names entry, _ => .obj (normalEach entry members)
    | _, some fields =>
      .obj (fields.filterMap fun f => (normalAt f.1 f.2 members).map (f.1, ·))
    | _, none => .obj members
  | .int n =>
    match shape with
    | enumerator => .obj [("kind", .str (VariantKind.narrowest n).label), ("value", .int n)]
    | _ => .int n
  | v => v

/-- The normal form of the value under a key. -/
def normalAt (key : String) (shape : Shape) : List (String × Json) → Option Json
  | [] => none
  | (k, v) :: rest => if k = key then some (shape.normal v) else normalAt key shape rest

/-- The members of an object with their values in normal form. -/
def normalEach (entry : Shape) : List (String × Json) → List (String × Json)
  | [] => []
  | (k, v) :: rest => (k, entry.normal v) :: normalEach entry rest

end

/-- A value has the types of a shape: texts as names, integers as numbers, arrays of integers as
extents, and maps from names without a key that comes twice. Under keys that are not recognised
there may be anything. -/
inductive Fits : Shape → Json → Prop where
  | any {v} : Fits any v
  | text {s} : Fits text (.str s)
  | number {n} : Fits number (.int n)
  | numbers {ns : List Int} : Fits numbers (.arr (ns.map .int))
  | bare {n} : Fits enumerator (.int n)
  | names {entry members} (distinct : (members.map Prod.fst).Nodup)
      (each : ∀ e ∈ members, Fits entry e.2) : Fits (names entry) (.obj members)
  | object {shape members fields} (recognised : fields? shape members = some fields)
      (each : ∀ f ∈ fields, ∀ v, members.lookup f.1 = some v → Fits f.2 v) :
      Fits shape (.obj members)

@[simp] theorem normal_any (v : Json) : any.normal v = v := by
  cases v <;> rfl

@[simp] theorem normal_text (v : Json) : text.normal v = v := by
  cases v <;> rfl

@[simp] theorem normal_number (v : Json) : number.normal v = v := by
  cases v <;> rfl

@[simp] theorem normal_numbers (v : Json) : numbers.normal v = v := by
  cases v <;> rfl

@[simp] theorem normal_bare (n : Int) : enumerator.normal (.int n) =
    .obj [("kind", .str (VariantKind.narrowest n).label), ("value", .int n)] := rfl

theorem normalAt_eq (key : String) (shape : Shape) (members : List (String × Json)) :
    normalAt key shape members = (members.lookup key).map shape.normal := by
  induction members with
  | nil => rfl
  | cons e rest ih =>
    rw [normalAt, lookup_cons_ite, ih]
    by_cases h : e.1 = key
    · rw [if_pos h, if_pos h.symm, Option.map_some]
    · rw [if_neg h, if_neg (Ne.symm h)]

theorem normalEach_eq (entry : Shape) (members : List (String × Json)) :
    normalEach entry members = members.map fun e => (e.1, entry.normal e.2) := by
  induction members with
  | nil => rfl
  | cons e rest ih => rw [normalEach, ih, List.map_cons]

theorem normal_names (entry : Shape) (members : List (String × Json)) :
    (names entry).normal (.obj members) =
      .obj (members.map fun e => (e.1, entry.normal e.2)) := by
  rw [normal, normalEach_eq]

/-- The normal form of an object holds the recognised members and nothing else. -/
theorem normal_object {shape : Shape} {members : List (String × Json)}
    {fields : List (String × Shape)} (h : shape.fields? members = some fields) :
    shape.normal (.obj members) =
      .obj (fields.filterMap fun f => (members.lookup f.1).map fun v => (f.1, f.2.normal v)) := by
  cases shape with
  | record _ => simp only [normal, normalAt_eq, h, Option.map_map, Function.comp_def]
  | type => simp only [normal, normalAt_eq, h, Option.map_map, Function.comp_def]
  | enumerator => simp only [normal, normalAt_eq, h, Option.map_map, Function.comp_def]
  | _ => cases h

/-- What stands under a recognised key fits. -/
theorem Fits.member {shape : Shape} {members : List (String × Json)}
    {fields : List (String × Shape)} (h : shape.Fits (.obj members))
    (hfields : shape.fields? members = some fields) {key : String} {s : Shape}
    (hkey : (key, s) ∈ fields) {v : Json} (hv : members.lookup key = some v) : s.Fits v := by
  cases h with
  | any => cases hfields
  | names => cases hfields
  | object recognised each =>
    cases hfields.symm.trans recognised
    exact each (key, s) hkey v hv

end Shape
end KernelProfile
