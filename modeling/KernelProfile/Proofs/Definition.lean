import KernelProfile.Proofs.Merge

/-! Definitions of both namespaces in one collection. A definition covers another of its namespace
that has no more fields; a collection keeps a definition if under its name one stands that covers
it. Registering a definition makes it kept, and what is kept stays kept; a definition that is kept
already changes nothing. -/
namespace KernelProfile

/-- A definition of one of the two namespaces. -/
inductive Definition where
  | enumeration (e : EnumDef)
  | aggregate (s : StructDef)
  deriving DecidableEq

namespace Definition

/-- A definition is of the same namespace as another one and has at least as many fields. -/
def Covers : Definition → Definition → Prop
  | .enumeration e, .enumeration e' => e'.fields.size ≤ e.fields.size
  | .aggregate s, .aggregate s' => s'.fields.size ≤ s.fields.size
  | _, _ => False

instance : (x y : Definition) → Decidable (x.Covers y)
  | .enumeration e, .enumeration e' => inferInstanceAs (Decidable (e'.fields.size ≤ e.fields.size))
  | .aggregate s, .aggregate s' => inferInstanceAs (Decidable (s'.fields.size ≤ s.fields.size))
  | .enumeration _, .aggregate _ => .isFalse id
  | .aggregate _, .enumeration _ => .isFalse id

theorem Covers.refl (x : Definition) : x.Covers x := by
  cases x with
  | enumeration e => exact Nat.le_refl _
  | aggregate s => exact Nat.le_refl _

theorem Covers.trans {x y z : Definition} (hxy : x.Covers y) (hyz : y.Covers z) : x.Covers z := by
  cases x with
  | enumeration e =>
    cases y with
    | enumeration e' =>
      cases z with
      | enumeration e'' => exact Nat.le_trans hyz hxy
      | aggregate s => exact hyz
    | aggregate s => exact absurd hxy id
  | aggregate s =>
    cases y with
    | enumeration e => exact absurd hxy id
    | aggregate s' =>
      cases z with
      | enumeration e => exact hyz
      | aggregate s'' => exact Nat.le_trans hyz hxy

end Definition

namespace TypeCollection

open Definition

/-- Register a definition in its namespace. -/
def register (types : TypeCollection) (name : String) : Definition → TypeCollection
  | .enumeration e => { types with enums := (types.enums.register (·.fields.size) name e).1 }
  | .aggregate s => { types with structs := (types.structs.register (·.fields.size) name s).1 }

/-- A definition stands under a name of its namespace. -/
def Holds (types : TypeCollection) (name : String) : Definition → Prop
  | .enumeration e => types.enums.get? name = some e
  | .aggregate s => types.structs.get? name = some s

/-- Under the name of a definition stands one that covers it. -/
def Keeps (types : TypeCollection) (name : String) (x : Definition) : Prop :=
  ∃ y, types.Holds name y ∧ y.Covers x

variable {types : TypeCollection} {name other : String} {x y : Definition}

theorem keeps_enumeration {e : EnumDef} : types.Keeps name (.enumeration e) ↔
    ∃ e', types.enums.get? name = some e' ∧ e.fields.size ≤ e'.fields.size := by
  constructor
  · rintro ⟨y, hy, hcov⟩
    cases y with
    | enumeration e' => exact ⟨e', hy, hcov⟩
    | aggregate s => exact absurd hcov id
  · rintro ⟨e', he, hle⟩
    exact ⟨.enumeration e', he, hle⟩

theorem keeps_aggregate {s : StructDef} : types.Keeps name (.aggregate s) ↔
    ∃ s', types.structs.get? name = some s' ∧ s.fields.size ≤ s'.fields.size := by
  constructor
  · rintro ⟨y, hy, hcov⟩
    cases y with
    | enumeration e => exact absurd hcov id
    | aggregate s' => exact ⟨s', hy, hcov⟩
  · rintro ⟨s', hs, hle⟩
    exact ⟨.aggregate s', hs, hle⟩

instance : (x : Definition) → Decidable (types.Keeps name x)
  | .enumeration e => decidable_of_iff
      ((types.enums.get? name).any fun e' => decide (e.fields.size ≤ e'.fields.size)) (by
        simp [keeps_enumeration, Option.any_eq_true])
  | .aggregate s => decidable_of_iff
      ((types.structs.get? name).any fun s' => decide (s.fields.size ≤ s'.fields.size)) (by
        simp [keeps_aggregate, Option.any_eq_true])

/-- A registered definition is kept. -/
theorem keeps_register_self (types : TypeCollection) (name : String) (x : Definition) :
    (types.register name x).Keeps name x := by
  cases x with
  | enumeration e => exact keeps_enumeration.mpr (Table.exists_get?_register _ _ _ _)
  | aggregate s => exact keeps_aggregate.mpr (Table.exists_get?_register _ _ _ _)

/-- What is kept stays kept, whatever is registered. -/
theorem Keeps.register (h : types.Keeps name x) (other : String) (y : Definition) :
    (types.register other y).Keeps name x := by
  cases x with
  | enumeration e =>
    obtain ⟨e', he, hle⟩ := keeps_enumeration.mp h
    rw [keeps_enumeration]
    cases y with
    | enumeration e₀ =>
      obtain ⟨e'', he', hle'⟩ := Table.le_get?_register (·.fields.size) types.enums other e₀ he
      exact ⟨e'', he', Nat.le_trans hle hle'⟩
    | aggregate s₀ => exact ⟨e', he, hle⟩
  | aggregate s =>
    obtain ⟨s', hs, hle⟩ := keeps_aggregate.mp h
    rw [keeps_aggregate]
    cases y with
    | enumeration e₀ => exact ⟨s', hs, hle⟩
    | aggregate s₀ =>
      obtain ⟨s'', hs', hle'⟩ := Table.le_get?_register (·.fields.size) types.structs other s₀ hs
      exact ⟨s'', hs', Nat.le_trans hle hle'⟩

/-- Registering what is kept already changes nothing. -/
theorem register_of_keeps (h : types.Keeps name x) : types.register name x = types := by
  cases x with
  | enumeration e =>
    obtain ⟨e', he, hle⟩ := keeps_enumeration.mp h
    simp only [TypeCollection.register, Table.register_of_le (·.fields.size) he hle]
  | aggregate s =>
    obtain ⟨s', hs, hle⟩ := keeps_aggregate.mp h
    simp only [TypeCollection.register, Table.register_of_le (·.fields.size) hs hle]

theorem holds_register_cases (h : (types.register name x).Holds other y) :
    (other = name ∧ y = x) ∨ types.Holds other y := by
  cases x with
  | enumeration e =>
    cases y with
    | enumeration e' =>
      exact (Table.get?_register_cases _ h).imp_left fun h => ⟨h.1, congrArg _ h.2⟩
    | aggregate s => exact .inr h
  | aggregate s =>
    cases y with
    | enumeration e => exact .inr h
    | aggregate s' =>
      exact (Table.get?_register_cases _ h).imp_left fun h => ⟨h.1, congrArg _ h.2⟩

/-- What is kept after a definition was registered is covered by it or was kept before. -/
theorem keeps_register : (types.register name x).Keeps other y ↔
    (name = other ∧ x.Covers y) ∨ types.Keeps other y := by
  constructor
  · rintro ⟨z, hz, hcov⟩
    rcases holds_register_cases hz with ⟨rfl, rfl⟩ | hz
    · exact .inl ⟨rfl, hcov⟩
    · exact .inr ⟨z, hz, hcov⟩
  · rintro (⟨rfl, hcov⟩ | h)
    · obtain ⟨z, hz, hzx⟩ := keeps_register_self types name x
      exact ⟨z, hz, hzx.trans hcov⟩
    · exact h.register name x

end TypeCollection
end KernelProfile
