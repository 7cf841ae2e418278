import KernelProfile.Dwarf.Collect
import KernelProfile.Proofs.Except

/-! Enumerators of an entry's definition. The entries below that are enumerators with a number for a
value are put in one after the other, and all others are passed over; a definition can be built
exactly if each of these numbers lies in the range of 64 bits, signed or not. -/
namespace KernelProfile

/-- The kind of an enumerator's number. -/
def wordKind (n : Int) : VariantKind := if n < 0 then .i64 else .u64

/-- A number of 64 bits, signed where it is negative. -/
def FitsWord (n : Int) : Prop := -2 ^ 63 ≤ n ∧ n < 2 ^ 64

instance (n : Int) : Decidable (FitsWord n) :=
  inferInstanceAs (Decidable (-2 ^ 63 ≤ n ∧ n < 2 ^ 64))

theorem holds_wordKind (n : Int) : (wordKind n).holds n = true ↔ FitsWord n := by
  unfold wordKind FitsWord
  split
  all_goals
    simp [VariantKind.holds, VariantKind.least, VariantKind.greatest, VariantKind.isSigned,
      VariantKind.bits]
    omega

namespace Dwarf

namespace Die

/-- The number that an enumerator has for a value. -/
def number? (d : Die) : Option Int :=
  match d.attribute? "DW_AT_const_value" with
  | some ⟨_, .number n⟩ => some n
  | _ => none

theorem enumeratorValue?_eq (d : Die) : d.enumeratorValue? =
    match d.number? with
    | none => .ok none
    | some n => (Variant.make (wordKind n) n).map some := by
  unfold enumeratorValue? number?
  cases d.attribute? "DW_AT_const_value" with
  | none => rfl
  | some a =>
    obtain ⟨form, value⟩ := a
    cases value <;> rfl

end Die

namespace DebugInfo

variable {info : DebugInfo} {d : Die} {dies : List Die} {fields : Table Variant}

/-- The enumerators with a number among some entries, each with its name and its number. -/
def numbered (dies : List Die) : List (Option String × Int) :=
  dies.filterMap fun d =>
    if d.tag = "DW_TAG_enumerator" then d.number?.map fun n => (d.name?, n) else none

/-- Put an enumerator under its name, or under one made of the number of fields. -/
def putEnumerator (fields : Table Variant) (e : Option String × Int) :
    Except CollectError (Table Variant) :=
  match Variant.make (wordKind e.2) e.2 with
  | .ok v => .ok (fields.insert (e.1.getD ("__unnamed_" ++ Text.hex fields.size)) v)
  | .error err => .error (.variant err)

/-- What has no number is passed over, wherever it stands. -/
theorem foldlM_addEnumerator (dies : List Die) (fields : Table Variant) :
    dies.foldlM addEnumerator fields = (numbered dies).foldlM putEnumerator fields := by
  induction dies generalizing fields with
  | nil => rfl
  | cons d rest ih =>
    rw [List.foldlM_cons, numbered, List.filterMap_cons]
    by_cases htag : d.tag = "DW_TAG_enumerator"
    · cases hn : d.number? with
      | none =>
        have hstep : addEnumerator fields d = .ok fields := by
          simp [addEnumerator, htag, d.enumeratorValue?_eq, hn]
        rw [hstep]
        simp only [htag, if_true, Option.map_none]
        exact ih fields
      | some n =>
        have hstep : addEnumerator fields d = putEnumerator fields (d.name?, n) := by
          simp only [addEnumerator, putEnumerator, htag, if_true, d.enumeratorValue?_eq, hn]
          cases Variant.make (wordKind n) n <;> rfl
        rw [hstep]
        simp only [htag, if_true, Option.map_some, List.foldlM_cons]
        cases putEnumerator fields (d.name?, n) with
        | error e => rfl
        | ok fields => exact ih fields
    · have hstep : addEnumerator fields d = .ok fields := by simp [addEnumerator, htag]
      rw [hstep]
      simp only [htag, if_false]
      exact ih fields

theorem exists_putEnumerator_ok (fields : Table Variant) (e : Option String × Int) :
    (∃ fields', putEnumerator fields e = .ok fields') ↔ FitsWord e.2 := by
  rw [← holds_wordKind]
  unfold putEnumerator Variant.make
  by_cases h : (wordKind e.2).holds e.2 = true <;> simp [h]

/-- A number that is refused is named, with the kind that does not hold it. -/
theorem putEnumerator_fails (fields : Table Variant) (e : Option String × Int) :
    FailsOnly (fun err => ¬ FitsWord e.2 ∧ err = .variant (.outOfRange e.2 (wordKind e.2)))
      (putEnumerator fields e) := by
  intro err h
  have hfits : ¬ FitsWord e.2 := by
    rw [← exists_putEnumerator_ok fields e, h]
    rintro ⟨fields', hfields'⟩
    cases hfields'
  unfold putEnumerator Variant.make at h
  rw [dif_neg (mt (holds_wordKind e.2).mp hfits)] at h
  cases h
  exact ⟨hfits, rfl⟩

/-- Every enumerator with a number below an entry has one of 64 bits. -/
def NumbersFit (dies : List Die) : Prop := ∀ e ∈ numbered dies, FitsWord e.2

instance (dies : List Die) : Decidable (NumbersFit dies) :=
  inferInstanceAs (Decidable (∀ e ∈ numbered dies, FitsWord e.2))

/-- The definition of an enumeration is its enumerators with a number over its subtype. -/
theorem enumDef_eq_ok {x : EnumDef} (hchildren : info.children d = (dies, none)) :
    info.enumDef d = .ok x ↔ ∃ subtype fields, info.enumSubtype d = .ok subtype ∧
      (numbered dies).foldlM putEnumerator .empty = .ok fields ∧ x = ⟨subtype, fields⟩ := by
  unfold enumDef foldChildren
  simp only [hchildren, bind_eq_ok, mapError_eq_ok, foldlM_addEnumerator]
  constructor
  · rintro ⟨subtype, hsubtype, fields, ⟨_, hfields, hresult⟩, hx⟩
    cases hresult
    cases hx
    exact ⟨subtype, fields, hsubtype, hfields, rfl⟩
  · rintro ⟨subtype, fields, hsubtype, hfields, rfl⟩
    exact ⟨subtype, hsubtype, fields, ⟨fields, hfields, rfl⟩, rfl⟩

/-- Where entries can be read, an error names a number that does not fit. -/
theorem enumDef_fails {subtype : Ty} (hchildren : info.children d = (dies, none))
    (hsubtype : info.enumSubtype d = .ok subtype) :
    FailsOnly (fun err => ∃ e ∈ numbered dies,
      ¬ FitsWord e.2 ∧ err = .variant (.outOfRange e.2 (wordKind e.2))) (info.enumDef d) := by
  unfold enumDef foldChildren
  simp only [hsubtype, hchildren, foldlM_addEnumerator]
  have hfold := FailsOnly.foldlM
    (P := fun err => ∃ e ∈ numbered dies,
      ¬ FitsWord e.2 ∧ err = .variant (.outOfRange e.2 (wordKind e.2)))
    (fun e he fields err herr => ⟨e, he, putEnumerator_fails fields e err herr⟩) Table.empty
  exact FailsOnly.bind (.ok _) fun _ _ =>
    (hfold.bind fun _ _ => .ok _).bind fun _ _ => .ok _

end DebugInfo
end Dwarf
end KernelProfile
