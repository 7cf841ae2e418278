import KernelProfile.Dwarf.Collect
import KernelProfile.Proofs.Definition
import KernelProfile.Proofs.Except

/-! The definition that an entry gives by itself. Neither what was collected nor which sites are
claimed plays a part in it, so that working on an entry is building its definition and then
registering it under the name of its type. -/
namespace KernelProfile.Dwarf

namespace DebugInfo

/-- The definition of an entry, if it can be built. -/
def definition? (info : DebugInfo) (d : Die) : Option Definition :=
  match structKind? d.tag with
  | some kind => (info.structDef kind d).toOption.map .aggregate
  | none => (info.enumDef d).toOption.map .enumeration

end DebugInfo

namespace Collector

variable {info : DebugInfo} {s : Collector} {d : Die}

theorem define_eq_ok {types : TypeCollection} : s.define info d = .ok types ↔
    ∃ x, info.definition? d = some x ∧ s.types.register d.typeName x = types := by
  unfold define DebugInfo.definition?
  cases structKind? d.tag with
  | some kind =>
    dsimp only
    cases info.structDef kind d with
    | error e => simp [bind, Except.bind, Except.toOption]
    | ok x => simp [bind, Except.bind, Except.toOption, pure, Except.pure, TypeCollection.register]
  | none =>
    dsimp only
    cases info.enumDef d with
    | error e => simp [bind, Except.bind, Except.toOption]
    | ok x => simp [bind, Except.bind, Except.toOption, pure, Except.pure, TypeCollection.register]

theorem exists_define : (∃ types, s.define info d = .ok types) ↔
    ∃ x, info.definition? d = some x := by
  constructor
  · rintro ⟨types, h⟩
    obtain ⟨x, hx, -⟩ := define_eq_ok.mp h
    exact ⟨x, hx⟩
  · rintro ⟨x, hx⟩
    exact ⟨_, define_eq_ok.mpr ⟨x, hx, rfl⟩⟩

/-- Working on a definition keeps what was kept, and its own definition besides. -/
theorem define_keeps {types : TypeCollection} (h : s.define info d = .ok types) (name : String)
    (x : Definition) : types.Keeps name x ↔
      (∃ y, info.definition? d = some y ∧ d.typeName = name ∧ y.Covers x) ∨
        s.types.Keeps name x := by
  obtain ⟨y, hy, rfl⟩ := define_eq_ok.mp h
  rw [TypeCollection.keeps_register, hy]
  simp only [Option.some.injEq, exists_eq_left']

end Collector
end KernelProfile.Dwarf
