import KernelProfile.Proofs.Dwarf.Closure

/-! Which definitions of a run over units are lost. A definition is kept if its name ends up with a
definition of the same namespace that has at least as many fields. The merge never loses one that
was registered; what a claimed site passes over is kept exactly if something that was registered
covers it. Copies of one definition do, but a macro can define two structures at one site, and a
header can define a structure with other members in another unit. -/
namespace KernelProfile.Dwarf

namespace Collector

/-- A definition at the top level of a unit whose call completes is kept exactly if a registered
one has its name and covers it. That is so whenever every definition that stands for it, which is
itself and those found at its site, can be built, has its name and covers it. -/
theorem keeps_iff_registers_covering (info : DebugInfo) (units : List Listing) {d : Die}
    {x : Definition} (hd : TopLevel info units d) (hx : info.definition? d = some x) :
    ((collected info units).Keeps d.typeName x ↔
      ∃ d', Registers info [] (found info units) d' ∧
        ∃ y, info.definition? d' = some y ∧ d'.typeName = d.typeName ∧ y.Covers x) ∧
    ((∀ d', StandsFor (found info units) d' d →
        ∃ y, info.definition? d' = some y ∧ d'.typeName = d.typeName ∧ y.Covers x) →
      (collected info units).Keeps d.typeName x) ∧
    (Registers info [] (found info units) d → (collected info units).Keeps d.typeName x) := by
  have hkeeps : (collected info units).Keeps d.typeName x ↔
      ∃ d', Registers info [] (found info units) d' ∧
        ∃ y, info.definition? d' = some y ∧ d'.typeName = d.typeName ∧ y.Covers x := by
    rw [collected, addUnits_eq_addAll, addAll_keeps]
    -- nothing is kept by the empty collection at the start
    refine or_iff_right ?_
    rintro ⟨y, hy, -⟩
    cases y with
    | enumeration e => simp [TypeCollection.Holds] at hy
    | aggregate s => simp [TypeCollection.Holds] at hy
  refine ⟨hkeeps, fun hstands => hkeeps.mpr ?_, fun hreg => hkeeps.mpr ?_⟩
  · obtain ⟨site, hfound⟩ := mem_found_of_topLevel hd
    have hdef : ∀ d', StandsFor (found info units) d' d → Definable info d' := by
      intro d' hd'
      obtain ⟨y, hy, -⟩ := hstands d' hd'
      exact definable_iff_definition?.mpr ⟨y, hy⟩
    obtain ⟨d', hd', hreg⟩ := exists_registers hfound hdef
    exact ⟨d', hreg, hstands d' hd'⟩
  · exact ⟨d, hreg, x, hx, rfl, .refl x⟩

end Collector

/-! ## Two structures of one macro, and a structure with members that depend on the unit -/

namespace Forest

/-- A structure of a name, declared at a line of the one file of its unit. -/
def structureAt (unit : Nat) (unitOffset offset : Int) (name : String) (line size : Int) : Die where
  unit
  unitOffset
  offset
  tag := "DW_TAG_structure_type"
  attributes := [("DW_AT_name", ⟨"DW_FORM_string", .text name⟩),
    ("DW_AT_byte_size", ⟨"DW_FORM_data1", .number size⟩),
    ("DW_AT_decl_file", ⟨"DW_FORM_data1", .number 1⟩),
    ("DW_AT_decl_line", ⟨"DW_FORM_data1", .number line⟩),
    ("DW_AT_decl_column", ⟨"DW_FORM_data1", .number 1⟩)]

/-- The type that the members of a unit have. -/
def intType (unit : Nat) (unitOffset : Int) : Tree :=
  .node ⟨unit, unitOffset, unitOffset + 8, "DW_TAG_base_type",
    [("DW_AT_name", ⟨"DW_FORM_string", .text "int"⟩),
      ("DW_AT_byte_size", ⟨"DW_FORM_data1", .number 4⟩),
      ("DW_AT_encoding", ⟨"DW_FORM_data1", .number 5⟩)]⟩ []

def intMember (unit : Nat) (unitOffset offset : Int) (name : String) (place : Int) : Tree :=
  .node ⟨unit, unitOffset, offset, "DW_TAG_member",
    [("DW_AT_name", ⟨"DW_FORM_string", .text name⟩),
      ("DW_AT_type", ⟨"DW_FORM_ref4", .number (unitOffset + 8)⟩),
      ("DW_AT_data_member_location", ⟨"DW_FORM_data1", .number place⟩)]⟩ []

/-- The first structure that a macro defines at its one site. -/
def rawEvent : Die := structureAt 0 0 16 "event_raw_wakeup" 12 4

/-- The second one. -/
def eventOffsets : Die := structureAt 0 0 32 "event_offsets_wakeup" 12 4

/-- A structure as the first unit sees it, with one member. -/
def narrowGroup : Die := structureAt 0 0 48 "task_group" 30 4

/-- The same structure as the second unit sees it, with two. -/
def wideGroup : Die := structureAt 1 256 272 "task_group" 30 8

/-- Two units that include one header. -/
def sharedHeader : Forest where
  littleEndian := true
  units :=
    let header : LineTable := ⟨4, [], [⟨.text "sched.h", 0⟩]⟩
    [⟨some header, [intType 0 0, .node rawEvent [intMember 0 0 24 "pid" 0],
        .node eventOffsets [intMember 0 0 40 "comm" 0],
        .node narrowGroup [intMember 0 0 56 "shares" 0]]⟩,
      ⟨some header, [intType 1 256,
        .node wideGroup [intMember 1 256 280 "shares" 0, intMember 1 256 288 "weight" 4]]⟩]

def intField : Member := ⟨0, .base .i32⟩

def eventOffsetsDef : StructDef := ⟨.structType, 4, .ofList [("comm", intField)]⟩

def wideGroupDef : StructDef :=
  ⟨.structType, 8, .ofList [("shares", intField), ("weight", ⟨4, .base .i32⟩)]⟩

open Collector

theorem topLevel_eventOffsets :
    TopLevel sharedHeader.info sharedHeader.listings eventOffsets := by
  refine ⟨rfl, [], (sharedHeader.listings.head (by decide)),
    sharedHeader.listings.tail, rfl, by decide, rfl⟩

theorem topLevel_wideGroup : TopLevel sharedHeader.info sharedHeader.listings wideGroup := by
  refine ⟨rfl, sharedHeader.listings.take 1,
    sharedHeader.listings.getLast (by decide), [], rfl, by decide, rfl⟩

theorem definition?_eventOffsets :
    sharedHeader.info.definition? eventOffsets = some (.aggregate eventOffsetsDef) := by
  rfl

theorem definition?_wideGroup :
    sharedHeader.info.definition? wideGroup = some (.aggregate wideGroupDef) := by
  rfl

/-- The second structure of the macro is at the top level and has a definition, and nothing that
was registered has its name. -/
theorem eventOffsets_not_covered :
    TopLevel sharedHeader.info sharedHeader.listings eventOffsets ∧
      sharedHeader.info.definition? eventOffsets = some (.aggregate eventOffsetsDef) ∧
      ¬ ∃ d', Registers sharedHeader.info [] (found sharedHeader.info sharedHeader.listings) d' ∧
        ∃ y, sharedHeader.info.definition? d' = some y ∧ d'.typeName = eventOffsets.typeName ∧
          y.Covers (.aggregate eventOffsetsDef) := by
  have hd := topLevel_eventOffsets
  have hx := definition?_eventOffsets
  refine ⟨hd, hx, ?_⟩
  rw [← (keeps_iff_registers_covering sharedHeader.info sharedHeader.listings hd hx).1]
  decide

/-- Two definitions with declared names are lost: the second one that a macro defines at its site,
whose name nothing bears in the end, and the larger of two of one name and one site. -/
theorem named_definitions_lost :
    (sharedHeader.entries.map fun e => e.1.offset).Nodup ∧
      TopLevel sharedHeader.info sharedHeader.listings eventOffsets ∧
      eventOffsets.name? = some "event_offsets_wakeup" ∧
      sharedHeader.info.definition? eventOffsets = some (.aggregate eventOffsetsDef) ∧
      (collected sharedHeader.info sharedHeader.listings).structs.get? "event_offsets_wakeup" =
        none ∧
      TopLevel sharedHeader.info sharedHeader.listings wideGroup ∧
      wideGroup.name? = some "task_group" ∧
      sharedHeader.info.definition? wideGroup = some (.aggregate wideGroupDef) ∧
      ¬ (collected sharedHeader.info sharedHeader.listings).Keeps "task_group"
        (.aggregate wideGroupDef) := by
  refine ⟨by decide, topLevel_eventOffsets, rfl, definition?_eventOffsets,
    rfl, topLevel_wideGroup, rfl, definition?_wideGroup, ?_⟩
  decide

end Forest
end KernelProfile.Dwarf
