import KernelProfile.Proofs.CodeView.BitField
import KernelProfile.Proofs.CodeView.Forward

/-! Array fields of aggregates. The elements of an array are counted with the size of the first
definition of their name, while the profile keeps the first definition with the most fields. Where
a name has definitions of several sizes, the extent of a field need not go with the size that the
profile gives for its elements. -/
namespace KernelProfile.Profile

theorem typeSize_structRef (p : Profile) (name : String) :
    p.typeSize (.structRef name) = (p.findStruct? name).map StructDef.size := by
  simp only [typeSize, sizeWithin]

end KernelProfile.Profile

namespace KernelProfile.CodeView

variable {t : RecordTable} {pointerSize : Int} {c : Context} {s : Collected} {name : String}

/-- The member of an array is where it is declared. -/
theorem Context.memberAt_array {type : Int} (offset : Int) {layout : List Int × Ty}
    (h : c.translate type = arrayOf layout) :
    c.memberAt type offset = ⟨offset, arrayOf layout⟩ := by
  unfold memberAt
  rw [h]
  rfl

/-- The profile gives for a name the size of the first definition with the most fields. -/
theorem exists_typeSize (hc : t.context pointerSize = .ok c) (hs : t.collect pointerSize = .ok s)
    {p : Profile} (htypes : p.types = s.types) (hne : collectedUnder name t.listing.1 ≠ []) :
    ∃ kept, Table.FirstLargest (fun e => (c.fieldsOf e.2).size)
        (collectedUnder name t.listing.1) kept ∧
      p.typeSize (.structRef name) = some kept.2.size := by
  obtain ⟨kept, hkept⟩ : ∃ kept, Table.FirstLargest (fun e => (c.fieldsOf e.2).size)
      (collectedUnder name t.listing.1) kept := Table.exists_firstLargest hne
  have hget : p.findStruct? name = some (c.definitionOf kept.2) := by
    rw [Profile.findStruct?, htypes, RecordTable.get?_collect hc hs]
    exact ⟨kept, hkept, rfl⟩
  refine ⟨kept, hkept, ?_⟩
  rw [Profile.typeSize_structRef, hget]
  rfl

open Context

/-- **Two rules choose among the definitions of a name.** Every member of a kept definition that is
an array around a forward declaration of a defined name is a field whose extent is counted with the
size of the first definition of the name. The size that the profile gives for the elements is that
of the first definition with the most fields, among those that are collected under the name. So the
extent is the one of the profile's size exactly if both sizes go into the array as often, and in any
case where all these definitions are of one size. -/
theorem arrayField_count {owner : Int} {r : AggregateRecord}
    (hkeeps : t.Keeps pointerSize owner r c s) {p : Profile} (htypes : p.types = s.types)
    {before after : List FieldEntry} {attributes type offset : Int} {field : String}
    (hentries : c.fieldEntries r.fields =
      before ++ .member attributes type offset field :: after)
    (hlast : IsDeclared field →
      ∀ attributes type offset, .member attributes type offset field ∉ after)
    {x : ArrayRecord} {f : Int} (hx : c.ArrayOf .innermost x type f) {e : AggregateRecord}
    (he : c.record? f = some (.aggregate e)) (hforward : e.isForward = true)
    (hname : isMadeUp e.name = false) {first : Int × AggregateRecord}
    (hfirst : (definitions e.name t.listing.1).head? = some first) :
    ∃ d kept,
      p.findStruct? (profileName r.name owner) = some d ∧
      d.fields.get? (memberName field (before.foldl c.addMember .empty).size) =
        some ⟨offset, .array (.structRef e.name) [countOf x.byteSize first.2.size]
          (countOf x.byteSize first.2.size)⟩ ∧
      p.typeSize (.structRef e.name) = some kept.2.size ∧
      Table.FirstLargest (fun e => (c.fieldsOf e.2).size)
        (collectedUnder e.name t.listing.1) kept ∧
      ((∀ e' ∈ collectedUnder e.name t.listing.1, e'.2.size = first.2.size) →
        countOf x.byteSize first.2.size = countOf x.byteSize kept.2.size) := by
  obtain ⟨d, hd, hstructs⟩ := hkeeps.kept
  have hstruct : p.findStruct? (profileName r.name owner) = some d := by
    rw [Profile.findStruct?, htypes]
    exact hstructs
  -- the field, with the extent that its array has
  have hextent : c.extent x = countOf x.byteSize first.2.size := by
    rw [hx.extent_forward hkeeps.context he hforward, hfirst]
    rfl
  have htype : c.translate type =
      arrayOf ([countOf x.byteSize first.2.size], .structRef e.name) := by
    rw [hx.translate_aggregate he, profileName_declared hname, hextent]
    rfl
  have hfield := get?_member (c := c) hentries hlast
  rw [← structDef_fields hd, memberAt_array offset htype, arrayOf_single] at hfield
  -- the definition that the profile keeps under the name of the elements
  have hmem : first ∈ collectedUnder e.name t.listing.1 :=
    definitions_subset_collectedUnder hname (List.mem_of_mem_head? hfirst)
  obtain ⟨kept, hkept, hsize⟩ :=
    exists_typeSize hkeeps.context hkeeps.collected htypes (List.ne_nil_of_mem hmem)
  refine ⟨d, kept, hstruct, hfield, hsize, hkept, fun hsame => ?_⟩
  rw [hsame kept hkept.largest.1]

/-- Records of an entry that is declared ahead and then defined twice, with one field and with two,
and of a table of entries. -/
def entryTable : RecordTable where
  rows := [
    (0x1000, .ok (.aggregate ⟨0x1505, 0, 0x80, 0, 0, "_ENTRY"⟩)),
    (0x1001, .ok (.fieldList ⟨[.member 3 0x74 0 "Flags"], none⟩)),
    (0x1002, .ok (.aggregate ⟨0x1505, 0, 0, 0x1001, 4, "_ENTRY"⟩)),
    (0x1003, .ok (.fieldList ⟨[.member 3 0x74 0 "Flags", .member 3 0x74 4 "Owner"], none⟩)),
    (0x1004, .ok (.aggregate ⟨0x1505, 0, 0, 0x1003, 8, "_ENTRY"⟩)),
    (0x1005, .ok (.array ⟨0x1000, 0x23, 32, ""⟩)),
    (0x1006, .ok (.fieldList ⟨[.member 3 0x1005 0 "Entries"], none⟩)),
    (0x1007, .ok (.aggregate ⟨0x1505, 0, 0, 0x1006, 32, "_TABLE"⟩))]

def entryContext : Context := ⟨entryTable, 8, .ofList [("_ENTRY", 4), ("_TABLE", 32)]⟩

def entryDef : StructDef where
  kind := .structType
  size := 8
  fields := .ofList [("Flags", ⟨0, .base .i32⟩), ("Owner", ⟨4, .base .i32⟩)]

def tableDef : StructDef where
  kind := .structType
  size := 32
  fields := .ofList [("Entries", ⟨0, .array (.structRef "_ENTRY") [8] 8⟩)]

def entryProfile : Profile where
  architecture := .amd64
  types := { structs := .ofList [("_ENTRY", entryDef), ("_TABLE", tableDef)] }

theorem entryTable_keeps :
    entryTable.Keeps 8 0x1007 ⟨0x1505, 0, 0, 0x1006, 32, "_TABLE"⟩ entryContext
      ⟨entryProfile.types, 3⟩ :=
  ⟨by with_unfolding_all rfl, by with_unfolding_all rfl, by decide, rfl, tableDef,
    by with_unfolding_all rfl, rfl⟩

/-- The entries of the table are counted with the first definition's four bytes. -/
theorem entries_counted :
    entryTable.Keeps 8 0x1007 ⟨0x1505, 0, 0, 0x1006, 32, "_TABLE"⟩ entryContext
        ⟨entryProfile.types, 3⟩ ∧
      ∃ d kept,
        entryProfile.findStruct? "_TABLE" = some d ∧
        d.fields.get? "Entries" = some ⟨0, .array (.structRef "_ENTRY") [8] 8⟩ ∧
        entryProfile.typeSize (.structRef "_ENTRY") = some kept.2.size ∧
        Table.FirstLargest (fun e => (entryContext.fieldsOf e.2).size)
          (collectedUnder "_ENTRY" entryTable.listing.1) kept := by
  have hentries : entryContext.fieldEntries 0x1006 = [] ++ .member 3 0x1005 0 "Entries" :: [] :=
    rfl
  have harray : entryContext.ArrayOf .innermost ⟨0x1000, 0x23, 32, ""⟩ 0x1005 0x1000 :=
    ⟨1, 0, .innermost rfl, .refl _, by decide⟩
  have hfirst : (definitions "_ENTRY" entryTable.listing.1).head? =
      some (0x1002, ⟨0x1505, 0, 0, 0x1001, 4, "_ENTRY"⟩) := by decide
  obtain ⟨d, kept, hd, hfield, hsize, hkept, -⟩ := arrayField_count entryTable_keeps
    (p := entryProfile) rfl hentries (by simp) harray
    (e := ⟨0x1505, 0, 0x80, 0, 0, "_ENTRY"⟩) rfl rfl (by decide) hfirst
  exact ⟨entryTable_keeps, d, kept, hd, hfield, hsize, hkept⟩

/-- The profile gives eight bytes for an entry, so that four entries go into the table and not the
eight that its field has. -/
theorem entries_miscounted :
    entryTable.Keeps 8 0x1007 ⟨0x1505, 0, 0, 0x1006, 32, "_TABLE"⟩ entryContext
        ⟨entryProfile.types, 3⟩ ∧
      entryContext.fieldEntries 0x1006 = [.member 3 0x1005 0 "Entries"] ∧
      entryContext.record? 0x1005 = some (.array ⟨0x1000, 0x23, 32, ""⟩) ∧
      entryContext.record? 0x1000 = some (.aggregate ⟨0x1505, 0, 0x80, 0, 0, "_ENTRY"⟩) ∧
      isMadeUp "_ENTRY" = false ∧
      (entryProfile.findStruct? "_TABLE").bind (·.fields.get? "Entries") =
        some ⟨0, .array (.structRef "_ENTRY") [8] 8⟩ ∧
      entryProfile.typeSize (.structRef "_ENTRY") = some 8 ∧ (8 : Int) ≠ countOf 32 8 := by
  have hsize : entryProfile.typeSize (.structRef "_ENTRY") = some 8 := by
    rw [Profile.typeSize_structRef]
    rfl
  exact ⟨entryTable_keeps, rfl, rfl, rfl, by decide, rfl, hsize, by decide⟩

end KernelProfile.CodeView
