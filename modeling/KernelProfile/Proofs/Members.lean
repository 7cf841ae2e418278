import KernelProfile.Proofs.CodeView.Member
import KernelProfile.Proofs.Dwarf.Loss
import KernelProfile.Proofs.Dwarf.Member

/-! Aggregates keep every member. Both formats put the members of an aggregate into one table, by
their names or by made ones, and both end with a field for each name and for each member without
one. In type records no name can be taken for a made one; debugging entries may declare any name,
and there it has to be assumed. -/
namespace KernelProfile

open Table (Apart Complete fieldCount fieldNumber)

/-- **No member is lost to a made name.** The definition of an aggregate record has the fields of
the members of its field list: one for every declared name and one for every member without one,
each made name new when it is made and never written again, each declared name at its first place
with its last member. So does the definition of a debugging entry over its member entries, when
none of them declares a name that is made; it can be built exactly if the entries are listed and
every member has a layout. -/
theorem structDef_keeps_members :
    (∀ (c : CodeView.Context) (r : CodeView.AggregateRecord) (kind : StructKind),
      CodeView.structKind? r.leaf = some kind →
      ∃ d, c.structDef r = .ok d ∧ d.kind = kind ∧ d.size = r.size ∧
        d.fields.Complete (c.members (c.fieldEntries r.fields)) ∧
        ∀ before after, c.fieldEntries r.fields = before ++ after →
          (before.foldl c.addMember .empty).keys =
            d.fields.keys.take (fieldCount (c.members before))) ∧
    (∀ (info : Dwarf.DebugInfo) (kind : StructKind) (d : Dwarf.Die),
      (∀ dies members, info.children d = (dies, none) → info.Members dies members →
        Apart members →
        ∃ s, info.structDef kind d = .ok s ∧ s.kind = kind ∧
          s.size = (d.constant? "DW_AT_byte_size").getD 0 ∧ s.fields.Complete members ∧
          ∀ before after, dies = before ++ after →
            ∃ first t, info.Members before first ∧ before.foldlM info.addMember .empty = .ok t ∧
              t.keys = s.fields.keys.take (fieldCount first)) ∧
      ∀ s, info.structDef kind d = .ok s →
        ∃ dies members, info.children d = (dies, none) ∧ info.Members dies members) := by
  refine ⟨fun c r kind hkind => CodeView.Context.structDef_complete hkind,
    fun info kind d => ⟨fun dies members hchildren hmembers hapart =>
      Dwarf.DebugInfo.structDef_complete hchildren hmembers hapart, fun s hs => ?_⟩⟩
  obtain ⟨dies, members, hchildren, hmembers, -⟩ := Dwarf.DebugInfo.structDef_eq_ok.mp hs
  exact ⟨dies, members, hchildren, hmembers⟩

/-! ## Two members without a name around a name that repeats -/

open CodeView (RecordTable FieldEntry)

/-- The entries of a structure with unions in it: the second one lost its name to a compiler. -/
def lockEntries : List FieldEntry :=
  [.member 3 0x75 0 "", .member 3 0x75 4 "Owner", .other 0x1510 (some "Vtbl"),
    .member 3 0x75 8 "Owner", .member 3 0x75 12 "<unnamed-tag>"]

def lockTable : RecordTable := ⟨[(0x1000, .ok (.fieldList ⟨lockEntries, none⟩))]⟩

namespace Dwarf.Forest

/-- A structure of a unit with members that have no name. -/
def lock : Die := structureAt 0 0 16 "lock" 12 16

def unnamedMember (offset place : Int) : Tree :=
  .node ⟨0, 0, offset, "DW_TAG_member",
    [("DW_AT_type", ⟨"DW_FORM_ref4", .number 8⟩),
      ("DW_AT_data_member_location", ⟨"DW_FORM_data1", .number place⟩)]⟩ []

def lockMembers : List Tree :=
  [unnamedMember 24 0, intMember 0 0 32 "owner" 4, intMember 0 0 40 "owner" 8, unnamedMember 48 12]

def lockUnit : Forest where
  littleEndian := true
  units := [⟨none, [intType 0 0, .node lock lockMembers]⟩]

end Dwarf.Forest

open Dwarf.Forest in
/-- The second unnamed member is numbered by the fields, of which the repeated name is one. -/
theorem lock_keeps_members :
    (∃ d, CodeView.Context.structDef ⟨lockTable, 8, .empty⟩ ⟨0x1505, 5, 0, 0x1000, 16, "_LOCK"⟩ =
        .ok d ∧
      d.fields.entries = [("__unnamed_field_0", ⟨0, .base .u32⟩), ("Owner", ⟨8, .base .u32⟩),
        ("__unnamed_field_2", ⟨12, .base .u32⟩)] ∧
      d.fields.Complete (CodeView.Context.members ⟨lockTable, 8, .empty⟩ lockEntries)) ∧
    ∃ s, lockUnit.info.structDef .structType lock = .ok s ∧
      s.fields.entries = [("__unnamed_field_0", ⟨0, .base .i32⟩), ("owner", ⟨8, .base .i32⟩),
        ("__unnamed_field_2", ⟨12, .base .i32⟩)] ∧
      s.fields.Complete [(none, ⟨0, .base .i32⟩), (some "owner", ⟨4, .base .i32⟩),
        (some "owner", ⟨8, .base .i32⟩), (none, ⟨12, .base .i32⟩)] := by
  obtain ⟨hrecords, hdies⟩ := structDef_keeps_members
  constructor
  · obtain ⟨d, hd, -, -, hcomplete, -⟩ := hrecords ⟨lockTable, 8, .empty⟩
      ⟨0x1505, 5, 0, 0x1000, 16, "_LOCK"⟩ .structType rfl
    refine ⟨d, hd, ?_, hcomplete⟩
    cases hd
    with_unfolding_all rfl
  · have hmembers : lockUnit.info.Members (lockMembers.map Dwarf.Tree.die)
        [(none, ⟨0, .base .i32⟩), (some "owner", ⟨4, .base .i32⟩),
          (some "owner", ⟨8, .base .i32⟩), (none, ⟨12, .base .i32⟩)] :=
      .cons ⟨rfl, rfl⟩ (.cons ⟨rfl, rfl⟩ (.cons ⟨rfl, rfl⟩ (.cons ⟨rfl, rfl⟩ .nil)))
    have hapart : Apart [(none, (⟨0, .base .i32⟩ : Member)), (some "owner", ⟨4, .base .i32⟩),
        (some "owner", ⟨8, .base .i32⟩), (none, ⟨12, .base .i32⟩)] := by
      have howner : ∀ n, "owner" ≠ fieldNumber n := fun n h =>
        CodeView.not_isDeclared_fieldNumber n (h ▸ (by decide : CodeView.IsDeclared "owner"))
      simpa [Apart] using howner
    obtain ⟨s, hs, -, -, hcomplete, -⟩ :=
      (hdies lockUnit.info .structType lock).1 _ _ rfl hmembers hapart
    refine ⟨s, hs, ?_, hcomplete⟩
    cases hs
    rfl

end KernelProfile
