import KernelProfile.Proofs.CodeView.Member
import KernelProfile.Proofs.Memory
import KernelProfile.Proofs.Profile.FieldSearch

/-! Bit-fields of aggregates. A bit-field's record counts its position from the storage unit at the
member's offset; the field of the definition counts it from the byte that holds the first bit, and
reads as many bytes there. The bits are the same. -/
namespace KernelProfile.CodeView

/-- The definitions of a table keep that of an aggregate's record: what stands under the record's
name is the definition that is built from it. -/
structure RecordTable.Keeps (t : RecordTable) (pointerSize : Int) (index : Int)
    (r : AggregateRecord) (c : Context) (s : Collected) : Prop where
  context : t.context pointerSize = .ok c
  collected : t.collect pointerSize = .ok s
  listed : (index, .aggregate r) ∈ t.listing.1
  defines : r.isForward = false
  kept : ∃ d, c.structDef r = .ok d ∧ s.types.structs.get? (profileName r.name index) = some d

namespace Context

variable {c : Context}

/-- The member of a bit-field is in the byte that holds the first bit. -/
theorem memberAt_bitField {type offset length position : Int} {underlying : Ty}
    (h : c.translate type = .bitfield underlying length position) (hposition : 0 ≤ position) :
    c.memberAt type offset =
      ⟨offset + position / 8, .bitfield underlying length (position % 8)⟩ := by
  unfold memberAt
  rw [h]
  dsimp only
  split
  · rfl
  · have hdiv : position / 8 = 0 := by omega
    have hmod : position % 8 = position := by omega
    rw [hdiv, hmod, Int.add_zero]

theorem structDef_fields {r : AggregateRecord} {d : StructDef} (h : c.structDef r = .ok d) :
    d.fields = (c.fieldEntries r.fields).foldl c.addMember .empty := by
  unfold structDef at h
  split at h
  · cases h
  · cases h
    rfl

end Context

end KernelProfile.CodeView

namespace KernelProfile.Profile

variable {p : Profile}

theorem typeSize_bitfield (underlying : Ty) (length position : Int) :
    p.typeSize (.bitfield underlying length position) = p.typeSize underlying := by
  simp only [typeSize, sizeWithin]

/-- A bit-field that a structure declares itself is found there. -/
theorem fieldDescriptor_bitField {owner field : String} {s : StructDef}
    {offset size length position : Int} {underlying : Ty} (hs : p.findStruct? owner = some s)
    (hm : s.fields.get? field = some ⟨offset, .bitfield underlying length position⟩)
    (hsize : p.typeSize underlying = some size) :
    p.fieldDescriptor owner field = .ok (.bits ⟨offset, size, position, length⟩) := by
  have hdescribe : p.describe ⟨offset, .bitfield underlying length position⟩ =
      some (.bits ⟨offset, size, position, length⟩) := by
    simp only [describe, typeSize_bitfield, hsize, Option.map_some]
  simp only [fieldDescriptor, hs, search_of_declared hm, hdescribe]

end KernelProfile.Profile

namespace KernelProfile.CodeView

open Context

/-- **A bit-field keeps its bits.** Every member of a kept definition whose type is a bit-field that
lies inside its storage is found as a slot of a position inside a byte and of the storage's size,
and in every memory the slot's value is that of the bits at the record's position in the storage
at the record's offset. -/
theorem bitField_value {t : RecordTable} {pointerSize index : Int} {r : AggregateRecord}
    {c : Context} {s : Collected} (hkeeps : t.Keeps pointerSize index r c s)
    {p : Profile} (htypes : p.types = s.types)
    {before after : List FieldEntry} {attributes type offset : Int} {name : String}
    (hentries : c.fieldEntries r.fields =
      before ++ .member attributes type offset name :: after)
    (hlast : IsDeclared name →
      ∀ attributes type offset, .member attributes type offset name ∉ after)
    {underlying : Ty} {length position size : Int}
    (htype : c.translate type = .bitfield underlying length position)
    (hlength : 0 ≤ length) (hposition : 0 ≤ position)
    (hsize : p.typeSize underlying = some size) (hfits : position + length ≤ 8 * size) :
    ∃ slot : BitSlot,
      p.fieldDescriptor (profileName r.name index)
          (memberName name (before.foldl c.addMember .empty).size) = .ok (.bits slot) ∧
      0 ≤ slot.position ∧ slot.position ≤ 7 ∧ slot.size = size ∧
      ∀ m : Memory, slot.value (Bytes.littleNat (m.read slot.offset slot.size.toNat)) =
        .ok ((Bytes.littleNat (m.read offset size.toNat) /
          2 ^ position.toNat % 2 ^ length.toNat : Nat)) := by
  obtain ⟨d, hd, hkept⟩ := hkeeps.kept
  have hstruct : p.findStruct? (profileName r.name index) = some d := by
    rw [Profile.findStruct?, htypes]
    exact hkept
  have hfield := get?_member (c := c) hentries hlast
  rw [← structDef_fields hd, memberAt_bitField htype hposition] at hfield
  refine ⟨⟨offset + position / 8, size, position % 8, length⟩,
    Profile.fieldDescriptor_bitField hstruct hfield hsize, ?_, ?_, rfl, ?_⟩
  · dsimp only
    omega
  · dsimp only
    omega
  · intro m
    -- both are the bits from one bit of memory on
    have hbits : position.toNat + length.toNat ≤ 8 * size.toNat := by omega
    have hbit : 8 * (offset + position / 8) + position % 8 = 8 * offset + position := by omega
    have hinside : position % 8 + length ≤ 8 * (size.toNat : Int) := by omega
    rw [m.littleNat_read_window offset size.toNat hbits, Int.toNat_of_nonneg hposition, ← hbit]
    exact BitSlot.value_littleNat (by dsimp only; omega) hlength hinside

/-- Records of a structure with a plain field and, through a modifier, three bits of an unsigned
number of four bytes. -/
def processTable : RecordTable where
  rows := [(0x1000, .ok (.bitfield 0x75 3 10)), (0x1001, .ok (.modifier 0x1000 1)),
    (0x1002, .ok (.fieldList ⟨[.member 3 0x74 0 "Id", .member 3 0x1001 4 "Flags"], none⟩)),
    (0x1003, .ok (.aggregate ⟨0x1505, 2, 0, 0x1002, 8, "_KPROCESS"⟩))]

def processContext : Context := ⟨processTable, 8, .ofList [("_KPROCESS", 8)]⟩

def processDef : StructDef where
  kind := .structType
  size := 8
  fields := .ofList [("Id", ⟨0, .base .i32⟩), ("Flags", ⟨5, .bitfield (.base .u32) 3 2⟩)]

def processProfile : Profile where
  architecture := .amd64
  types := { structs := .ofList [("_KPROCESS", processDef)] }

/-- Bits 10 to 12 of the four bytes at 4 are bits 2 to 4 of the four bytes at 5. -/
theorem bitField_value_rebased :
    processTable.Keeps 8 0x1003 ⟨0x1505, 2, 0, 0x1002, 8, "_KPROCESS"⟩ processContext
        ⟨processProfile.types, 1⟩ ∧
      processContext.fieldEntries 0x1002 =
        [.member 3 0x74 0 "Id"] ++ .member 3 0x1001 4 "Flags" :: [] ∧
      processContext.translate 0x1001 = .bitfield (.base .u32) 3 10 ∧
      processProfile.typeSize (.base .u32) = some 4 ∧
      ∃ slot : BitSlot,
        processProfile.fieldDescriptor "_KPROCESS" "Flags" = .ok (.bits slot) ∧
        0 ≤ slot.position ∧ slot.position ≤ 7 ∧ slot.size = 4 ∧
        ∀ m : Memory, slot.value (Bytes.littleNat (m.read slot.offset slot.size.toNat)) =
          .ok ((Bytes.littleNat (m.read 4 4) / 2 ^ 10 % 2 ^ 3 : Nat)) := by
  have hkeeps : processTable.Keeps 8 0x1003 ⟨0x1505, 2, 0, 0x1002, 8, "_KPROCESS"⟩
      processContext ⟨processProfile.types, 1⟩ :=
    ⟨rfl, by with_unfolding_all rfl, by decide, rfl, processDef, by with_unfolding_all rfl, rfl⟩
  have hentries : processContext.fieldEntries 0x1002 =
      [.member 3 0x74 0 "Id"] ++ .member 3 0x1001 4 "Flags" :: [] := rfl
  have htype : processContext.translate 0x1001 = .bitfield (.base .u32) 3 10 := by
    with_unfolding_all rfl
  have hsize : processProfile.typeSize (.base .u32) = some 4 := by
    simp [Profile.typeSize, Profile.sizeWithin, BaseKind.size]
  exact ⟨hkeeps, hentries, htype, hsize,
    bitField_value hkeeps rfl hentries (by simp) htype (by decide) (by decide) hsize (by decide)⟩

end KernelProfile.CodeView
