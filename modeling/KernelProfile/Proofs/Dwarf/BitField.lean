import KernelProfile.Dwarf.Forest
import KernelProfile.Proofs.Dwarf.Translate
import KernelProfile.Proofs.Memory

/-! Bit-fields of members. There are three ways to say where a bit-field lies, and on little-endian
targets each of them comes to the same: a byte and a position in it whose value, in a number of
any size that is read there, is the number in the bits that were meant. On big-endian targets the
position is counted from the most significant bit, but a value is taken from the least
significant one on, which gives the bits that were meant only in numbers of one size. -/
namespace KernelProfile.Dwarf

/-- Where a bit-field lies, as its attributes say it. -/
inductive Placement where
  /-- A bit of the structure. -/
  | dataBit (offset : Int)
  /-- A location, and a number of bits below the most significant one of the storage there. -/
  | fromTop (location bitOffset storage : Int)
  /-- A location alone. -/
  | byte (location : Int)

/-- The first bit of a bit-field, counted from the start of a little-endian structure. -/
def Placement.first (length : Int) : Placement → Int
  | dataBit offset => offset
  | fromTop location bitOffset storage => 8 * location + 8 * storage - bitOffset - length
  | byte location => 8 * location

theorem Die.has_of_constant? {d : Die} {name : String} {n : Int}
    (h : d.constant? name = some n) : d.has name = true := by
  unfold constant? at h
  split at h
  · cases h
  · rename_i a ha
    simp [has, ha]

theorem Die.constant?_nonneg {d : Die} {name : String} {n : Int}
    (h : d.constant? name = some n) : 0 ≤ n := by
  unfold constant? at h
  split at h
  · cases h
  · split at h
    · cases h
    · split at h
      · split at h
        · cases h
        · cases h
          omega
      · cases h

namespace DebugInfo

variable {info : DebugInfo} {member : Die} {length : Int}

/-- The size of a member's storage: its own, or the one behind its type attribute. -/
def HasStorage (info : DebugInfo) (member : Die) (size : Int) : Prop :=
  member.constant? "DW_AT_byte_size" = some size ∨
    (member.constant? "DW_AT_byte_size" = none ∧
      ∃ links ≤ chainLimit, info.StorageAfter links member size)

/-- A member's attributes place a bit-field of a length in one of the three ways. Where bits are
counted from the top of the storage, the field lies inside it. -/
def Places (info : DebugInfo) (member : Die) (length : Int) : Placement → Prop
  | .dataBit offset =>
    member.location? = none ∧ member.constant? "DW_AT_data_bit_offset" = some offset
  | .fromTop location bitOffset storage =>
    member.location?.getD 0 = location ∧ member.constant? "DW_AT_data_bit_offset" = none ∧
      member.constant? "DW_AT_bit_offset" = some bitOffset ∧ info.HasStorage member storage ∧
      bitOffset + length ≤ 8 * storage
  | .byte location =>
    member.location? = some location ∧ member.constant? "DW_AT_data_bit_offset" = none ∧
      member.constant? "DW_AT_bit_offset" = none

/-! ## The layout -/

/-- A member is a bit-field at a bit of its structure: its type is what it refers to, and its
position is the one in the byte that holds the bit. -/
def LaidOutAt (info : DebugInfo) (member : Die) (length first : Int) : Prop :=
  info.memberLayout member =
    (info.referencedType member).map fun t => (first / 8, .bitfield t length (first % 8))

theorem laidOutAt_of_counted {first : Int}
    (hlength : member.constant? "DW_AT_bit_size" = some length)
    (hdata : member.constant? "DW_AT_data_bit_offset" = none)
    (hhas : member.has "DW_AT_bit_offset" = true)
    (hcounted : info.countedFromTop member (member.location?.getD 0) length = .ok (some first)) :
    info.LaidOutAt member length first := by
  have hdiv : first.fdiv 8 = first / 8 := Int.fdiv_eq_ediv_of_nonneg first (by decide)
  have hmod : first.fmod 8 = first % 8 := Int.fmod_eq_emod_of_nonneg first (by decide)
  unfold LaidOutAt memberLayout
  rw [← hdiv, ← hmod]
  simp only [hlength, hdata, hhas, Option.isNone_none, Bool.and_self, if_true, hcounted]
  cases info.referencedType member with
  | error e => rfl
  | ok t => rfl

theorem laidOutAt_dataBit {offset : Int} (hlength : member.constant? "DW_AT_bit_size" = some length)
    (hlocation : member.location? = none)
    (hdata : member.constant? "DW_AT_data_bit_offset" = some offset) :
    info.LaidOutAt member length offset := by
  unfold LaidOutAt memberLayout
  simp only [hlength, hlocation, hdata, Option.isNone_some, Bool.false_and, Bool.false_eq_true,
    if_false]
  cases info.referencedType member with
  | error e => rfl
  | ok t => rfl

theorem laidOutAt_byte {location : Int} (hlength : member.constant? "DW_AT_bit_size" = some length)
    (hlocation : member.location? = some location)
    (hdata : member.constant? "DW_AT_data_bit_offset" = none)
    (hbit : member.constant? "DW_AT_bit_offset" = none) :
    info.LaidOutAt member length (8 * location) := by
  have hcounted : ∀ l, info.countedFromTop member l length = .ok none := by
    intro l
    simp only [countedFromTop, hbit]
    rfl
  have hdiv : 8 * location / 8 = location := by omega
  have hmod : 8 * location % 8 = 0 := by omega
  unfold LaidOutAt memberLayout
  -- an attribute that is there without being a constant counts nothing
  simp only [hlength, hlocation, hdata, hcounted, ite_self, hdiv, hmod]
  cases info.referencedType member with
  | error e => rfl
  | ok t => rfl

/-- Counting from the top of the storage, on a target of either byte order. -/
theorem laidOutAt_fromTop {location bitOffset storage : Int}
    (hlength : member.constant? "DW_AT_bit_size" = some length)
    (hplace : info.Places member length (.fromTop location bitOffset storage)) :
    info.LaidOutAt member length (if info.littleEndian then
      8 * location + 8 * storage - bitOffset - length else 8 * location + bitOffset) := by
  obtain ⟨rfl, hdata, hbit, hstorage, -⟩ := hplace
  refine laidOutAt_of_counted hlength hdata (Die.has_of_constant? hbit) ?_
  cases hlittle : info.littleEndian with
  | false =>
    simp only [countedFromTop, hbit, hlittle, Bool.not_false, if_true, Bool.false_eq_true, if_false,
      Int.mul_comm 8]
    rfl
  | true =>
    simp only [countedFromTop, hbit, hlittle, Bool.not_true, Bool.false_eq_true, if_false, if_true,
      Int.mul_comm 8]
    rcases hstorage with hown | ⟨hnone, hbehind⟩
    · rw [hown]
      rfl
    · rw [hnone, storageSize_eq_some_iff.mpr hbehind]
      rfl

/-- On a little-endian target every placement comes to its first bit. -/
theorem laidOutAt_first (hlittle : info.littleEndian = true)
    (hlength : member.constant? "DW_AT_bit_size" = some length) {place : Placement}
    (hplace : info.Places member length place) :
    info.LaidOutAt member length (place.first length) := by
  cases place with
  | dataBit offset => exact laidOutAt_dataBit hlength hplace.1 hplace.2
  | fromTop location bitOffset storage =>
    have hlaid := laidOutAt_fromTop hlength hplace
    rwa [hlittle, if_pos rfl] at hlaid
  | byte location =>
    obtain ⟨hlocation, hdata, hbit⟩ := hplace
    exact laidOutAt_byte hlength hlocation hdata hbit

theorem LaidOutAt.exists_type {first : Int} (h : info.LaidOutAt member length first)
    (hread : info.Readable) :
    ∃ t, info.memberLayout member = .ok (first / 8, .bitfield t length (first % 8)) := by
  obtain ⟨t, ht⟩ := hread.readableIn.exists_referencedType (d := member) trivial
  refine ⟨t, ?_⟩
  rw [h, ht]
  rfl

/-! ## The value -/

/-- **On a little-endian target every placement denotes its bits.** The layout is a byte and a
position in it, given wherever the type can be read; the value of that slot in every number that
covers it is the number in the bits from the first one on; and members whose fields have the same
first bit, length and type have the same layout, whichever way each of them is placed. -/
theorem memberLayout_littleEndian (hlittle : info.littleEndian = true)
    (hlength : member.constant? "DW_AT_bit_size" = some length) {place : Placement}
    (hplace : info.Places member length place) :
    ∃ offset position,
      info.memberLayout member =
        (info.referencedType member).map (fun t => (offset, .bitfield t length position)) ∧
      (info.Readable →
        ∃ t, info.memberLayout member = .ok (offset, .bitfield t length position)) ∧
      8 * offset + position = place.first length ∧ 0 ≤ position ∧ position ≤ 7 ∧
      (∀ location bitOffset storage, place = .fromTop location bitOffset storage →
        position + length ≤ 8 * storage) ∧
      (∀ (m : Memory) (size : Nat), position + length ≤ 8 * size →
        BitSlot.value ⟨offset, size, position, length⟩ (Bytes.littleNat (m.read offset size)) =
          .ok (m.littleField (place.first length) length.toNat)) ∧
      ∀ (info' : DebugInfo) (member' : Die) (place' : Placement), info'.littleEndian = true →
        member'.constant? "DW_AT_bit_size" = some length → info'.Places member' length place' →
        place'.first length = place.first length →
        info'.referencedType member' = info.referencedType member →
        info'.memberLayout member' = info.memberLayout member := by
  have hlaid := laidOutAt_first hlittle hlength hplace
  have hnonneg : 0 ≤ length := Die.constant?_nonneg hlength
  have hbit : 8 * (place.first length / 8) + place.first length % 8 = place.first length := by omega
  refine ⟨place.first length / 8, place.first length % 8, hlaid, hlaid.exists_type, hbit,
    by omega, by omega, ?_, ?_, ?_⟩
  · rintro location bitOffset storage rfl
    obtain ⟨-, -, hbelow, -, hfits⟩ := hplace
    have hbitOffset : 0 ≤ bitOffset := Die.constant?_nonneg hbelow
    simp only [Placement.first]
    omega
  · intro m size hfits
    have hposition : 0 ≤ place.first length % 8 := by omega
    rw [BitSlot.value_littleNat hposition hnonneg hfits, hbit]
  · intro info' member' place' hlittle' hlength' hplace' hfirst htype
    have hlaid' := laidOutAt_first hlittle' hlength' hplace'
    rw [hlaid, hlaid', hfirst, htype]

end DebugInfo

namespace Forest

/-- A base type of a size, a typedef of it, and a member of the typedef's type. -/
def withMember (littleEndian : Bool) (size : Int) (member : Die) : Forest where
  littleEndian
  units := [⟨none, [
    .node ⟨0, 0, 16, "DW_TAG_base_type", [("DW_AT_byte_size", ⟨"DW_FORM_data1", .number size⟩),
      ("DW_AT_encoding", ⟨"DW_FORM_data1", .number 7⟩)]⟩ [],
    .node ⟨0, 0, 32, "DW_TAG_typedef", [("DW_AT_type", ⟨"DW_FORM_ref4", .number 16⟩)]⟩ [],
    .node member []]⟩]

/-- A member of that type whose bits are counted from the top of the storage. -/
def countedMember (location bitSize bitOffset : Int) : Die :=
  ⟨0, 0, 48, "DW_TAG_member", [("DW_AT_type", ⟨"DW_FORM_ref4", .number 32⟩),
    ("DW_AT_data_member_location", ⟨"DW_FORM_data1", .number location⟩),
    ("DW_AT_bit_size", ⟨"DW_FORM_data1", .number bitSize⟩),
    ("DW_AT_bit_offset", ⟨"DW_FORM_data1", .number bitOffset⟩)]⟩

/-- Four bits of two bytes whose size stands behind a typedef. -/
def halfMember : Forest := withMember true 2 (countedMember 4 4 8)

/-- Bits 8 to 11 from the top of the two bytes at 4 are bits 36 to 39 of the structure. -/
theorem halfMember_layout :
    halfMember.info.littleEndian = true ∧
      (countedMember 4 4 8).constant? "DW_AT_bit_size" = some 4 ∧
      halfMember.info.Places (countedMember 4 4 8) 4 (.fromTop 4 8 2) ∧
      ∃ offset position, 8 * offset + position = 36 ∧ 0 ≤ position ∧ position ≤ 7 ∧
        halfMember.info.memberLayout (countedMember 4 4 8) =
          .ok (offset, .bitfield (.base .u16) 4 position) ∧
        ∀ m : Memory, BitSlot.value ⟨offset, 2, position, 4⟩ (Bytes.littleNat (m.read offset 2)) =
          .ok (m.littleField 36 4) := by
  have hplace : halfMember.info.Places (countedMember 4 4 8) 4 (.fromTop 4 8 2) :=
    ⟨rfl, rfl, rfl, .inr ⟨rfl, 2, by decide, .through rfl rfl rfl rfl (.given rfl rfl rfl)⟩,
      by decide⟩
  obtain ⟨offset, position, hlayout, -, hsum, hnonneg, hle, hfits, hvalue, -⟩ :=
    DebugInfo.memberLayout_littleEndian rfl rfl hplace
  refine ⟨rfl, rfl, hplace, offset, position, hsum, hnonneg, hle, hlayout, ?_⟩
  intro m
  exact hvalue m 2 (hfits 4 8 2 rfl)

end Forest

namespace DebugInfo

variable {info : DebugInfo} {member : Die} {length : Int}

/-- **On a big-endian target a value is that of the field only in numbers of one size.** The
position is counted down from the most significant bit of the byte. In a number of any size the
slot's value is that of the bits which end the position's distance before the last one; these are
the bits of the field, which the storage holds the bit offset below its most significant bit,
exactly if the field is empty or the number has as many bits behind the field as the position
counts in front of it. -/
theorem memberLayout_bigEndian (hbig : info.littleEndian = false)
    (hlength : member.constant? "DW_AT_bit_size" = some length) {location bitOffset storage : Int}
    (hplace : info.Places member length (.fromTop location bitOffset storage)) :
    ∃ offset position,
      info.memberLayout member =
        (info.referencedType member).map (fun t => (offset, .bitfield t length position)) ∧
      (info.Readable →
        ∃ t, info.memberLayout member = .ok (offset, .bitfield t length position)) ∧
      8 * offset + position = 8 * location + bitOffset ∧ 0 ≤ position ∧ position ≤ 7 ∧
      ∀ size : Nat, position + length ≤ 8 * size →
        (∀ m : Memory, BitSlot.value ⟨offset, size, position, length⟩
            (Bytes.bigNat (m.read offset size)) =
          .ok (m.bigField (8 * offset + (8 * size - position - length)) length.toNat)) ∧
        ((∀ m : Memory, BitSlot.value ⟨offset, size, position, length⟩
              (Bytes.bigNat (m.read offset size)) =
            .ok ((Bytes.bigNat (m.read location storage.toNat) /
              2 ^ (8 * storage - bitOffset - length).toNat % 2 ^ length.toNat : Nat))) ↔
          length = 0 ∨ 8 * size = 2 * position + length) := by
  have hlaid := laidOutAt_fromTop hlength hplace
  rw [hbig, if_neg Bool.false_ne_true] at hlaid
  obtain ⟨-, -, hbit, -, hfits⟩ := hplace
  have hnonneg : 0 ≤ length := Die.constant?_nonneg hlength
  have hbelow : 0 ≤ bitOffset := Die.constant?_nonneg hbit
  -- the field lies as many bits below the top of the storage as its offset says
  have hinside : (8 * storage - bitOffset - length).toNat + length.toNat ≤ 8 * storage.toNat := by
    omega
  have hfirst : 8 * location + (8 * (storage.toNat : Int) -
      ((8 * storage - bitOffset - length).toNat : Int) - (length.toNat : Int)) =
        8 * location + bitOffset := by omega
  have hfield : ∀ m : Memory, Bytes.bigNat (m.read location storage.toNat) /
      2 ^ (8 * storage - bitOffset - length).toNat % 2 ^ length.toNat =
        m.bigField (8 * location + bitOffset) length.toNat := by
    intro m
    rw [m.bigNat_read_window location storage.toNat hinside, hfirst]
  have hsum : 8 * ((8 * location + bitOffset) / 8) + (8 * location + bitOffset) % 8 =
      8 * location + bitOffset := by omega
  have hposition : 0 ≤ (8 * location + bitOffset) % 8 := by omega
  refine ⟨(8 * location + bitOffset) / 8, (8 * location + bitOffset) % 8, hlaid,
    hlaid.exists_type, hsum, hposition, by omega, ?_⟩
  intro size hsize
  refine ⟨fun m => BitSlot.value_bigNat hposition hnonneg hsize, ?_⟩
  have hvalue := BitSlot.value_bigNat_eq_bigField_iff
    (s := ⟨(8 * location + bitOffset) / 8, size, (8 * location + bitOffset) % 8, length⟩)
    hposition hnonneg hsize
  simpa only [hfield, hsum] using hvalue

end DebugInfo

namespace Forest

/-- Three bits of four bytes on a big-endian target. -/
def bigMember : Forest := withMember false 4 (countedMember 8 3 13)

theorem bigMember_places : bigMember.info.Places (countedMember 8 3 13) 3 (.fromTop 8 13 4) :=
  ⟨rfl, rfl, rfl, .inr ⟨rfl, 2, by decide, .through rfl rfl rfl rfl (.given rfl rfl rfl)⟩,
    by decide⟩

/-- Bits 13 to 15 below the top are the last three of the second byte, so that their value is not
the one that is taken from the byte alone or from four bytes. -/
theorem bigMember_value_iff :
    bigMember.info.littleEndian = false ∧
      (countedMember 8 3 13).constant? "DW_AT_bit_size" = some 3 ∧
      bigMember.info.Places (countedMember 8 3 13) 3 (.fromTop 8 13 4) ∧
      ∃ offset position : Int, 8 * offset + position = 77 ∧ 0 ≤ position ∧ position ≤ 7 ∧
        ∀ size : Nat, position + 3 ≤ 8 * size →
          ¬ ∀ m : Memory, BitSlot.value ⟨offset, size, position, 3⟩
              (Bytes.bigNat (m.read offset size)) =
            .ok ((Bytes.bigNat (m.read 8 4) / 2 ^ 16 % 2 ^ 3 : Nat)) := by
  obtain ⟨offset, position, -, -, hsum, hnonneg, hle, hvalue⟩ :=
    DebugInfo.memberLayout_bigEndian rfl rfl bigMember_places
  refine ⟨rfl, rfl, bigMember_places, offset, position, hsum, hnonneg, hle, ?_⟩
  intro size hsize hall
  have hsame := (hvalue size hsize).2.mp hall
  omega

/-- The memory that has 7 in the byte at 9, where the three bits lie, and 0 in all others. -/
def bigMemory : Memory := fun address => if address = 9 then 7 else 0

/-- All three bits are set, and the value of the slot in the four bytes at its offset is 0. -/
theorem bigMember_value_lost :
    bigMember.info.littleEndian = false ∧
      (countedMember 8 3 13).constant? "DW_AT_bit_size" = some 3 ∧
      bigMember.info.Places (countedMember 8 3 13) 3 (.fromTop 8 13 4) ∧
      bigMember.info.memberLayout (countedMember 8 3 13) =
        .ok (9, .bitfield (.base .u32) 3 5) ∧
      Bytes.bigNat (bigMemory.read 8 4) / 2 ^ (8 * 4 - 13 - 3) % 2 ^ 3 = 7 ∧
      BitSlot.value ⟨9, 4, 5, 3⟩ (Bytes.bigNat (bigMemory.read 9 4)) = .ok 0 := by
  exact ⟨rfl, rfl, bigMember_places, rfl, by decide, by decide⟩

end Forest
end KernelProfile.Dwarf
