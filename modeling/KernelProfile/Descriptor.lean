import KernelProfile.Text.Numeral

/-! Where a field lies: a byte range, or a bit range inside the bytes of its storage. -/
namespace KernelProfile

/-- A bit range inside `size` bytes at an offset. -/
structure BitSlot where
  offset : Int
  size : Int
  position : Int
  length : Int
  deriving DecidableEq, Repr

/-- A byte range. -/
structure ByteSlot where
  offset : Int
  size : Int
  deriving DecidableEq, Repr

/-- The place of a field in memory. -/
inductive Descriptor where
  | plain (slot : ByteSlot)
  | bits (slot : BitSlot)
  deriving DecidableEq, Repr

inductive DescriptorError where
  | notPlain (slot : BitSlot)
  | notBits (slot : ByteSlot)
  | negativeShift
  deriving DecidableEq, Repr

namespace ByteSlot

/-- A slot as a message shows it. -/
def display (s : ByteSlot) : String :=
  "Field(offset=" ++ Text.decimal s.offset ++ ", size=" ++ Text.decimal s.size ++ ")"

end ByteSlot

namespace BitSlot

/-- A slot as a message shows it. -/
def display (s : BitSlot) : String :=
  "Bitfield(offset=" ++ Text.decimal s.offset ++ ", size=" ++ Text.decimal s.size ++
    ", bit_position=" ++ Text.decimal s.position ++ ", bit_length=" ++ Text.decimal s.length ++ ")"

/-- A number modulo two to a length, without forming the power where the number is short. -/
def lowBits (n : Int) (length : Nat) : Int :=
  if 0 < n && n.toNat.log2 < length then n else n % 2 ^ length

/-- The field's value in the integer read at the slot's offset: the integer without the bits below
the position, modulo two to the length. A negative position or length has no value. -/
def value (s : BitSlot) (raw : Int) : Except DescriptorError Int :=
  if s.position < 0 || s.length < 0 then .error .negativeShift
  else .ok (lowBits (raw >>> s.position.toNat) s.length.toNat)

theorem lowBits_eq_emod (n : Int) (length : Nat) : lowBits n length = n % 2 ^ length := by
  unfold lowBits
  split
  · rename_i h
    simp only [Bool.and_eq_true, decide_eq_true_eq] at h
    have hn : n.toNat ≠ 0 := by omega
    have hlt : n.toNat < 2 ^ length := (Nat.log2_lt hn).1 h.2
    have hcast : ((n.toNat : Nat) : Int) = n := Int.toNat_of_nonneg (by omega)
    have : n < 2 ^ length := by rw [← hcast]; exact_mod_cast hlt
    exact (Int.emod_eq_of_lt (by omega) this).symm
  · rfl

theorem value_eq {s : BitSlot} {raw : Int} (hp : 0 ≤ s.position) (hl : 0 ≤ s.length) :
    s.value raw = .ok (raw / 2 ^ s.position.toNat % 2 ^ s.length.toNat) := by
  have hp' : ¬ s.position < 0 := by omega
  have hl' : ¬ s.length < 0 := by omega
  simp [value, hp', hl', lowBits_eq_emod, Int.shiftRight_eq_div_pow]

end BitSlot

namespace DescriptorError

def message : DescriptorError → String
  | notPlain slot => "expected a plain field, got " ++ slot.display
  | notBits slot => "expected a bitfield, got " ++ slot.display
  | negativeShift => "negative shift count"

end DescriptorError

namespace Descriptor

def offset : Descriptor → Int
  | plain s => s.offset
  | bits s => s.offset

def size : Descriptor → Int
  | plain s => s.size
  | bits s => s.size

/-- The same field seen from a structure that embeds its owner at an offset. -/
def shift (d : Descriptor) (by' : Int) : Descriptor :=
  match d with
  | plain s => plain { s with offset := s.offset + by' }
  | bits s => bits { s with offset := s.offset + by' }

def toPlain : Descriptor → Except DescriptorError ByteSlot
  | plain s => .ok s
  | bits s => .error (.notPlain s)

def toBits : Descriptor → Except DescriptorError BitSlot
  | bits s => .ok s
  | plain s => .error (.notBits s)

/-- The byte offset of a plain field; a bit-field is not found by its offset alone. -/
def toOffset (d : Descriptor) : Except DescriptorError Int := d.toPlain.map ByteSlot.offset

end Descriptor
end KernelProfile
