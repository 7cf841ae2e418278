import KernelProfile.Power

/-! Byte strings as lists: little- and big-endian numbers, and cutting off a fixed number of bytes
where there are that many. -/
namespace KernelProfile

abbrev Bytes := List UInt8

namespace Bytes

/-- The number that bytes denote, least significant byte first. -/
def littleNat : Bytes → Nat
  | [] => 0
  | b :: bs => b.toNat + 256 * littleNat bs

/-- The number that bytes denote, most significant byte first. -/
def bigNat (bs : Bytes) : Nat := littleNat bs.reverse

/-- The number that bytes denote in a byte order. -/
def toNat (littleEndian : Bool) (bs : Bytes) : Nat :=
  if littleEndian then littleNat bs else bigNat bs

/-- A number of `width` bytes read as a two's complement. -/
def signed (width n : Nat) : Int :=
  if 2 * n < 256 ^ width then (n : Int) else (n : Int) - 256 ^ width

/-- The first bytes and the rest, if there are enough. -/
def split? (n : Nat) (bs : Bytes) : Option (Bytes × Bytes) :=
  if n ≤ bs.length then some (bs.take n, bs.drop n) else none

/-- Bytes of a number, least significant first. -/
def ofNatLittle : Nat → Nat → Bytes
  | 0, _ => []
  | width + 1, n => UInt8.ofNat (n % 256) :: ofNatLittle width (n / 256)

/-- The part of a byte string that starts at an offset. -/
def slice (bs : Bytes) (offset length : Nat) : Bytes := (bs.drop offset).take length

/-- The little-endian number in the `width` bytes at an offset; missing bytes count as zero. -/
def littleAt (bs : Bytes) (offset width : Nat) : Nat := littleNat (bs.slice offset width)

theorem length_ofNatLittle (width n : Nat) : (ofNatLittle width n).length = width := by
  induction width generalizing n with
  | zero => rfl
  | succ width ih => simp [ofNatLittle, ih]

theorem littleNat_ofNatLittle {width n : Nat} (h : n < 256 ^ width) :
    littleNat (ofNatLittle width n) = n := by
  induction width generalizing n with
  | zero => simp_all [ofNatLittle, littleNat]
  | succ width ih =>
    have hq : n / 256 < 256 ^ width := by
      rw [Nat.pow_succ] at h
      exact Nat.div_lt_of_lt_mul (by rw [Nat.mul_comm]; exact h)
    simp only [ofNatLittle, littleNat, ih hq, UInt8.toNat_ofNat']
    omega

end Bytes
end KernelProfile
