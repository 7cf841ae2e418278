import Mathlib.Data.Nat.Bitwise
import KernelProfile.Bytes
import KernelProfile.Descriptor

/-! Bits of memory. Memory is read as a number of some bytes from an address on, in either byte
order, and every bit of that number is a bit of memory. The bits of a byte are counted from the
least significant one where numbers are little-endian and from the most significant one where they
are big-endian, so that a number of any size covers a run of consecutive bits. -/
namespace KernelProfile

/-- The bytes by address. Addresses are counted from the start of a structure. -/
abbrev Memory := Int → UInt8

namespace Memory

/-- The bytes from an address on. -/
def read (m : Memory) (address : Int) (size : Nat) : Bytes :=
  (List.range size).map fun i : Nat => m (address + i)

/-- A bit of memory, the bits of a byte counted from the least significant one. -/
def littleBit (m : Memory) (i : Int) : Bool := (m (i / 8)).toNat.testBit (i % 8).toNat

/-- A bit of memory, the bits of a byte counted from the most significant one. -/
def bigBit (m : Memory) (i : Int) : Bool := (m (i / 8)).toNat.testBit (7 - (i % 8).toNat)

/-- The number in a run of bits, the first of which is the least significant one. -/
def littleField (m : Memory) (first : Int) (length : Nat) : Nat :=
  Nat.ofBits fun i : Fin length => m.littleBit (first + i)

/-- The number in a run of bits, the first of which is the most significant one. -/
def bigField (m : Memory) (first : Int) (length : Nat) : Nat :=
  Nat.ofBits fun i : Fin length => m.bigBit (first + (length - 1 - i))

/-! ## Bits of a number that is read -/

theorem testBit_littleNat (bs : Bytes) (j : Nat) :
    (Bytes.littleNat bs).testBit j = (bs.getD (j / 8) 0).toNat.testBit (j % 8) := by
  induction bs generalizing j with
  | nil => simp [Bytes.littleNat]
  | cons b bs ih =>
    have hb : b.toNat < 2 ^ 8 := UInt8.toNat_lt b
    have hsum : Bytes.littleNat (b :: bs) = 2 ^ 8 * Bytes.littleNat bs + b.toNat := by
      simp only [Bytes.littleNat]
      omega
    rw [hsum, Nat.testBit_two_pow_mul_add _ hb]
    by_cases hj : j < 8
    · have hdiv : j / 8 = 0 := by omega
      have hmod : j % 8 = j := by omega
      rw [if_pos hj, hdiv, hmod]
      rfl
    · have hdiv : j / 8 = (j - 8) / 8 + 1 := by omega
      have hmod : j % 8 = (j - 8) % 8 := by omega
      rw [if_neg hj, ih, hdiv, hmod, List.getD_cons_succ]

variable (m : Memory) (address : Int) (size : Nat)

theorem getElem?_read (i : Nat) :
    (m.read address size)[i]? = if i < size then some (m (address + i)) else none := by
  by_cases hi : i < size <;> simp [read, hi]

@[simp] theorem length_read : (m.read address size).length = size := by simp [read]

/-- A little-endian number covers the bits of its bytes in their order. -/
theorem testBit_littleNat_read (j : Nat) :
    (Bytes.littleNat (m.read address size)).testBit j =
      (decide (j < 8 * size) && m.littleBit (8 * address + j)) := by
  rw [testBit_littleNat, List.getD_eq_getElem?_getD, getElem?_read]
  by_cases hj : j < 8 * size
  · have hbyte : j / 8 < size := by omega
    have hdiv : (8 * address + (j : Int)) / 8 = address + ((j / 8 : Nat) : Int) := by omega
    have hmod : ((8 * address + (j : Int)) % 8).toNat = j % 8 := by omega
    rw [if_pos hbyte, littleBit, hdiv, hmod]
    simp [hj]
  · have hbyte : ¬ j / 8 < size := by omega
    simp [hbyte, hj]

/-- A big-endian number covers them in the opposite order. -/
theorem testBit_bigNat_read (j : Nat) :
    (Bytes.bigNat (m.read address size)).testBit j =
      (decide (j < 8 * size) && m.bigBit (8 * address + (8 * size - 1 - j))) := by
  rw [Bytes.bigNat, testBit_littleNat, List.getD_eq_getElem?_getD]
  by_cases hj : j < 8 * size
  · have hbyte : j / 8 < (m.read address size).length := by
      rw [length_read]
      omega
    have hback : size - 1 - j / 8 < size := by omega
    have hdiv : (8 * address + (8 * (size : Int) - 1 - j)) / 8
        = address + ((size - 1 - j / 8 : Nat) : Int) := by omega
    have hmod : 7 - ((8 * address + (8 * (size : Int) - 1 - j)) % 8).toNat = j % 8 := by omega
    rw [List.getElem?_reverse hbyte, length_read, getElem?_read, if_pos hback, bigBit, hdiv, hmod]
    simp [hj]
  · have hbyte : (m.read address size).reverse.length ≤ j / 8 := by
      rw [List.length_reverse, length_read]
      omega
    rw [List.getElem?_eq_none hbyte]
    simp [hj]

/-- Shifting a little-endian number and cutting it off gives a run of bits. -/
theorem littleNat_read_window {position length : Nat} (h : position + length ≤ 8 * size) :
    Bytes.littleNat (m.read address size) / 2 ^ position % 2 ^ length =
      m.littleField (8 * address + position) length := by
  apply Nat.eq_of_testBit_eq
  intro i
  rw [Nat.testBit_mod_two_pow, Nat.testBit_div_two_pow, testBit_littleNat_read, littleField,
    Nat.testBit_ofBits]
  by_cases hi : i < length
  · have hlt : i + position < 8 * size := by omega
    have hbit : 8 * address + ((i + position : Nat) : Int) = 8 * address + position + i := by omega
    simp only [hi, hlt, hbit, decide_true, Bool.true_and, dif_pos]
  · simp [hi]

/-- Of a big-endian number, the run lies as many bits before the end as are shifted out. -/
theorem bigNat_read_window {position length : Nat} (h : position + length ≤ 8 * size) :
    Bytes.bigNat (m.read address size) / 2 ^ position % 2 ^ length =
      m.bigField (8 * address + (8 * size - position - length)) length := by
  apply Nat.eq_of_testBit_eq
  intro i
  rw [Nat.testBit_mod_two_pow, Nat.testBit_div_two_pow, testBit_bigNat_read, bigField,
    Nat.testBit_ofBits]
  by_cases hi : i < length
  · have hlt : i + position < 8 * size := by omega
    have hbit : 8 * address + (8 * (size : Int) - 1 - ((i + position : Nat) : Int))
        = 8 * address + (8 * size - position - length) + (length - 1 - i) := by omega
    simp only [hi, hlt, hbit, decide_true, Bool.true_and, dif_pos]
  · simp [hi]

/-! ## Runs of bits that are the same number in every memory -/

/-- The memory in which one bit is set, bits counted from the most significant one of a byte. -/
def withBit (i : Int) : Memory := fun address =>
  if address = i / 8 then UInt8.ofNat (2 ^ (7 - (i % 8).toNat)) else 0

theorem bigBit_withBit (i j : Int) : (withBit i).bigBit j = decide (j = i) := by
  unfold bigBit withBit
  by_cases hbyte : j / 8 = i / 8
  · have hpow : 2 ^ (7 - (i % 8).toNat) < 256 :=
      Nat.pow_lt_pow_right (by decide) (by omega : 7 - (i % 8).toNat < 8)
    rw [if_pos hbyte, UInt8.toNat_ofNat_of_lt' hpow, Nat.testBit_two_pow]
    exact decide_eq_decide.mpr (by omega)
  · have hne : j ≠ i := fun h => hbyte (h ▸ rfl)
    simp [hbyte, hne]

/-- Two runs of bits of one length hold the same number in every memory only if they are the same
run, or empty. -/
theorem bigField_eq_iff {i j : Int} {length : Nat} :
    (∀ m : Memory, m.bigField i length = m.bigField j length) ↔ length = 0 ∨ i = j := by
  constructor
  · intro h
    by_cases hlength : length = 0
    · exact .inl hlength
    · right
      -- the memory that has only the first bit of one run tells the two apart
      have htop := congrArg (Nat.testBit · (length - 1)) (h (withBit i))
      have hlt : length - 1 < length := by omega
      simp only [bigField, Nat.testBit_ofBits, dif_pos hlt, bigBit_withBit,
        decide_eq_decide] at htop
      omega
  · rintro (rfl | rfl) m
    · simp [bigField, Nat.ofBits]
    · rfl

end Memory

namespace BitSlot

variable {s : BitSlot} {m : Memory} {size : Nat}

/-- A slot's value in the little-endian number of enough bytes at its offset. -/
theorem value_littleNat (hp : 0 ≤ s.position) (hl : 0 ≤ s.length)
    (h : s.position + s.length ≤ 8 * size) :
    s.value (Bytes.littleNat (m.read s.offset size)) =
      .ok (m.littleField (8 * s.offset + s.position) s.length.toNat) := by
  have hfit : s.position.toNat + s.length.toNat ≤ 8 * size := by omega
  have hwindow := m.littleNat_read_window s.offset size hfit
  rw [Int.toNat_of_nonneg hp] at hwindow
  rw [value_eq hp hl, ← hwindow]
  push_cast
  rfl

/-- A slot's value in the big-endian number of enough bytes at its offset. -/
theorem value_bigNat (hp : 0 ≤ s.position) (hl : 0 ≤ s.length)
    (h : s.position + s.length ≤ 8 * size) :
    s.value (Bytes.bigNat (m.read s.offset size)) =
      .ok (m.bigField (8 * s.offset + (8 * size - s.position - s.length)) s.length.toNat) := by
  have hfit : s.position.toNat + s.length.toNat ≤ 8 * size := by omega
  have hwindow := m.bigNat_read_window s.offset size hfit
  rw [Int.toNat_of_nonneg hp, Int.toNat_of_nonneg hl] at hwindow
  rw [value_eq hp hl, ← hwindow]
  push_cast
  rfl

/-- A position is counted from the least significant bit. The number in the bits that it counts
from the most significant bit of a big-endian structure is another one, unless the slot is empty
or lies as far from the one end of what is read as from the other. -/
theorem value_bigNat_eq_bigField_iff (hp : 0 ≤ s.position) (hl : 0 ≤ s.length)
    (h : s.position + s.length ≤ 8 * size) :
    (∀ m : Memory, s.value (Bytes.bigNat (m.read s.offset size)) =
        .ok (m.bigField (8 * s.offset + s.position) s.length.toNat)) ↔
      s.length = 0 ∨ 8 * size = 2 * s.position + s.length := by
  have hsame : (∀ m : Memory, s.value (Bytes.bigNat (m.read s.offset size)) =
      .ok (m.bigField (8 * s.offset + s.position) s.length.toNat)) ↔
        ∀ m : Memory, m.bigField (8 * s.offset + (8 * size - s.position - s.length))
          s.length.toNat = m.bigField (8 * s.offset + s.position) s.length.toNat := by
    refine forall_congr' fun m => ?_
    rw [value_bigNat hp hl h, Except.ok.injEq, Int.natCast_inj]
  rw [hsame, Memory.bigField_eq_iff]
  omega

end BitSlot
end KernelProfile
