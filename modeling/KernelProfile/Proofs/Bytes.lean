import KernelProfile.Bytes

/-! Ranges of the numbers that bytes denote, what cutting a byte string in two and a part out of it
gives, and the two's complement as it is written. -/
namespace KernelProfile.Bytes

theorem split?_of_le {n : Nat} {bs : Bytes} (h : n ≤ bs.length) :
    bs.split? n = some (bs.take n, bs.drop n) := by
  simp only [split?, h, if_true]

theorem split?_eq_some {n : Nat} {bs front rest : Bytes} (h : bs.split? n = some (front, rest)) :
    front.length = n ∧ bs = front ++ rest := by
  unfold split? at h
  split at h
  · rename_i hle
    simp only [Option.some.injEq, Prod.mk.injEq] at h
    obtain ⟨rfl, rfl⟩ := h
    exact ⟨List.length_take_of_le hle, (List.take_append_drop n bs).symm⟩
  · cases h

/-! ## Parts of byte strings -/

theorem slice_eq_filterMap (bs : Bytes) (offset n : Nat) :
    bs.slice offset n = (List.range' offset n).filterMap fun k => bs[k]? := by
  induction n generalizing offset with
  | zero => simp [slice]
  | succ n ih =>
    rw [List.range'_succ, List.filterMap_cons, ← ih, slice, slice]
    by_cases h : offset < bs.length
    · rw [List.drop_eq_getElem_cons h, List.take_succ_cons, List.getElem?_eq_getElem h]
    · have hnone : bs[offset]? = none := List.getElem?_eq_none (by omega)
      rw [List.drop_eq_nil_of_le (by omega), List.drop_eq_nil_of_le (by omega), hnone]
      simp

theorem getElem?_slice (bs : Bytes) (offset n k : Nat) :
    (bs.slice offset n)[k]? = if k < n then bs[offset + k]? else none := by
  rw [slice, List.getElem?_take, List.getElem?_drop]

theorem length_slice {bs : Bytes} {offset n : Nat} (h : offset + n ≤ bs.length) :
    (bs.slice offset n).length = n := by
  rw [slice, List.length_take, List.length_drop]
  omega

theorem length_slice_le (bs : Bytes) (offset n : Nat) : (bs.slice offset n).length ≤ bs.length := by
  rw [slice, List.length_take, List.length_drop]
  omega

theorem slice_append (bs : Bytes) (offset m n : Nat) :
    bs.slice offset m ++ bs.slice (offset + m) n = bs.slice offset (m + n) := by
  rw [slice, slice, slice, List.take_add, List.drop_drop]

theorem slice_slice (bs : Bytes) (offset n inner m : Nat) (h : inner + m ≤ n) :
    (bs.slice offset n).slice inner m = bs.slice (offset + inner) m := by
  rw [slice, slice, slice, List.drop_take, List.take_take, List.drop_drop]
  congr 1
  omega

theorem slice_append_right (front rest : Bytes) (offset n : Nat) :
    (front ++ rest).slice (front.length + offset) n = rest.slice offset n := by
  rw [slice, slice, ← List.drop_drop, List.drop_left]

/-! ## Numbers -/

theorem littleNat_lt (bs : Bytes) : littleNat bs < 256 ^ bs.length := by
  induction bs with
  | nil => decide
  | cons b bs ih =>
    have hb : b.toNat < 256 := UInt8.toNat_lt b
    simp only [littleNat, List.length_cons, Nat.pow_succ]
    omega

theorem littleAt_ofNatLittle {width n : Nat} (h : n < 256 ^ width) (rest : Bytes) :
    (ofNatLittle width n ++ rest).littleAt 0 width = n := by
  rw [littleAt, slice, List.drop_zero, List.take_left' (length_ofNatLittle width n),
    littleNat_ofNatLittle h]

theorem littleAt_append_right {front : Bytes} {start : Nat} (h : front.length = start)
    (rest : Bytes) (offset width : Nat) :
    (front ++ rest).littleAt (start + offset) width = rest.littleAt offset width := by
  rw [littleAt, littleAt, ← h, slice_append_right]

theorem littleAt_length (part rest : Bytes) :
    (part ++ rest).littleAt 0 part.length = littleNat part := by
  rw [littleAt, slice, List.drop_zero, List.take_left]

/-- A field is read where the fields before it end. -/
theorem littleAt_flatten {fields : List Bytes} {field : Bytes} {i : Nat}
    (h : fields[i]? = some field) (rest : Bytes) :
    Bytes.littleAt (fields.flatten ++ rest) (fields.take i).flatten.length field.length =
      littleNat field := by
  obtain ⟨hlt, rfl⟩ := List.getElem?_eq_some_iff.mp h
  have hfields : fields = fields.take i ++ fields[i] :: fields.drop (i + 1) := by
    rw [← List.drop_eq_getElem_cons hlt, List.take_append_drop]
  have hsplit : fields.flatten ++ rest = (fields.take i).flatten ++
      (fields[i] ++ ((fields.drop (i + 1)).flatten ++ rest)) := by
    rw [← List.append_assoc fields[i], ← List.flatten_cons, ← List.append_assoc,
      ← List.flatten_append, ← hfields]
  rw [hsplit, ← littleAt_length fields[i] ((fields.drop (i + 1)).flatten ++ rest)]
  exact littleAt_append_right rfl _ 0 _

theorem littleAt_take {bs : Bytes} {offset width n : Nat} (h : offset + width ≤ n) :
    Bytes.littleAt (bs.take n) offset width = bs.littleAt offset width := by
  have hslice := slice_slice bs 0 n offset width h
  rw [Nat.zero_add] at hslice
  rw [littleAt, littleAt, ← hslice, slice, slice, slice, List.drop_zero]

theorem littleAt_lt (bs : Bytes) (offset width : Nat) : bs.littleAt offset width < 256 ^ width := by
  have hlength : (bs.slice offset width).length ≤ width := List.length_take_le ..
  exact Nat.lt_of_lt_of_le (littleNat_lt _) (Nat.pow_le_pow_right (by decide) hlength)

/-- Bytes are those of the number that they denote. -/
theorem ofNatLittle_littleNat (bs : Bytes) : ofNatLittle bs.length (littleNat bs) = bs := by
  induction bs with
  | nil => rfl
  | cons b bs ih =>
    have hb : b.toNat < 256 := UInt8.toNat_lt b
    have hlow : (b.toNat + 256 * littleNat bs) % 256 = b.toNat := by omega
    have hhigh : (b.toNat + 256 * littleNat bs) / 256 = littleNat bs := by omega
    rw [List.length_cons, ofNatLittle, littleNat, hlow, hhigh, ih, UInt8.ofNat_toNat]

theorem ofNatLittle_littleAt {bs : Bytes} {offset width : Nat} (h : offset + width ≤ bs.length) :
    ofNatLittle width (bs.littleAt offset width) = bs.slice offset width := by
  have hbytes := ofNatLittle_littleNat (bs.slice offset width)
  rwa [length_slice h] at hbytes

/-- The number of values of a word, as an integer. -/
theorem natCast_size (width : Nat) : ((256 ^ width : Nat) : Int) = 256 ^ width := by
  rw [Int.natCast_pow]
  rfl

/-- A two's complement lies in the two halves around zero. -/
theorem signed_range {width n : Nat} (h : n < 256 ^ width) :
    -(256 ^ width : Int) ≤ 2 * signed width n ∧ 2 * signed width n < (256 ^ width : Int) := by
  unfold signed
  rw [← natCast_size]
  split <;> omega

/-- Bytes of a two's complement, least significant first. -/
def ofIntLittle (width : Nat) (v : Int) : Bytes := ofNatLittle width (v % 256 ^ width).toNat

theorem length_ofIntLittle (width : Nat) (v : Int) : (ofIntLittle width v).length = width :=
  length_ofNatLittle width _

theorem littleNat_ofIntLittle (width : Nat) (v : Int) :
    (littleNat (ofIntLittle width v) : Int) = v % 256 ^ width := by
  have hpos : (0 : Int) < 256 ^ width := Int.pow_pos (by decide)
  have hlow : 0 ≤ v % 256 ^ width := Int.emod_nonneg v (Int.ne_of_gt hpos)
  have hhigh : v % 256 ^ width < 256 ^ width := Int.emod_lt_of_pos v hpos
  have hlt : (v % 256 ^ width).toNat < 256 ^ width := by
    rw [← natCast_size] at hlow hhigh ⊢
    omega
  rw [ofIntLittle, littleNat_ofNatLittle hlt, Int.toNat_of_nonneg hlow]

/-- A number in the two halves around zero is read back from its two's complement. -/
theorem signed_ofIntLittle {width : Nat} {v : Int} (hlow : -(256 ^ width : Int) ≤ 2 * v)
    (hhigh : 2 * v < (256 ^ width : Int)) : signed width (littleNat (ofIntLittle width v)) = v := by
  have hword := littleNat_ofIntLittle width v
  unfold signed
  rw [← natCast_size] at hlow hhigh hword ⊢
  rcases Int.lt_or_le v 0 with hneg | hnonneg
  · have hmod : v % ((256 ^ width : Nat) : Int) = v + ((256 ^ width : Nat) : Int) := by
      rw [← Int.add_emod_right]
      exact Int.emod_eq_of_lt (by omega) (by omega)
    rw [hmod] at hword
    rw [if_neg (by omega)]
    omega
  · rw [Int.emod_eq_of_lt hnonneg (by omega)] at hword
    rw [if_pos (by omega)]
    omega

end KernelProfile.Bytes
