import KernelProfile.Proofs.Bytes

/-! Records as they stand in a stream. A length that counts the kind but not itself frames a record,
so that records can be told apart whatever is in them. Every byte string is a run of framed records
with bytes behind it that begin with none. -/
namespace KernelProfile

/-- A record: a kind, and a payload that its length has room for. -/
structure Frame where
  kind : Nat
  payload : Bytes
  kind_lt : kind < 65536
  payload_le : payload.length ≤ 65533

namespace Frame

variable (f : Frame) (rest : Bytes)

/-- The length and the kind of a record, as they stand before its payload. -/
def header : Bytes := Bytes.ofNatLittle 2 (f.payload.length + 2) ++ Bytes.ofNatLittle 2 f.kind

def bytes : Bytes := f.header ++ f.payload

/-- The bytes of records that follow each other. -/
def concat (fs : List Frame) : Bytes := fs.flatMap bytes

/-- Bytes begin with no framed record: there is no header, or its length is too small for a kind or
reaches past the end. -/
def Ends (data : Bytes) : Prop :=
  data.length < 4 ∨ data.littleAt 0 2 < 2 ∨ data.length < data.littleAt 0 2 + 2

/-! ## Reading a record -/

@[simp] theorem length_header : f.header.length = 4 := by
  rw [header, List.length_append, Bytes.length_ofNatLittle, Bytes.length_ofNatLittle]

@[simp] theorem length_bytes : f.bytes.length = f.payload.length + 4 := by
  rw [bytes, List.length_append, length_header, Nat.add_comm]

@[simp] theorem littleAt_header_length : f.header.littleAt 0 2 = f.payload.length + 2 := by
  have hroom := f.payload_le
  exact Bytes.littleAt_ofNatLittle (by omega) _

@[simp] theorem littleAt_header_kind : f.header.littleAt 2 2 = f.kind := by
  have hkind : (Bytes.ofNatLittle 2 f.kind).littleAt 0 2 = f.kind := by
    rw [← List.append_nil (Bytes.ofNatLittle 2 f.kind)]
    exact Bytes.littleAt_ofNatLittle f.kind_lt []
  rw [← hkind]
  exact Bytes.littleAt_append_right (Bytes.length_ofNatLittle ..) _ 0 2

theorem split?_bytes : (f.bytes ++ rest).split? 4 = some (f.header, f.payload ++ rest) := by
  have hlength : 4 ≤ (f.bytes ++ rest).length := by
    rw [List.length_append, length_bytes]
    omega
  rw [Bytes.split?_of_le hlength, bytes, List.append_assoc,
    List.take_left' f.length_header, List.drop_left' f.length_header]

/-- A reader finds a header. -/
theorem not_short : ¬ (f.bytes ++ rest).length < 4 := by
  rw [List.length_append, length_bytes]
  omega

/-- The length in it counts the kind, and the payload is all there. -/
theorem not_overrun : ¬ (f.payload.length + 2 < 2 ∨
    (f.payload ++ rest).length + 2 < f.payload.length + 2) := by
  rw [List.length_append]
  omega

/-- The offset of the next record. -/
theorem next_offset (offset : Nat) :
    offset + 2 + (f.payload.length + 2) = offset + f.bytes.length := by
  rw [length_bytes]
  omega

@[simp] theorem concat_nil : concat [] = [] := rfl

@[simp] theorem concat_cons (fs : List Frame) : concat (f :: fs) = f.bytes ++ concat fs := rfl

/-! ## Finding the records -/

/-- What a reader finds in a header where no record begins. -/
theorem Ends.overrun {data : Bytes} (h : Ends data) (hlong : 4 ≤ data.length) :
    Bytes.littleAt (data.take 4) 0 2 = data.littleAt 0 2 ∧
      (data.littleAt 0 2 < 2 ∨ (data.drop 4).length + 2 < data.littleAt 0 2) := by
  refine ⟨Bytes.littleAt_take (by decide), ?_⟩
  rcases h with h | h | h
  · exact absurd hlong (Nat.not_le.mpr h)
  · exact .inl h
  · rw [List.length_drop]
    exact .inr (by omega)

/-- A header that has room for its kind and its payload begins a record. -/
theorem exists_frame {data : Bytes} (h : ¬ Ends data) : ∃ f rest, data = bytes f ++ rest := by
  simp only [Ends, not_or, Nat.not_lt] at h
  obtain ⟨hheader, htwo, hfits⟩ := h
  have hlength := Bytes.littleAt_lt data 0 2
  have hpayload : (data.slice 4 (data.littleAt 0 2 - 2)).length = data.littleAt 0 2 - 2 :=
    Bytes.length_slice (by omega)
  refine ⟨⟨data.littleAt 2 2, data.slice 4 (data.littleAt 0 2 - 2), Bytes.littleAt_lt data 2 2,
    by omega⟩, data.drop (data.littleAt 0 2 + 2), ?_⟩
  rw [bytes, header]
  dsimp only
  rw [hpayload, Nat.sub_add_cancel htwo, Bytes.ofNatLittle_littleAt (by omega),
    Bytes.ofNatLittle_littleAt (by omega), Bytes.slice_append data 0 2 2,
    Bytes.slice_append data 0 4 _, Bytes.slice, List.drop_zero,
    show 4 + (data.littleAt 0 2 - 2) = data.littleAt 0 2 + 2 by omega, List.take_append_drop]

/-- Every byte string is a run of framed records, and behind it begins none. -/
theorem exists_concat (data : Bytes) : ∃ fs rest, data = concat fs ++ rest ∧ Ends rest := by
  by_cases hends : Ends data
  · exact ⟨[], data, rfl, hends⟩
  · obtain ⟨f, behind, hdata⟩ := exists_frame hends
    have hshorter : behind.length < data.length := by
      rw [hdata, List.length_append, length_bytes]
      omega
    obtain ⟨fs, rest, hbehind, hrest⟩ := exists_concat behind
    exact ⟨f :: fs, rest, by rw [hdata, hbehind, concat_cons, List.append_assoc], hrest⟩
termination_by data.length

end Frame
end KernelProfile
