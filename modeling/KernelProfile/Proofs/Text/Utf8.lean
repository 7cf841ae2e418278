import KernelProfile.Text.Utf8

/-! UTF-8 read back. The state machine takes the bytes of a character to that character again, so
the bytes of a text are read as that text, with nothing replaced; and a zero byte stands for nothing
but the zero character. -/
namespace KernelProfile.Text.Utf8

/-! ## The bytes of a text -/

theorem toList_loop (bs : ByteArray) (i : Nat) (acc : List UInt8) :
    ByteArray.toList.loop bs i acc = acc.reverse ++ bs.data.toList.drop i := by
  fun_induction ByteArray.toList.loop bs i acc with
  | case1 i acc hlt ih =>
    have hlen : i < bs.data.toList.length := by simpa using hlt
    have hget : bs.get! i = bs.data.toList[i] := by
      simp only [ByteArray.get!, Array.getElem_toList]
      exact getElem!_pos bs.data i (by simpa using hlt)
    rw [ih, List.drop_eq_getElem_cons hlen, hget]
    simp
  | case2 i acc hge =>
    have hlen : bs.data.toList.length ≤ i := by simpa using hge
    rw [List.drop_eq_nil_of_le hlen, List.append_nil]

theorem encode_eq (s : String) : encode s = s.toList.flatMap String.utf8EncodeChar := by
  have hbytes : s.toUTF8 = s.toList.utf8Encode := by
    rw [String.toUTF8_eq_toByteArray, ← String.toByteArray_ofList, String.ofList_toList]
  rw [encode, hbytes, ByteArray.toList, toList_loop]
  simp [List.utf8Encode]

/-! ## The bytes of a character -/

theorem start_one {n : Nat} (h : n < 0x80) : start (UInt8.ofNat n) = .char (Char.ofNat n) := by
  have hn : (UInt8.ofNat n).toNat = n :=
    UInt8.toNat_ofNat_of_lt' (show n < 256 by omega)
  simp only [start, hn, h, if_true]

theorem start_two {n : Nat} (hlow : 2 ≤ n) (hhigh : n < 32) :
    start (UInt8.ofNat (n + 0xC0)) = .lead ⟨n, 1, 0x80, 0xBF⟩ := by
  have hn : (UInt8.ofNat (n + 0xC0)).toNat = n + 0xC0 :=
    UInt8.toNat_ofNat_of_lt' (show n + 0xC0 < 256 by omega)
  have h₁ : ¬ n + 0xC0 < 0x80 := by omega
  have h₂ : ¬ n + 0xC0 < 0xC2 := by omega
  have h₃ : n + 0xC0 < 0xE0 := by omega
  simp only [start, hn, h₁, h₂, h₃, if_false, if_true, Nat.add_sub_cancel]

/-- The second of three bytes is restricted where they would be an overlong form or a surrogate. -/
theorem start_three {n : Nat} (h : n < 16) :
    start (UInt8.ofNat (n + 0xE0)) =
      .lead ⟨n, 2, if n = 0 then 0xA0 else 0x80, if n = 13 then 0x9F else 0xBF⟩ := by
  by_cases h0 : n = 0
  · subst h0
    rfl
  by_cases h13 : n = 13
  · subst h13
    rfl
  have hn : (UInt8.ofNat (n + 0xE0)).toNat = n + 0xE0 :=
    UInt8.toNat_ofNat_of_lt' (show n + 0xE0 < 256 by omega)
  have h₁ : ¬ n + 0xE0 < 0x80 := by omega
  have h₂ : ¬ n + 0xE0 < 0xC2 := by omega
  have h₃ : ¬ n + 0xE0 < 0xE0 := by omega
  have h₄ : ¬ n + 0xE0 = 0xE0 := by omega
  have h₅ : ¬ n + 0xE0 = 0xED := by omega
  have h₆ : n + 0xE0 < 0xF0 := by omega
  simp only [start, hn, beq_iff_eq, h0, h13, h₁, h₂, h₃, h₄, h₅, h₆, if_false, if_true,
    Nat.add_sub_cancel]

/-- The second of four bytes is restricted where they would be an overlong form or past the last
plane. -/
theorem start_four {n : Nat} (h : n < 5) :
    start (UInt8.ofNat (n + 0xF0)) =
      .lead ⟨n, 3, if n = 0 then 0x90 else 0x80, if n = 4 then 0x8F else 0xBF⟩ := by
  match n, h with
  | 0, _ | 1, _ | 2, _ | 3, _ | 4, _ => rfl

theorem scan_lead {b : UInt8} {p : Pending} (h : start b = .lead p) (rest : List UInt8) :
    scan none (b :: rest) = scan (some p) rest := by
  rw [scan, h]

/-- A byte that continues the sequence under way. -/
theorem scan_tail {p : Pending} {n : Nat} (hlow : p.low ≤ n + 0x80) (hhigh : n + 0x80 ≤ p.high)
    (hn : n < 64) (rest : List UInt8) :
    scan (some p) (UInt8.ofNat (n + 0x80) :: rest) =
      if p.missing ≤ 1 then some (Char.ofNat (p.bits * 64 + n)) :: scan none rest
      else scan (some ⟨p.bits * 64 + n, p.missing - 1, 0x80, 0xBF⟩) rest := by
  have hbyte : (UInt8.ofNat (n + 0x80)).toNat = n + 0x80 :=
    UInt8.toNat_ofNat_of_lt' (show n + 0x80 < 256 by omega)
  have hrange : (decide (p.low ≤ n + 0x80) && decide (n + 0x80 ≤ p.high)) = true := by
    simp only [hlow, hhigh, decide_true, Bool.and_self]
  rw [scan, hbyte, if_pos hrange]
  simp only [Nat.add_sub_cancel]

/-- The last byte of a sequence, which no range restricts further. -/
theorem scan_last {bits n : Nat} (hn : n < 64) (rest : List UInt8) :
    scan (some ⟨bits, 1, 0x80, 0xBF⟩) (UInt8.ofNat (n + 0x80) :: rest) =
      some (Char.ofNat (bits * 64 + n)) :: scan none rest := by
  rw [scan_tail (by dsimp only; omega) (by dsimp only; omega) hn]
  exact if_pos (Nat.le_refl 1)

/-- A byte of a sequence that is not its last. -/
theorem scan_more {bits missing low high n : Nat} (hlow : low ≤ n + 0x80) (hhigh : n + 0x80 ≤ high)
    (hn : n < 64) (rest : List UInt8) :
    scan (some ⟨bits, missing + 2, low, high⟩) (UInt8.ofNat (n + 0x80) :: rest) =
      scan (some ⟨bits * 64 + n, missing + 1, 0x80, 0xBF⟩) rest := by
  rw [scan_tail hlow hhigh hn]
  exact if_neg (by dsimp only; omega)

/-- **The bytes of a character are read as that character.** -/
theorem scan_utf8EncodeChar (c : Char) (rest : List UInt8) :
    scan none (String.utf8EncodeChar c ++ rest) = some c :: scan none rest := by
  have hvalid : c.val.toNat < 0xD800 ∨ 0xDFFF < c.val.toNat ∧ c.val.toNat < 0x110000 := c.valid
  have hc : Char.ofNat c.val.toNat = c := Char.ofNat_toNat c
  unfold String.utf8EncodeChar
  generalize c.val.toNat = v at hvalid hc
  subst hc
  dsimp only
  -- on the number of bytes; the bits of all of them make up the value again
  split
  · rw [List.cons_append, List.nil_append, scan, start_one (by omega)]
  split
  · have hv : v / 64 % 32 * 64 + v % 64 = v := by omega
    simp only [List.cons_append, List.nil_append]
    rw [scan_lead (start_two (by omega) (by omega)), scan_last (by omega), hv]
  split
  · have hlow : (if v / 4096 % 16 = 0 then 0xA0 else 0x80) ≤ v / 64 % 64 + 0x80 := by
      split <;> omega
    have hhigh : v / 64 % 64 + 0x80 ≤ if v / 4096 % 16 = 13 then 0x9F else 0xBF := by
      split <;> omega
    have hv : (v / 4096 % 16 * 64 + v / 64 % 64) * 64 + v % 64 = v := by omega
    simp only [List.cons_append, List.nil_append]
    rw [scan_lead (start_three (by omega)), scan_more hlow hhigh (by omega), scan_last (by omega),
      hv]
  · have hlow : (if v / 262144 % 8 = 0 then 0x90 else 0x80) ≤ v / 4096 % 64 + 0x80 := by
      split <;> omega
    have hhigh : v / 4096 % 64 + 0x80 ≤ if v / 262144 % 8 = 4 then 0x8F else 0xBF := by
      split <;> omega
    have hv : ((v / 262144 % 8 * 64 + v / 4096 % 64) * 64 + v / 64 % 64) * 64 + v % 64 = v := by
      omega
    simp only [List.cons_append, List.nil_append]
    rw [scan_lead (start_four (by omega)), scan_more hlow hhigh (by omega),
      scan_more (by omega) (by omega) (by omega), scan_last (by omega), hv]

theorem ofNat_ne_zero {n : Nat} (hpos : 0 < n) (hlt : n < 256) : (0 : UInt8) ≠ UInt8.ofNat n := by
  intro h
  have hn : (0 : UInt8).toNat = n := by rw [h, UInt8.toNat_ofNat_of_lt' hlt]
  exact absurd hn (Nat.ne_of_lt hpos)

/-- Only the zero character has a zero byte. -/
theorem zero_notMem_utf8EncodeChar {c : Char} (h : c ≠ '\x00') : 0 ∉ String.utf8EncodeChar c := by
  have hpos : 0 < c.val.toNat := by
    rcases Nat.eq_zero_or_pos c.val.toNat with hzero | hpos
    · have hc : Char.ofNat c.val.toNat = c := Char.ofNat_toNat c
      rw [hzero] at hc
      exact absurd hc.symm h
    · exact hpos
  unfold String.utf8EncodeChar
  generalize c.val.toNat = v at hpos
  dsimp only
  split
  · simp only [List.mem_singleton]
    exact ofNat_ne_zero hpos (by omega)
  split
  · simp only [List.mem_cons, List.not_mem_nil, or_false, not_or]
    exact ⟨ofNat_ne_zero (by omega) (by omega), ofNat_ne_zero (by omega) (by omega)⟩
  split
  · simp only [List.mem_cons, List.not_mem_nil, or_false, not_or]
    exact ⟨ofNat_ne_zero (by omega) (by omega), ofNat_ne_zero (by omega) (by omega),
      ofNat_ne_zero (by omega) (by omega)⟩
  · simp only [List.mem_cons, List.not_mem_nil, or_false, not_or]
    exact ⟨ofNat_ne_zero (by omega) (by omega), ofNat_ne_zero (by omega) (by omega),
      ofNat_ne_zero (by omega) (by omega), ofNat_ne_zero (by omega) (by omega)⟩

/-! ## Whole texts -/

theorem scan_encode (s : String) : scan none (encode s) = s.toList.map some := by
  rw [encode_eq]
  induction s.toList with
  | nil => rfl
  | cons c cs ih => rw [List.flatMap_cons, scan_utf8EncodeChar, ih, List.map_cons]

/-- **The bytes of a text are read as that text.** -/
theorem decodeLossy_encode (s : String) : decodeLossy (encode s) = s := by
  have hmap : (s.toList.map some).map (fun c => c.getD '\uFFFD') = s.toList := by
    rw [List.map_map]
    exact List.map_id _
  rw [decodeLossy, scan_encode, hmap, String.ofList_toList]

/-- A text without a zero character has no zero byte. -/
theorem zero_notMem_encode {s : String} (h : '\x00' ∉ s.toList) : 0 ∉ encode s := by
  intro hmem
  rw [encode_eq, List.mem_flatMap] at hmem
  obtain ⟨c, hc, hzero⟩ := hmem
  have hne : c ≠ '\x00' := by
    intro heq
    exact h (heq ▸ hc)
  exact zero_notMem_utf8EncodeChar hne hzero

end KernelProfile.Text.Utf8
