import Mathlib.Data.Nat.Digits.Lemmas
import KernelProfile.Text.Numeral

/-! Decimal and hexadecimal digits read back: the digits of a number give the number again, there
are as many as the number needs, and none of them is anything but a digit. -/
namespace KernelProfile.Text

/-- The value of an ASCII digit. -/
def digitOf (c : Char) : Nat := c.toNat - 0x30

theorem digitOf_digitChar {n : Nat} (h : n < 10) : digitOf n.digitChar = n := by
  show n.digitChar.toNat - 48 = n
  exact Nat.toNat_digitChar_sub_48_of_lt_ten h

theorem ofDigits_concat (ds : List Nat) (d : Nat) :
    ofDigits (ds ++ [d]) = ofDigits ds * 10 + d := by
  simp only [ofDigits, List.foldl_append, List.foldl_cons, List.foldl_nil]

theorem naturalDigits_of_lt {n : Nat} (h : n < 10) : naturalDigits n = [n.digitChar] := by
  show Nat.toDigits 10 n = _
  exact Nat.toDigits_of_lt_base h

theorem naturalDigits_of_le {n : Nat} (h : 10 ≤ n) :
    naturalDigits n = naturalDigits (n / 10) ++ [(n % 10).digitChar] := by
  show Nat.toDigits 10 n = _
  exact Nat.toDigits_of_base_le (by decide) h

theorem ofDigits_naturalDigits (n : Nat) : ofDigits ((naturalDigits n).map digitOf) = n := by
  induction n using Nat.strongRecOn with
  | ind n ih =>
    by_cases h : n < 10
    · rw [naturalDigits_of_lt h]
      simp [ofDigits, digitOf_digitChar h]
    · have hlt : n / 10 < n := by omega
      rw [naturalDigits_of_le (by omega), List.map_append, List.map_singleton, ofDigits_concat,
        ih _ hlt, digitOf_digitChar (by omega)]
      omega

theorem naturalDigits_ne_nil (n : Nat) : naturalDigits n ≠ [] := Nat.toDigits_ne_nil

theorem isDigit_of_mem_naturalDigits {n : Nat} {c : Char} (h : c ∈ naturalDigits n) :
    c.isDigit = true :=
  Nat.isDigit_of_mem_toDigits (by decide) (by decide) h

/-- The digits of a number open with a digit. -/
theorem exists_naturalDigits_cons (n : Nat) :
    ∃ c cs, naturalDigits n = c :: cs ∧ c.isDigit = true := by
  cases hds : naturalDigits n with
  | nil => exact absurd hds (naturalDigits_ne_nil n)
  | cons c cs =>
    have hmem : c ∈ naturalDigits n := by
      rw [hds]
      exact List.mem_cons_self
    exact ⟨c, cs, rfl, isDigit_of_mem_naturalDigits hmem⟩

theorem length_naturalDigits_le {n limit : Nat} (hpos : 0 < limit) (h : n < 10 ^ limit) :
    (naturalDigits n).length ≤ limit :=
  (Nat.length_toDigits_le_iff (by decide) hpos).mpr h

/-- No number but zero is written with a zero in front. -/
theorem eq_zero_of_naturalDigits_cons {n : Nat} {rest : List Char}
    (h : naturalDigits n = '0' :: rest) : n = 0 := by
  induction n using Nat.strongRecOn generalizing rest with
  | ind n ih =>
    by_cases hlt : n < 10
    · rw [naturalDigits_of_lt hlt] at h
      simpa using (List.cons.inj h).1
    · -- the first digit is that of the tenth part, which is not zero
      rw [naturalDigits_of_le (by omega)] at h
      cases hds : naturalDigits (n / 10) with
      | nil => exact absurd hds (naturalDigits_ne_nil _)
      | cons c ds =>
        rw [hds, List.cons_append, List.cons.injEq] at h
        have hzero : n / 10 = 0 := ih _ (by omega) (hds.trans (by rw [h.1]))
        omega

/-! ## Hexadecimal digits -/

theorem hexDigitValue?_hexDigit {n : Nat} (h : n < 16) : hexDigitValue? (hexDigit n) = some n := by
  have hall : ∀ d, d < 16 → hexDigitValue? (hexDigit d) = some d := by decide
  exact hall n h

theorem hexPadded_four (n : Nat) :
    hexPadded 4 n = [hexDigit (n / 16 / 16 / 16 % 16), hexDigit (n / 16 / 16 % 16),
      hexDigit (n / 16 % 16), hexDigit (n % 16)] := by
  simp only [hexPadded, List.nil_append, List.cons_append]

/-- The hexadecimal digits, of either case. -/
def hexDigits : List Char := "0123456789abcdefABCDEF".toList

/-- The value of a hexadecimal digit: its place among the small ones. -/
def hexDigitOf (c : Char) : Nat := "0123456789abcdef".toList.idxOf c.toLower

/-- The number that digits of base sixteen stand for, the last one being that of the units. -/
def hexValue (cs : List Char) : Nat := Nat.ofDigits 16 (cs.map hexDigitOf).reverse

theorem hexDigitValue?_of_mem {c : Char} (hc : c ∈ hexDigits) :
    hexDigitValue? c = some (hexDigitOf c) := by
  have hall : (hexDigits.all fun c => hexDigitValue? c == some (hexDigitOf c)) = true := by decide
  exact eq_of_beq (List.all_eq_true.mp hall c hc)

/-- The ranges of the digits hold no other characters. -/
theorem hexDigitValue?_eq_none {c : Char} (h : c ∉ hexDigits) : hexDigitValue? c = none := by
  have hascii : ∀ n < 128, (hexDigitValue? (Char.ofNat n)).isSome → Char.ofNat n ∈ hexDigits := by
    decide
  by_cases hlt : c.toNat < 128
  · have hc := hascii c.toNat hlt
    rw [Char.ofNat_toNat] at hc
    exact Option.not_isSome_iff_eq_none.mp (mt hc h)
  · have h₁ : ¬ c.toNat ≤ 0x39 := by omega
    have h₂ : ¬ c.toNat ≤ 0x66 := by omega
    have h₃ : ¬ c.toNat ≤ 0x46 := by omega
    simp [hexDigitValue?, h₁, h₂, h₃]

theorem mapM_hexDigitValue? {cs : List Char} (h : ∀ c ∈ cs, c ∈ hexDigits) :
    cs.mapM hexDigitValue? = some (cs.map hexDigitOf) := by
  induction cs with
  | nil => rfl
  | cons c cs ih =>
    have hc := hexDigitValue?_of_mem (h c List.mem_cons_self)
    have hcs := ih fun d hd => h d (List.mem_cons_of_mem _ hd)
    simp [List.mapM_cons, hc, hcs]

theorem mapM_hexDigitValue?_eq_none {cs : List Char} (h : ¬ ∀ c ∈ cs, c ∈ hexDigits) :
    cs.mapM hexDigitValue? = none := by
  induction cs with
  | nil => exact absurd nofun h
  | cons c cs ih =>
    by_cases hc : c ∈ hexDigits
    · have hcs := ih fun hall => h (List.forall_mem_cons.mpr ⟨hc, hall⟩)
      simp [List.mapM_cons, hcs]
    · simp [List.mapM_cons, hexDigitValue?_eq_none hc]

theorem hexValue_concat (cs : List Char) (c : Char) :
    hexValue (cs ++ [c]) = hexValue cs * 16 + hexDigitOf c := by
  simp only [hexValue, List.map_append, List.map_singleton, List.reverse_append,
    List.reverse_singleton, List.singleton_append, Nat.ofDigits_cons]
  omega

theorem foldl_hexDigits (cs : List Char) :
    (cs.map hexDigitOf).foldl (fun n d => n * 16 + d) 0 = hexValue cs := by
  induction cs using List.reverseRecOn with
  | nil => rfl
  | append_singleton cs c ih =>
    rw [List.map_append, List.foldl_append, ih, hexValue_concat]
    rfl

theorem digitChar_inj {a b : Nat} (ha : a < 16) (hb : b < 16)
    (h : a.digitChar = b.digitChar) : a = b := by
  have hall : ∀ a < 16, ∀ b < 16, Nat.digitChar a = Nat.digitChar b → a = b := by decide
  exact hall a ha b hb h

theorem toDigits_of_le {n : Nat} (h : 16 ≤ n) :
    Nat.toDigits 16 n = Nat.toDigits 16 (n / 16) ++ [(n % 16).digitChar] :=
  Nat.toDigits_of_base_le (by decide) h

theorem hexDigitOf_digitChar : ∀ n < 16, hexDigitOf n.digitChar = n := by
  decide

theorem digitChar_mem_hexDigits : ∀ n < 16, n.digitChar ∈ hexDigits := by
  decide

theorem hexValue_toDigits (n : Nat) : hexValue (Nat.toDigits 16 n) = n := by
  induction n using Nat.strongRecOn with
  | ind n ih =>
    by_cases hn : n < 16
    · have hone : hexValue [n.digitChar] = hexDigitOf n.digitChar := Nat.ofDigits_singleton ..
      rw [Nat.toDigits_of_lt_base hn, hone, hexDigitOf_digitChar n hn]
    · rw [toDigits_of_le (by omega), hexValue_concat, ih _ (by omega),
        hexDigitOf_digitChar _ (by omega)]
      omega

theorem mem_hexDigits_of_mem_toDigits {n : Nat} : ∀ c ∈ Nat.toDigits 16 n, c ∈ hexDigits := by
  induction n using Nat.strongRecOn with
  | ind n ih =>
    intro c hc
    by_cases hn : n < 16
    · rw [Nat.toDigits_of_lt_base hn, List.mem_singleton] at hc
      exact hc ▸ digitChar_mem_hexDigits n hn
    · rw [toDigits_of_le (by omega), List.mem_append, List.mem_singleton] at hc
      rcases hc with hc | rfl
      · exact ih _ (by omega) c hc
      · exact digitChar_mem_hexDigits _ (by omega)

/-- A single digit is not the digits of a number that needs more. -/
theorem toDigits_ne_singleton {n : Nat} (h : 16 ≤ n) (c : Char) : Nat.toDigits 16 n ≠ [c] := by
  intro heq
  have hlength := congrArg List.length heq
  have hpos : 0 < (Nat.toDigits 16 (n / 16)).length := Nat.length_toDigits_pos
  simp only [toDigits_of_le h, List.length_append, List.length_singleton] at hlength
  omega

theorem toDigits_inj {a b : Nat} (h : Nat.toDigits 16 a = Nat.toDigits 16 b) : a = b := by
  induction a using Nat.strongRecOn generalizing b with
  | ind a ih =>
    by_cases ha : a < 16
    · rw [Nat.toDigits_of_lt_base ha] at h
      by_cases hb : b < 16
      · rw [Nat.toDigits_of_lt_base hb] at h
        exact digitChar_inj ha hb (List.cons.inj h).1
      · exact absurd h.symm (toDigits_ne_singleton (by omega) _)
    · by_cases hb : b < 16
      · rw [Nat.toDigits_of_lt_base hb] at h
        exact absurd h (toDigits_ne_singleton (by omega) _)
      · rw [toDigits_of_le (by omega), toDigits_of_le (n := b) (by omega)] at h
        obtain ⟨hfront, hlast⟩ := List.append_inj' h rfl
        have hquotient : a / 16 = b / 16 := ih (a / 16) (by omega) hfront
        have hdigit : a % 16 = b % 16 :=
          digitChar_inj (by omega) (by omega) (List.cons.inj hlast).1
        omega

/-- Natural numbers have different hexadecimal texts. -/
theorem hex_inj {a b : Nat} (h : hex a = hex b) : a = b := by
  have hneg : ∀ n : Nat, ¬ (n : Int) < 0 := by omega
  simp only [hex, hneg, if_false, Int.natAbs_natCast] at h
  exact toDigits_inj (String.ofList_inj.mp h)

end KernelProfile.Text
