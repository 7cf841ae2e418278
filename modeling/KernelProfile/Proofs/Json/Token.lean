import KernelProfile.Json.Reader
import KernelProfile.Json.Writer
import KernelProfile.Proofs.Text.Numeral

/-! Tokens of JSON text read back: white space, strings and integers. Each lemma has the token in
front of an arbitrary rest, which the reader hands on untouched. -/
namespace KernelProfile.Json

/-! ## White space -/

theorem skipSpace_cons {c : Char} (h : isSpace c = false) (rest : List Char) :
    skipSpace (c :: rest) = c :: rest := by
  simp [skipSpace, h]

theorem skipSpace_space {c : Char} (h : isSpace c = true) (rest : List Char) :
    skipSpace (c :: rest) = skipSpace rest := by
  simp [skipSpace, h]

theorem skipSpace_replicate (n : Nat) (rest : List Char) :
    skipSpace (List.replicate n ' ' ++ rest) = skipSpace rest := by
  induction n with
  | zero => rfl
  | succ n ih =>
    show skipSpace (' ' :: (List.replicate n ' ' ++ rest)) = _
    rw [skipSpace_space (by decide), ih]

theorem skipSpace_lineBreak (layout : Layout) (depth : Nat) (rest : List Char) :
    skipSpace (layout.lineBreak depth ++ rest) = skipSpace rest := by
  cases h : layout.indent with
  | none => simp [Layout.lineBreak, h]
  | some width =>
    simp only [Layout.lineBreak, h, List.cons_append]
    rw [skipSpace_space (by decide), skipSpace_replicate]

/-- A separator is a comma and white space. -/
theorem separator_append (layout : Layout) (depth : Nat) (rest : List Char) :
    ∃ gap, layout.separator depth ++ rest = ',' :: gap ∧ skipSpace gap = skipSpace rest := by
  cases h : layout.indent with
  | none =>
    refine ⟨' ' :: rest, by simp [Layout.separator, h], ?_⟩
    exact skipSpace_space (by decide) rest
  | some width =>
    refine ⟨layout.lineBreak depth ++ rest, by simp [Layout.separator, h], ?_⟩
    exact skipSpace_lineBreak layout depth rest

/-! ## Strings -/

/-- Four digits read as the unit that they were written for. -/
theorem readUnit_hexPadded {n : Nat} (h : n < 0x10000) (rest : List Char) :
    readUnit (Text.hexPadded 4 n ++ rest) = some (n, rest) := by
  have hvalue : ((n / 16 / 16 / 16 % 16 * 16 + n / 16 / 16 % 16) * 16 + n / 16 % 16) * 16
      + n % 16 = n := by omega
  have h16 : ∀ m, Text.hexDigitValue? (Text.hexDigit (m % 16)) = some (m % 16) := by
    intro m
    exact Text.hexDigitValue?_hexDigit (Nat.mod_lt _ (by decide))
  rw [Text.hexPadded_four]
  simp only [List.cons_append, List.nil_append, readUnit, h16, Option.bind_eq_bind,
    Option.bind_some, Option.pure_def, hvalue]

theorem unitChar_toNat (c : Char) : unitChar c.toNat = .ok c := by
  have hvalid : c.toNat.isValidChar := c.valid
  simp [unitChar, hvalid]

/-- No character is half of a surrogate pair. -/
theorem toNat_not_surrogate (c : Char) : c.toNat < 0xD800 ∨ 0xE000 ≤ c.toNat := by
  have hvalid : c.toNat.isValidChar := c.valid
  rcases hvalid with h | h
  · exact .inl h
  · exact .inr (by omega)

theorem toNat_lt (c : Char) : c.toNat < 0x110000 := by
  have hvalid : c.toNat.isValidChar := c.valid
  rcases hvalid with h | h <;> omega

/-- A unit that is no first half stands for itself, whatever follows it. -/
theorem readPair_single {c : Char} (rest : List Char) :
    readPair c.toNat rest = .ok (c, rest) := by
  have hno : ¬ (0xD800 ≤ c.toNat ∧ c.toNat < 0xDC00) := by
    rcases toNat_not_surrogate c with h | h <;> omega
  -- even an escape behind it is not taken for a second half
  unfold readPair
  split
  · simp [hno, unitChar_toNat, Except.map]
  · rw [unitChar_toNat]
    rfl

theorem readEscape_unit {c : Char} (h : c.toNat < 0x10000) (rest : List Char) :
    readEscape ('u' :: Text.hexPadded 4 c.toNat ++ rest) = .ok (c, rest) := by
  simp only [List.cons_append, readEscape, readUnit_hexPadded h, readPair_single]

/-- Two units that form a pair are the character that they were split from. -/
theorem readPair_pair {c : Char} (high low : Nat) (rest : List Char)
    (hhigh : 0xD800 ≤ high ∧ high < 0xDC00) (hlow : 0xDC00 ≤ low ∧ low < 0xE000)
    (hsum : 0x10000 + (high - 0xD800) * 1024 + (low - 0xDC00) = c.toNat) :
    readPair high ('\\' :: 'u' :: Text.hexPadded 4 low ++ rest) = .ok (c, rest) := by
  have hread : readUnit (Text.hexPadded 4 low ++ rest) = some (low, rest) :=
    readUnit_hexPadded (by omega) rest
  simp only [List.cons_append, readPair, hread, hhigh, hlow, decide_true, Bool.and_self, if_true,
    hsum, Char.ofNat_toNat]

/-- The escape of such a pair is read as the character. -/
theorem readEscape_pair {c : Char} (high low : Nat) (rest : List Char)
    (hhigh : 0xD800 ≤ high ∧ high < 0xDC00) (hlow : 0xDC00 ≤ low ∧ low < 0xE000)
    (hsum : 0x10000 + (high - 0xD800) * 1024 + (low - 0xDC00) = c.toNat) :
    readEscape ('u' :: Text.hexPadded 4 high ++ ('\\' :: 'u' :: Text.hexPadded 4 low ++ rest))
      = .ok (c, rest) := by
  have hread := readUnit_hexPadded (n := high) (by omega)
    ('\\' :: 'u' :: Text.hexPadded 4 low ++ rest)
  rw [List.cons_append, readEscape, hread]
  exact readPair_pair high low rest hhigh hlow hsum

/-- A written character is read as that character, in front of what the rest reads as. -/
theorem readChars_escapeChar (fuel : Nat) (c : Char) (rest : List Char) :
    readChars (fuel + 1) (escapeChar c ++ rest)
      = (readChars fuel rest).map fun (ds, tail) => (c :: ds, tail) := by
  have hstep : ∀ escape, readEscape (escape ++ rest) = .ok (c, rest) →
      readChars (fuel + 1) ('\\' :: escape ++ rest)
        = (readChars fuel rest).map fun (ds, tail) => (c :: ds, tail) := by
    intro escape hread
    have hquote : ('\\' : Char) ≠ '"' := by decide
    simp only [List.cons_append, readChars, hquote, if_false, if_true, hread, bind, Except.bind]
    cases readChars fuel rest <;> rfl
  unfold escapeChar
  simp only
  split
  · rename_i hc
    rw [eq_of_beq hc] at hstep ⊢
    exact hstep ['"'] rfl
  split
  · rename_i hc
    rw [eq_of_beq hc] at hstep ⊢
    exact hstep ['\\'] rfl
  split
  · rename_i hc
    rw [eq_of_beq hc] at hstep ⊢
    exact hstep ['n'] rfl
  split
  · rename_i hc
    rw [eq_of_beq hc] at hstep ⊢
    exact hstep ['r'] rfl
  split
  · rename_i hc
    rw [eq_of_beq hc] at hstep ⊢
    exact hstep ['t'] rfl
  split
  · rename_i hc
    have hc : c = '\x0c' := by
      rw [← Char.ofNat_toNat c, eq_of_beq hc]
    rw [hc] at hstep ⊢
    exact hstep ['f'] rfl
  split
  · rename_i hc
    have hc : c = '\x08' := by
      rw [← Char.ofNat_toNat c, eq_of_beq hc]
    rw [hc] at hstep ⊢
    exact hstep ['b'] rfl
  rename_i hquote hback _ _ _ _ _
  split
  · -- a character that shows stands for itself
    rename_i hshow
    have hge : ¬ c.toNat < 0x20 := by
      simp only [Bool.and_eq_true, decide_eq_true_eq] at hshow
      omega
    have hquote' : c ≠ '"' := by simpa using hquote
    have hback' : c ≠ '\\' := by simpa using hback
    simp only [List.cons_append, List.nil_append, readChars, hquote', hback', hge, if_false]
    cases readChars fuel rest <;> rfl
  split
  · rename_i hlt
    exact hstep _ (readEscape_unit hlt rest)
  · -- outside the first plane: both halves of the pair are in their ranges
    rename_i hlt
    have hmax := toNat_lt c
    have hread := readEscape_pair (c := c) (0xD800 + (c.toNat - 0x10000) / 1024)
      (0xDC00 + (c.toNat - 0x10000) % 1024) rest (by omega) (by omega) (by omega)
    rw [← List.append_assoc] at hread
    rw [unitEscape, List.cons_append]
    exact hstep _ hread

theorem readChars_flatMap (cs rest : List Char) (fuel : Nat) (h : cs.length < fuel) :
    readChars fuel (cs.flatMap escapeChar ++ '"' :: rest) = .ok (cs, rest) := by
  induction cs generalizing fuel with
  | nil =>
    obtain ⟨fuel, rfl⟩ : ∃ f, fuel = f + 1 := ⟨fuel - 1, by simp at h; omega⟩
    simp [readChars]
  | cons c cs ih =>
    obtain ⟨fuel, rfl⟩ : ∃ f, fuel = f + 1 := ⟨fuel - 1, by simp at h; omega⟩
    have hlt : cs.length < fuel := by simpa using h
    rw [List.flatMap_cons, List.append_assoc, readChars_escapeChar, ih fuel hlt]
    rfl

theorem escapeChar_ne_nil (c : Char) : escapeChar c ≠ [] := by
  unfold escapeChar unitEscape
  simp only
  repeat' split
  all_goals simp

theorem length_le_flatMap (cs : List Char) : cs.length ≤ (cs.flatMap escapeChar).length := by
  induction cs with
  | nil => simp
  | cons c cs ih =>
    have hpos : 0 < (escapeChar c).length := List.length_pos_iff.mpr (escapeChar_ne_nil c)
    simp only [List.flatMap_cons, List.length_append, List.length_cons]
    omega

/-- A written string, behind its opening quote, is read as that string. -/
theorem readString_flatMap (s : String) (rest : List Char) :
    readString (s.toList.flatMap escapeChar ++ '"' :: rest) = .ok (s, rest) := by
  have hle := length_le_flatMap s.toList
  have hlen : s.toList.length < (s.toList.flatMap escapeChar ++ '"' :: rest).length + 1 := by
    rw [List.length_append]
    omega
  have hread := readChars_flatMap s.toList rest _ hlen
  simp only [readString, hread, Except.map, String.ofList_toList]

/-! ## Integers -/

/-- A character that would make the text of an integer longer, or a double of it. -/
def continuesNumber (c : Char) : Bool := c.isDigit || c == '.' || c == 'e' || c == 'E'

/-- The text of an integer ends before this rest. -/
def Stops (rest : List Char) : Prop := ∀ c ∈ rest.head?, continuesNumber c = false

theorem stops_cons {c : Char} (h : continuesNumber c = false) (rest : List Char) :
    Stops (c :: rest) := by
  intro c' hc'
  simp only [List.head?_cons, Option.mem_def, Option.some.injEq] at hc'
  rw [← hc']
  exact h

theorem readDigits_of_stops {rest : List Char} (h : Stops rest) :
    readDigits rest = ([], rest) := by
  cases rest with
  | nil => rfl
  | cons c rest =>
    have hc := h c (by simp)
    have hdigit : c.isDigit = false := by
      simp only [continuesNumber, Bool.or_eq_false_iff] at hc
      exact hc.1.1.1
    simp [readDigits, hdigit]

theorem readDigits_append {ds : List Char} (hds : ∀ c ∈ ds, c.isDigit = true)
    {rest : List Char} (h : Stops rest) :
    readDigits (ds ++ rest) = (ds.map Text.digitOf, rest) := by
  induction ds with
  | nil => exact readDigits_of_stops h
  | cons c ds ih =>
    have hc := hds c List.mem_cons_self
    have hrest := ih fun c hc => hds c (List.mem_cons_of_mem _ hc)
    simp [readDigits, hc, hrest, Text.digitOf]

theorem readFraction_of_stops {rest : List Char} (h : Stops rest) :
    readFraction rest = none := by
  unfold readFraction
  split
  · have hdot := h '.' (by simp)
    simp [continuesNumber] at hdot
  · rfl

theorem readExponent_of_stops {rest : List Char} (h : Stops rest) :
    readExponent rest = none := by
  cases rest with
  | nil => rfl
  | cons c rest =>
    have hc := h c (by simp)
    simp only [continuesNumber, Bool.or_eq_false_iff, beq_eq_false_iff_ne] at hc
    simp [readExponent, hc]

theorem readWhole_naturalDigits (n : Nat) {rest : List Char} (h : Stops rest) :
    readWhole (Text.naturalDigits n ++ rest)
      = ((Text.naturalDigits n).map Text.digitOf, rest) := by
  by_cases hzero : n = 0
  · subst hzero
    rfl
  · have hread := readDigits_append
      (fun c hc => Text.isDigit_of_mem_naturalDigits (n := n) hc) h
    -- a leading zero would be read alone, but only zero itself is written with one
    unfold readWhole
    split
    · rename_i tail heq
      cases hds : Text.naturalDigits n with
      | nil => exact absurd hds (Text.naturalDigits_ne_nil n)
      | cons c ds =>
        rw [hds, List.cons_append, List.cons.injEq] at heq
        rw [heq.1] at hds
        exact absurd (Text.eq_zero_of_naturalDigits_cons hds) hzero
    · exact hread

/-- The digits of a number that is not too long are read as that number. -/
theorem readNumber_naturalDigits (negative : Bool) {n : Nat}
    (hn : n < 10 ^ Text.literalLimit) {rest : List Char} (h : Stops rest) :
    readNumber negative (Text.naturalDigits n ++ rest)
      = .ok (.int (if negative then -(n : Int) else n), rest) := by
  have hlen : (Text.naturalDigits n).length ≤ Text.literalLimit :=
    Text.length_naturalDigits_le (by decide) hn
  have hbounded : Text.boundedDigits ((Text.naturalDigits n).map Text.digitOf) = .ok n := by
    rw [Text.boundedDigits, List.length_map, if_neg (by omega), Text.ofDigits_naturalDigits]
  have hne : ((Text.naturalDigits n).map Text.digitOf).isEmpty = false := by
    simp [Text.naturalDigits_ne_nil]
  simp [readNumber, readWhole_naturalDigits n h, hne, readFraction_of_stops h,
    readExponent_of_stops h, hbounded]

end KernelProfile.Json
