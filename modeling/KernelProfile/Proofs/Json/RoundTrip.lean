import KernelProfile.Proofs.Json.Token
import KernelProfile.Proofs.Table

/-! JSON values read back from their text. The text of a value, in front of a rest that does not
prolong a number, is read as that value and leaves the rest, with any fuel above the length of
the text; arrays and objects add a bracket for every level, so the fuel never runs out. -/
namespace KernelProfile.Json

/-- A value that its text shows exactly: it has no double, no integer with more digits than a
literal may have, and no object with a key twice. -/
inductive Plain : Json → Prop
  | null : Plain .null
  | bool (b : Bool) : Plain (.bool b)
  | int {n : Int} (h : n.natAbs < 10 ^ Text.literalLimit) : Plain (.int n)
  | str (s : String) : Plain (.str s)
  | arr {items : List Json} (h : ∀ item ∈ items, Plain item) : Plain (.arr items)
  | obj {members : List (String × Json)} (hd : (members.map Prod.fst).Nodup)
    (h : ∀ e ∈ members, Plain e.2) : Plain (.obj members)

/-- The text of a value is read as the value, wherever it stands. It opens with a character that
is neither white space nor a closing bracket, so that the reader takes it up at once. -/
structure Readable (layout : Layout) (depth : Nat) (v : Json) : Prop where
  opens : ∃ c cs, valueChars layout depth v = c :: cs ∧ isSpace c = false ∧ c ≠ ']'
  reads : ∀ fuel rest, Stops rest → (valueChars layout depth v).length < fuel →
    readValue fuel (valueChars layout depth v ++ rest) = .ok (v, rest)

variable {layout : Layout} {depth fuel : Nat}

theorem Readable.skipSpace_append {v : Json} (h : Readable layout depth v) (rest : List Char) :
    skipSpace (valueChars layout depth v ++ rest) = valueChars layout depth v ++ rest := by
  obtain ⟨c, cs, hcs, hc, -⟩ := h.opens
  rw [hcs, List.cons_append, skipSpace_cons hc]

theorem Readable.length_pos {v : Json} (h : Readable layout depth v) :
    0 < (valueChars layout depth v).length := by
  obtain ⟨c, cs, hcs, -⟩ := h.opens
  simp [hcs]

/-! ## What ends a number -/

theorem stops_lineBreak {c : Char} (hc : continuesNumber c = false) (rest : List Char) :
    Stops (layout.lineBreak depth ++ c :: rest) := by
  cases h : layout.indent with
  | none => simpa [Layout.lineBreak, h] using stops_cons hc rest
  | some width =>
    simp only [Layout.lineBreak, h, List.cons_append]
    exact stops_cons (by decide) _

/-! ## Scalars -/

theorem readScalar_digit {c : Char} (hc : c.isDigit = true) (cs : List Char) :
    readScalar (c :: cs) = readNumber false (c :: cs) := by
  have hne : ∀ d : Char, d.isDigit = false → c ≠ d := by
    rintro d hd rfl
    rw [hc] at hd
    cases hd
  unfold readScalar
  split
  · exact absurd (List.cons.inj ‹_›).1 (hne _ (by decide))
  · exact absurd (List.cons.inj ‹_›).1 (hne _ (by decide))
  · exact absurd (List.cons.inj ‹_›).1 (hne _ (by decide))
  · exact absurd (List.cons.inj ‹_›).1 (hne _ (by decide))
  · exact absurd (List.cons.inj ‹_›).1 (hne _ (by decide))
  · exact absurd (List.cons.inj ‹_›).1 (hne _ (by decide))
  · exact absurd (List.cons.inj ‹_›).1 (hne _ (by decide))
  · rfl

theorem readScalar_minus {c : Char} (hc : c.isDigit = true) (cs : List Char) :
    readScalar ('-' :: c :: cs) = readNumber true (c :: cs) := by
  have hne : c ≠ 'I' := by
    rintro rfl
    exact absurd hc (by decide)
  simp [readScalar, hne]

/-- An integer is read back with its sign. -/
theorem readScalar_decimalChars {n : Int} (hn : n.natAbs < 10 ^ Text.literalLimit)
    {rest : List Char} (h : Stops rest) :
    readScalar (Text.decimalChars n ++ rest) = .ok (.int n, rest) := by
  cases n with
  | ofNat m =>
    obtain ⟨c, cs, hcs, hc⟩ := Text.exists_naturalDigits_cons m
    have hread := readNumber_naturalDigits false (n := m) (by simpa using hn) h
    rw [hcs, List.cons_append] at hread
    simp only [Text.decimalChars, hcs, List.cons_append]
    rw [readScalar_digit hc, hread]
    rfl
  | negSucc m =>
    obtain ⟨c, cs, hcs, hc⟩ := Text.exists_naturalDigits_cons (m + 1)
    have hread := readNumber_naturalDigits true (n := m + 1) (by simpa using hn) h
    rw [hcs, List.cons_append] at hread
    simp only [Text.decimalChars, hcs, List.cons_append]
    rw [readScalar_minus hc, hread]
    rfl

/-- A value whose text opens neither a string nor a bracket is read as a scalar. -/
theorem readable_of_scalar {v : Json} (c : Char) (cs : List Char)
    (hcs : valueChars layout depth v = c :: cs)
    (hc : isSpace c = false ∧ c ≠ ']' ∧ c ≠ '"' ∧ c ≠ '[' ∧ c ≠ '\x7b')
    (hread : ∀ rest, Stops rest → readScalar (c :: cs ++ rest) = .ok (v, rest)) :
    Readable layout depth v where
  opens := ⟨c, cs, hcs, hc.1, hc.2.1⟩
  reads := by
    intro fuel rest hrest hfuel
    obtain ⟨fuel, rfl⟩ : ∃ f, fuel = f + 1 := ⟨fuel - 1, by omega⟩
    rw [hcs, ← hread rest hrest, List.cons_append, readValue]
    · simp [hc]
    · simp [hc]
    · simp [hc]

theorem readable_int {n : Int} (hn : n.natAbs < 10 ^ Text.literalLimit) :
    Readable layout depth (.int n) := by
  have hopen : ∃ c cs, Text.decimalChars n = c :: cs ∧ (c.isDigit = true ∨ c = '-') := by
    cases n with
    | ofNat m =>
      obtain ⟨c, cs, hcs, hc⟩ := Text.exists_naturalDigits_cons m
      exact ⟨c, cs, hcs, .inl hc⟩
    | negSucc m => exact ⟨'-', Text.naturalDigits (m + 1), rfl, .inr rfl⟩
  obtain ⟨c, cs, hcs, hc⟩ := hopen
  have hne : ∀ d : Char, d.isDigit = false → d ≠ '-' → c ≠ d := by
    rintro d hd hminus rfl
    rcases hc with hc | hc
    · rw [hc] at hd
      cases hd
    · exact hminus hc
  have hspace : isSpace c = false := by
    simp [isSpace, hne ' ' (by decide) (by decide), hne '\t' (by decide) (by decide),
      hne '\n' (by decide) (by decide), hne '\r' (by decide) (by decide)]
  refine readable_of_scalar c cs (by rw [valueChars, hcs])
    ⟨hspace, hne _ (by decide) (by decide), hne _ (by decide) (by decide),
      hne _ (by decide) (by decide), hne _ (by decide) (by decide)⟩ ?_
  intro rest hrest
  rw [← hcs]
  exact readScalar_decimalChars hn hrest

theorem readable_str (s : String) : Readable layout depth (.str s) where
  opens := ⟨'"', _, by rw [valueChars, stringChars, List.cons_append], by decide, by decide⟩
  reads := by
    intro fuel rest _ hfuel
    obtain ⟨fuel, rfl⟩ : ∃ f, fuel = f + 1 := ⟨fuel - 1, by omega⟩
    simp only [valueChars, stringChars, List.cons_append, List.append_assoc, List.nil_append,
      readValue, readString_flatMap]
    rfl

/-! ## Arrays -/

theorem readItems_last {cs rest tail : List Char} {item : Json}
    (hitem : readValue fuel cs = .ok (item, rest)) (hrest : skipSpace rest = ']' :: tail) :
    readItems (fuel + 1) cs = .ok ([item], tail) := by
  simp only [readItems, hitem, bind, Except.bind, hrest]

theorem readItems_comma {cs rest gap tail : List Char} {item : Json} {items : List Json}
    (hitem : readValue fuel cs = .ok (item, rest)) (hrest : skipSpace rest = ',' :: gap)
    (hitems : readItems fuel (skipSpace gap) = .ok (items, tail)) :
    readItems (fuel + 1) cs = .ok (item :: items, tail) := by
  simp only [readItems, hitem, bind, Except.bind, hrest, hitems]

theorem readItems_itemsChars {items : List Json} {tail rest : List Char}
    (htail : skipSpace tail = ']' :: rest) (hstops : Stops tail) :
    ∀ (item : Json) (fuel : Nat), (∀ i ∈ item :: items, Readable layout depth i) →
      (valueChars layout depth item).length + (itemsChars layout depth items).length < fuel →
      readItems (fuel + 1)
        (valueChars layout depth item ++ (itemsChars layout depth items ++ tail))
        = .ok (item :: items, rest) := by
  induction items with
  | nil =>
    intro item fuel hall hfuel
    have hitem := (hall item List.mem_cons_self).reads fuel tail hstops (by omega)
    exact readItems_last hitem htail
  | cons next items ih =>
    intro item fuel hall hfuel
    have hlast := hall item List.mem_cons_self
    have hnext := hall next (List.mem_cons_of_mem _ List.mem_cons_self)
    have hpos := hlast.length_pos
    simp only [itemsChars, List.length_append] at hfuel
    obtain ⟨fuel, rfl⟩ : ∃ f, fuel = f + 1 := ⟨fuel - 1, by omega⟩
    have hitems := ih next fuel (fun i hi => hall i (List.mem_cons_of_mem _ hi)) (by omega)
    -- the separator is skipped up to the next item
    simp only [itemsChars, List.append_assoc]
    obtain ⟨gap, hgap, hskip⟩ := separator_append layout depth
      (valueChars layout depth next ++ (itemsChars layout depth items ++ tail))
    rw [hnext.skipSpace_append] at hskip
    rw [hgap]
    have hitem := hlast.reads (fuel + 1) (',' :: gap) (stops_cons (by decide) gap) (by omega)
    refine readItems_comma hitem (skipSpace_cons (by decide) gap) ?_
    rw [hskip]
    exact hitems

theorem readable_arr_nil : Readable layout depth (.arr []) where
  opens := ⟨'[', [']'], by rw [valueChars], by decide, by decide⟩
  reads := by
    intro fuel rest _ hfuel
    obtain ⟨fuel, rfl⟩ : ∃ f, fuel = f + 1 := ⟨fuel - 1, by omega⟩
    have hskip : skipSpace (']' :: rest) = ']' :: rest := skipSpace_cons (by decide) rest
    simp only [valueChars, List.cons_append, List.nil_append, readValue, hskip]

theorem readable_arr_cons {item : Json} {items : List Json}
    (hall : ∀ i ∈ item :: items, Readable layout (depth + 1) i) :
    Readable layout depth (.arr (item :: items)) where
  opens := ⟨'[', _, by simp only [valueChars, List.cons_append]; rfl, by decide, by decide⟩
  reads := by
    intro fuel rest _ hfuel
    have hitem := hall item List.mem_cons_self
    simp only [valueChars, List.length_append, List.length_cons] at hfuel
    obtain ⟨fuel, rfl⟩ : ∃ f, fuel = f + 2 := ⟨fuel - 2, by omega⟩
    have htail : skipSpace (layout.lineBreak depth ++ ']' :: rest) = ']' :: rest := by
      rw [skipSpace_lineBreak, skipSpace_cons (by decide)]
    have hitems := readItems_itemsChars htail (stops_lineBreak (by decide) rest) item fuel hall
      (by omega)
    -- the opening bracket is followed by the first item, which is no closing bracket
    have hskip : skipSpace (layout.lineBreak (depth + 1) ++ (valueChars layout (depth + 1) item ++
        (itemsChars layout (depth + 1) items ++ (layout.lineBreak depth ++ ']' :: rest))))
        = valueChars layout (depth + 1) item ++
          (itemsChars layout (depth + 1) items ++ (layout.lineBreak depth ++ ']' :: rest)) := by
      rw [skipSpace_lineBreak, hitem.skipSpace_append]
    obtain ⟨c, cs, hcs, -, hc⟩ := hitem.opens
    simp only [valueChars, List.cons_append, List.append_assoc, List.nil_append, readValue]
    rw [hskip]
    rw [hcs, List.cons_append] at hitems ⊢
    split
    · rename_i heq
      exact absurd (List.cons.inj heq).1 hc
    · rw [hitems]
      rfl

/-! ## Objects -/

theorem readMembers_last {before : List (String × Json)} {key : String} {value : Json}
    {cs colon rest tail : List Char} (hkey : readString cs = .ok (key, ':' :: ' ' :: colon))
    (hvalue : readValue fuel (skipSpace colon) = .ok (value, rest))
    (hrest : skipSpace rest = '\x7d' :: tail) :
    readMembers (fuel + 1) before ('"' :: cs) = .ok (putEntry key value before, tail) := by
  have hcolon : skipSpace (':' :: ' ' :: colon) = ':' :: ' ' :: colon :=
    skipSpace_cons (by decide) _
  have hspace : skipSpace (' ' :: colon) = skipSpace colon := skipSpace_space (by decide) _
  simp only [readMembers, hkey, bind, Except.bind, hcolon, hspace, hvalue, hrest]

theorem readMembers_comma {before members : List (String × Json)} {key : String} {value : Json}
    {cs colon rest gap tail : List Char} (hkey : readString cs = .ok (key, ':' :: ' ' :: colon))
    (hvalue : readValue fuel (skipSpace colon) = .ok (value, rest))
    (hrest : skipSpace rest = ',' :: gap)
    (hmembers : readMembers fuel (putEntry key value before) (skipSpace gap)
      = .ok (members, tail)) :
    readMembers (fuel + 1) before ('"' :: cs) = .ok (members, tail) := by
  have hcolon : skipSpace (':' :: ' ' :: colon) = ':' :: ' ' :: colon :=
    skipSpace_cons (by decide) _
  have hspace : skipSpace (' ' :: colon) = skipSpace colon := skipSpace_space (by decide) _
  simp only [readMembers, hkey, bind, Except.bind, hcolon, hspace, hvalue, hrest, hmembers]

theorem readMembers_membersChars {members : List (String × Json)} {tail rest : List Char}
    (htail : skipSpace tail = '\x7d' :: rest) (hstops : Stops tail) :
    ∀ (before : List (String × Json)) (key : String) (value : Json) (fuel : Nat),
      ((before ++ (key, value) :: members).map Prod.fst).Nodup →
      (∀ e ∈ (key, value) :: members, Readable layout depth e.2) →
      (valueChars layout depth value).length + (membersChars layout depth members).length < fuel →
      readMembers (fuel + 1) before (stringChars key ++ (':' :: ' ' ::
        (valueChars layout depth value ++ (membersChars layout depth members ++ tail))))
        = .ok (before ++ (key, value) :: members, rest) := by
  -- the keys are distinct, so every member is put at the end of those before it
  have hput : ∀ {before : List (String × Json)} {key : String} {value : Json}
      {members : List (String × Json)},
      ((before ++ (key, value) :: members).map Prod.fst).Nodup →
      putEntry key value before = before ++ [(key, value)] := by
    intro before key value members hd
    apply putEntry_of_not_mem
    intro hm
    rw [List.map_append, List.nodup_append] at hd
    exact hd.2.2 _ hm _ (by simp) rfl
  have hstring : ∀ (key : String) (text : List Char), stringChars key ++ text
      = '"' :: (key.toList.flatMap escapeChar ++ '"' :: text) := by
    intro key text
    simp only [stringChars, List.cons_append, List.append_assoc, List.nil_append]
  induction members with
  | nil =>
    intro before key value fuel hd hall hfuel
    have hlast : Readable layout depth value := hall (key, value) List.mem_cons_self
    have hvalue := hlast.reads fuel tail hstops (by omega)
    rw [hstring, ← hput hd]
    refine readMembers_last (readString_flatMap key _) ?_ htail
    rw [hlast.skipSpace_append]
    exact hvalue
  | cons e members ih =>
    intro before key value fuel hd hall hfuel
    obtain ⟨key', value'⟩ := e
    have hlast : Readable layout depth value := hall (key, value) List.mem_cons_self
    have hpos := hlast.length_pos
    simp only [membersChars, List.length_append] at hfuel
    obtain ⟨fuel, rfl⟩ : ∃ f, fuel = f + 1 := ⟨fuel - 1, by omega⟩
    have hmembers := ih (before ++ [(key, value)]) key' value' fuel (by simpa using hd)
      (fun e he => hall e (List.mem_cons_of_mem _ he)) (by omega)
    simp only [membersChars, List.append_assoc, List.cons_append, List.nil_append]
    obtain ⟨gap, hgap, hskip⟩ := separator_append layout depth (stringChars key' ++ (':' :: ' ' ::
      (valueChars layout depth value' ++ (membersChars layout depth members ++ tail))))
    have hvalue := hlast.reads (fuel + 1) (',' :: gap) (stops_cons (by decide) gap) (by omega)
    rw [← hlast.skipSpace_append] at hvalue
    rw [hgap, hstring]
    refine readMembers_comma (readString_flatMap key _) hvalue (skipSpace_cons (by decide) gap) ?_
    rw [hskip, hput hd]
    rw [hstring] at hmembers ⊢
    rw [skipSpace_cons (by decide)]
    simpa using hmembers

theorem readable_obj_nil : Readable layout depth (.obj []) where
  opens := ⟨'\x7b', ['\x7d'], by rw [valueChars], by decide, by decide⟩
  reads := by
    intro fuel rest _ hfuel
    obtain ⟨fuel, rfl⟩ : ∃ f, fuel = f + 1 := ⟨fuel - 1, by omega⟩
    have hskip : skipSpace ('\x7d' :: rest) = '\x7d' :: rest := skipSpace_cons (by decide) rest
    simp only [valueChars, List.cons_append, List.nil_append, readValue, hskip]

theorem readable_obj_cons {key : String} {value : Json} {members : List (String × Json)}
    (hd : (((key, value) :: members).map Prod.fst).Nodup)
    (hall : ∀ e ∈ (key, value) :: members, Readable layout (depth + 1) e.2) :
    Readable layout depth (.obj ((key, value) :: members)) where
  opens := ⟨'\x7b', _, by simp only [valueChars, List.cons_append]; rfl, by decide, by decide⟩
  reads := by
    intro fuel rest _ hfuel
    simp only [valueChars, List.length_append, List.length_cons] at hfuel
    obtain ⟨fuel, rfl⟩ : ∃ f, fuel = f + 2 := ⟨fuel - 2, by omega⟩
    have htail : skipSpace (layout.lineBreak depth ++ '\x7d' :: rest) = '\x7d' :: rest := by
      rw [skipSpace_lineBreak, skipSpace_cons (by decide)]
    have hmembers := readMembers_membersChars htail (stops_lineBreak (by decide) rest) [] key
      value fuel hd hall (by omega)
    simp only [valueChars, List.cons_append, List.append_assoc, List.nil_append, readValue,
      skipSpace_lineBreak, stringChars] at hmembers ⊢
    rw [skipSpace_cons (by decide)]
    split
    · rename_i heq
      exact absurd (List.cons.inj heq).1 (by decide)
    · rw [hmembers]
      rfl

/-! ## Whole texts -/

/-- The text of every plain value is read as that value. -/
theorem Plain.readable {v : Json} (h : Plain v) (layout : Layout) (depth : Nat) :
    Readable layout depth v := by
  induction h generalizing depth with
  | null =>
    exact readable_of_scalar 'n' ['u', 'l', 'l'] (by rw [valueChars]; rfl)
      (by decide) (fun rest _ => rfl)
  | bool b =>
    cases b with
    | true =>
      exact readable_of_scalar 't' ['r', 'u', 'e'] (by rw [valueChars]; rfl)
        (by decide) (fun rest _ => rfl)
    | false =>
      exact readable_of_scalar 'f' ['a', 'l', 's', 'e'] (by rw [valueChars]; rfl)
        (by decide) (fun rest _ => rfl)
  | int hn => exact readable_int hn
  | str s => exact readable_str s
  | @arr items _ ih =>
    cases items with
    | nil => exact readable_arr_nil
    | cons item items => exact readable_arr_cons fun i hi => ih i hi (depth + 1)
  | @obj members hd _ ih =>
    cases members with
    | nil => exact readable_obj_nil
    | cons e members =>
      obtain ⟨key, value⟩ := e
      exact readable_obj_cons hd fun e he => ih e he (depth + 1)

/-- A plain value is read back from its text, on one line or indented. -/
theorem read_write {v : Json} (h : Plain v) (indent : Option Nat) :
    read (v.write indent) = .ok v := by
  have hread := h.readable ⟨indent⟩ 0
  have hvalue := hread.reads ((valueChars ⟨indent⟩ 0 v).length + 1) [] (by simp [Stops]) (by omega)
  have hskip := hread.skipSpace_append []
  rw [List.append_nil] at hvalue hskip
  simp only [read, write, String.toList_ofList, readChars?, hskip, hvalue, bind, Except.bind]
  rfl

end KernelProfile.Json
