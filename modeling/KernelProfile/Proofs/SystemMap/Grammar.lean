import KernelProfile.SystemMap
import KernelProfile.Proofs.Table
import KernelProfile.Proofs.Text.Fields
import KernelProfile.Proofs.Text.Numeral

/-! The grammar of symbol maps. Whether a line is malformed and which symbol it gives is said of its
fields alone. Lines are read into a table up to the first malformed one; if there is none, the table
is that of the lines' symbols, written one after the other. -/
namespace KernelProfile.SystemMap

open Text (fields isBlank hexDigits hexValue)

/-- A text of one or more hexadecimal digits. -/
def IsAddress (cs : List Char) : Prop := cs ≠ [] ∧ ∀ c ∈ cs, c ∈ hexDigits

-- character by character of the list: a search through all characters would not end in time
instance (cs : List Char) : Decidable (IsAddress cs) :=
  decidable_of_iff (cs ≠ [] ∧ cs.all (hexDigits.contains ·) = true) (by
    simp only [IsAddress, List.all_eq_true, List.contains_iff_mem])

/-- A line that is not blank and has fewer than three fields or no address as its first. -/
def Malformed (cs : List Char) : Prop :=
  fields cs ≠ [] ∧ ((fields cs).length < 3 ∨ ¬ ∃ first ∈ (fields cs).head?, IsAddress first)

instance (cs : List Char) : Decidable (Malformed cs) :=
  inferInstanceAs (Decidable (fields cs ≠ [] ∧
    ((fields cs).length < 3 ∨ ¬ ∃ first ∈ (fields cs).head?, IsAddress first)))

/-- The symbol of a line of a kept kind: its name and its address. -/
def symbol? (cs : List Char) : Option (String × Int) :=
  match fields cs with
  | address :: kind :: name :: _ =>
    if keptKinds.contains kind then some (String.ofList name, (hexValue address : Int)) else none
  | _ => none

/-! ## Addresses -/

theorem address?_of_isAddress {cs : List Char} (h : IsAddress cs) :
    address? cs = some (hexValue cs) := by
  simp [address?, h.1, Text.mapM_hexDigitValue? h.2, Text.foldl_hexDigits]

theorem address?_eq_none {cs : List Char} (h : ¬ IsAddress cs) : address? cs = none := by
  unfold address?
  by_cases hnil : cs = []
  · simp [hnil]
  · have hall : ¬ ∀ c ∈ cs, c ∈ hexDigits := fun hall => h ⟨hnil, hall⟩
    simp [hnil, Text.mapM_hexDigitValue?_eq_none hall]

/-! ## Lines -/

/-- Whatever a line says, its fields say. -/
theorem symbol?_congr {cs ds : List Char} (h : fields cs = fields ds) :
    symbol? cs = symbol? ds := by
  unfold symbol?
  rw [h]

theorem malformed_congr {cs ds : List Char} (h : fields cs = fields ds) :
    Malformed cs ↔ Malformed ds := by
  unfold Malformed
  rw [h]

/-- What is wrong with a malformed line. -/
def defect (cs : List Char) : Reason :=
  if (fields cs).length < 3 then .missingFields else .badAddress

theorem Line.ofChars_of_malformed {cs : List Char} (h : Malformed cs) :
    Line.ofChars cs = .invalid (defect cs) := by
  obtain ⟨hne, hbad⟩ := h
  unfold Line.ofChars defect
  match hfields : fields cs with
  | [] => exact absurd hfields hne
  | [_] => rfl
  | [_, _] => rfl
  | address :: kind :: name :: rest =>
    have haddress : ¬ IsAddress address := by
      intro hgood
      rw [hfields] at hbad
      exact hbad.elim (by simp) fun hnot => hnot ⟨address, rfl, hgood⟩
    simp only [address?_eq_none haddress, List.length_cons]
    rfl

/-- A line that is not malformed writes its symbol, if it has one. -/
theorem readFrom_cons_of_not_malformed {cs : List Char} (h : ¬ Malformed cs) (number : Nat)
    (table : Table Int) (rest : List (List Char)) : readFrom number table (cs :: rest) =
      readFrom (number + 1) ((symbol? cs).elim table fun e => table.insert e.1 e.2) rest := by
  unfold Malformed at h
  rw [readFrom]
  unfold Line.ofChars symbol?
  match hfields : fields cs with
  | [] => rfl
  | [_] => simp [hfields] at h
  | [_, _] => simp [hfields] at h
  | address :: kind :: name :: tail =>
    have haddress : IsAddress address := by simpa [hfields] using h
    simp only [address?_of_isAddress haddress]
    by_cases hkind : kind ∈ keptKinds
    · simp only [List.contains_iff_mem, if_pos hkind, Option.elim_some]
    · simp only [List.contains_iff_mem, if_neg hkind, Option.elim_none]

theorem readFrom_cons_of_malformed {cs : List Char} (h : Malformed cs) (number : Nat)
    (table : Table Int) (rest : List (List Char)) : readFrom number table (cs :: rest) =
      .error ⟨number, String.ofList cs, defect cs⟩ := by
  rw [readFrom, Line.ofChars_of_malformed h]

/-! ## Maps -/

/-- The run lemma: lines none of which is malformed write their symbols one after the other. -/
theorem readFrom_append {before : List (List Char)} (h : ∀ l ∈ before, ¬ Malformed l)
    (number : Nat) (table : Table Int) (rest : List (List Char)) :
    readFrom number table (before ++ rest) = readFrom (number + before.length)
      ((before.filterMap symbol?).foldl (fun t e => t.insert e.1 e.2) table) rest := by
  induction before generalizing number table with
  | nil => rfl
  | cons l before ih =>
    have hrest := ih (fun l' hl' => h l' (List.mem_cons_of_mem _ hl'))
    rw [List.cons_append, readFrom_cons_of_not_malformed (h l List.mem_cons_self), hrest,
      List.length_cons, Nat.add_right_comm, Nat.add_assoc]
    cases hsymbol : symbol? l with
    | none => rw [List.filterMap_cons_none hsymbol]; rfl
    | some e => rw [List.filterMap_cons_some hsymbol]; rfl

theorem ofLines_of_wellFormed {lines : List (List Char)} (h : ∀ l ∈ lines, ¬ Malformed l) :
    ofLines lines = .ok (.ofList (lines.filterMap symbol?)) := by
  have hrun := readFrom_append h 1 .empty []
  rw [List.append_nil] at hrun
  exact hrun

theorem ofLines_of_malformed {before after : List (List Char)} {line : List Char}
    (hbefore : ∀ l ∈ before, ¬ Malformed l) (h : Malformed line) :
    ofLines (before ++ line :: after) =
      .error ⟨before.length + 1, String.ofList line, defect line⟩ := by
  rw [ofLines, readFrom_append hbefore, readFrom_cons_of_malformed h, Nat.add_comm]

/-- Lines are all well-formed, or there is a first one that is not. -/
theorem exists_first_malformed (lines : List (List Char)) : (∀ l ∈ lines, ¬ Malformed l) ∨
    ∃ before line after, lines = before ++ line :: after ∧ (∀ l ∈ before, ¬ Malformed l) ∧
      Malformed line := by
  induction lines with
  | nil => exact .inl nofun
  | cons l lines ih =>
    by_cases hl : Malformed l
    · exact .inr ⟨[], l, lines, rfl, nofun, hl⟩
    rcases ih with hall | ⟨before, line, after, rfl, hbefore, hline⟩
    · exact .inl (List.forall_mem_cons.mpr ⟨hl, hall⟩)
    · exact .inr ⟨l :: before, line, after, rfl, List.forall_mem_cons.mpr ⟨hl, hbefore⟩, hline⟩

/-! ## Written maps -/

/-- The small hexadecimal digits of a number, with zeros in front up to a width. -/
def addressText (width n : Nat) : List Char := (Nat.toDigits 16 n).leftpad width '0'

/-- The line of a global text symbol. -/
def textLine (width : Nat) (symbol : String × Nat) : List Char :=
  addressText width symbol.2 ++ " T ".toList ++ symbol.1.toList

theorem hexValue_addressText (width n : Nat) : hexValue (addressText width n) = n := by
  have hzero : Text.hexDigitOf '0' = 0 := by decide
  rw [hexValue, addressText, List.leftpad, List.map_append, List.map_replicate,
    List.reverse_append, List.reverse_replicate, hzero, Nat.ofDigits_append_replicate_zero]
  exact Text.hexValue_toDigits n

theorem isAddress_addressText (width n : Nat) : IsAddress (addressText width n) := by
  constructor
  · exact List.append_ne_nil_of_right_ne_nil _ Nat.toDigits_ne_nil
  · intro c hc
    rcases List.mem_append.mp hc with hc | hc
    · rw [List.eq_of_mem_replicate hc]
      decide
    · exact Text.mem_hexDigits_of_mem_toDigits c hc

theorem not_isBlank_of_mem_hexDigits {c : Char} (hc : c ∈ hexDigits) : isBlank c = false := by
  have hall : (hexDigits.all fun c => !isBlank c) = true := by decide
  exact (Bool.not_eq_true' _).mp (List.all_eq_true.mp hall c hc)

/-- A written line has its three fields, whatever the width of the address. -/
theorem fields_textLine (width : Nat) {symbol : String × Nat} (hne : symbol.1 ≠ "")
    (hword : ∀ c ∈ symbol.1.toList, isBlank c = false) :
    fields (textLine width symbol) = [addressText width symbol.2, ['T'], symbol.1.toList] := by
  have haddress := isAddress_addressText width symbol.2
  have hfirst : fields (addressText width symbol.2) = [addressText width symbol.2] :=
    Text.fields_of_word haddress.1 fun c hc => not_isBlank_of_mem_hexDigits (haddress.2 c hc)
  have hlast : fields symbol.1.toList = [symbol.1.toList] :=
    Text.fields_of_word (fun h => hne (String.toList_eq_nil_iff.mp h)) hword
  have hblank : isBlank ' ' = true := by decide
  have hkind : fields ['T'] = [['T']] := by decide
  have hline : textLine width symbol =
      addressText width symbol.2 ++ ' ' :: (['T'] ++ ' ' :: symbol.1.toList) :=
    List.append_assoc ..
  rw [hline, Text.fields_append_cons hblank, Text.fields_append_cons hblank, hfirst, hkind, hlast]
  rfl

theorem not_malformed_textLine {width : Nat} {symbol : String × Nat}
    (h : fields (textLine width symbol) = [addressText width symbol.2, ['T'], symbol.1.toList]) :
    ¬ Malformed (textLine width symbol) := by
  rintro ⟨-, hbad⟩
  rw [h] at hbad
  exact hbad.elim (by simp) fun hnot => hnot ⟨_, rfl, isAddress_addressText width symbol.2⟩

theorem symbol?_textLine {width : Nat} {symbol : String × Nat}
    (h : fields (textLine width symbol) = [addressText width symbol.2, ['T'], symbol.1.toList]) :
    symbol? (textLine width symbol) = some (symbol.1, (symbol.2 : Int)) := by
  have hkept : keptKinds.contains ['T'] = true := by decide
  simp only [symbol?, h, if_pos hkept, hexValue_addressText, String.ofList_toList]

/-- The lines that are written for a table give the table again. -/
theorem ofLines_written {t : Table Nat}
    (hnames : ∀ name ∈ t.keys, name ≠ "" ∧ ∀ c ∈ name.toList, isBlank c = false) (width : Nat) :
    ofLines (t.entries.map (textLine width)) = .ok (t.map fun n : Nat => (n : Int)) := by
  have hword : ∀ e ∈ t.entries, fields (textLine width e) =
      [addressText width e.2, ['T'], e.1.toList] := by
    intro e he
    obtain ⟨hne, hblank⟩ := hnames e.1 (List.mem_map_of_mem he)
    exact fields_textLine width hne hblank
  have hwellFormed : ∀ l ∈ t.entries.map (textLine width), ¬ Malformed l := by
    intro l hl
    obtain ⟨e, he, rfl⟩ := List.mem_map.mp hl
    exact not_malformed_textLine (hword e he)
  have hsymbols : (t.entries.map (textLine width)).filterMap symbol? =
      t.entries.map fun e => (e.1, (e.2 : Int)) := by
    rw [List.filterMap_map, ← List.filterMap_eq_map]
    exact List.filterMap_congr fun e he => symbol?_textLine (hword e he)
  rw [ofLines_of_wellFormed hwellFormed, hsymbols]
  exact congrArg Except.ok (Table.ofList_entries (t.map fun n : Nat => (n : Int)))

/-! ## The theorem -/

/-- **Lines are a symbol map exactly if none of them is malformed.** Otherwise the error has the
number and the text of the first malformed line. The table of a map has the names of the lines of
kept kinds in the order in which they first came, each with the address of its last line. So the
lines that are written for a table whose names are single words give the table again. -/
theorem ofLines_grammar :
    (∀ lines, ((∃ e, ofLines lines = .error e) ↔ ∃ line ∈ lines, Malformed line) ∧
      (∀ before line after, lines = before ++ line :: after → (∀ l ∈ before, ¬ Malformed l) →
        Malformed line →
        ofLines lines = .error ⟨before.length + 1, String.ofList line, defect line⟩) ∧
      ∀ table, ofLines lines = .ok table →
        table.keys = ((lines.filterMap symbol?).map Prod.fst).eraseDups ∧
        ∀ name a, table.get? name = some a ↔
          ∃ before line after, lines = before ++ line :: after ∧ symbol? line = some (name, a) ∧
            ∀ l ∈ after, ∀ b, symbol? l ≠ some (name, b)) ∧
    ∀ (t : Table Nat) (width : Nat),
      (∀ name ∈ t.keys, name ≠ "" ∧ ∀ c ∈ name.toList, isBlank c = false) →
      ofLines (t.entries.map (textLine width)) = .ok (t.map fun n : Nat => (n : Int)) := by
  refine ⟨fun lines => ⟨?refused, ?first, ?accepted⟩, ?written⟩
  case refused =>
    rcases exists_first_malformed lines with hall | ⟨before, line, after, rfl, hbefore, hline⟩
    · rw [ofLines_of_wellFormed hall]
      simpa using hall
    · rw [ofLines_of_malformed hbefore hline]
      exact iff_of_true ⟨_, rfl⟩ ⟨line, by simp, hline⟩
  case first =>
    rintro before line after rfl hbefore hline
    exact ofLines_of_malformed hbefore hline
  case accepted =>
    intro table htable
    rcases exists_first_malformed lines with hall | ⟨before, line, after, rfl, hbefore, hline⟩
    · rw [ofLines_of_wellFormed hall] at htable
      cases htable
      exact ⟨Table.keys_ofList _, fun name a => Table.get?_ofList_filterMap⟩
    · rw [ofLines_of_malformed hbefore hline] at htable
      cases htable
  case written =>
    intro t width hnames
    exact ofLines_written hnames width

/-! ## A map with a name that comes twice -/

/-- A map with a blank line, a symbol of another kind, and a name with two addresses. -/
def bootLines : List (List Char) :=
  ["c0de0000 T start".toList, "\t".toList, "C0DE0010 B stack".toList, "c0de0020 d table x".toList,
    "  c0de0030 D start".toList]

/-- A line of a kind that is not kept, with a mark in front of its address. -/
def markedLine : List Char := "0xc0de0040 A end".toList

def bootTable : Table Nat := .ofList [("start", 0xc0de0030), ("table", 0xc0de0020)]

theorem bootLines_read :
    (∃ table, ofLines bootLines = .ok table ∧ table.keys = ["start", "table"] ∧
      table.get? "start" = some 0xc0de0030) ∧
    ((∀ l ∈ bootLines, ¬ Malformed l) ∧ Malformed markedLine ∧
      ofLines (bootLines ++ [markedLine, []]) = .error ⟨6, "0xc0de0040 A end", .badAddress⟩) ∧
    (∀ name ∈ bootTable.keys, name ≠ "" ∧ ∀ c ∈ name.toList, isBlank c = false) ∧
      ofLines (bootTable.entries.map (textLine 16)) =
        .ok (bootTable.map fun n : Nat => (n : Int)) := by
  obtain ⟨hlines, hwritten⟩ := ofLines_grammar
  have hgood : ∀ l ∈ bootLines, ¬ Malformed l := by decide
  have hbad : Malformed markedLine := by decide
  have hnames : ∀ name ∈ bootTable.keys, name ≠ "" ∧ ∀ c ∈ name.toList, isBlank c = false := by
    have hkeys : bootTable.keys = ["start", "table"] := by decide
    simp [hkeys, isBlank]
  refine ⟨?table, ⟨hgood, hbad, ?refused⟩, hnames, hwritten bootTable 16 hnames⟩
  case table =>
    obtain ⟨hrefused, -, haccepted⟩ := hlines bootLines
    cases hread : ofLines bootLines with
    | error e =>
      obtain ⟨l, hl, hmalformed⟩ := hrefused.mp ⟨e, hread⟩
      exact absurd hmalformed (hgood l hl)
    | ok table =>
      obtain ⟨hkeys, hget⟩ := haccepted table hread
      refine ⟨table, rfl, hkeys.trans (by decide), (hget "start" 0xc0de0030).mpr ?_⟩
      exact ⟨bootLines.take 4, _, [], rfl, by decide, nofun⟩
  case refused =>
    exact (hlines _).2.1 bootLines markedLine [[]] rfl hgood hbad

end KernelProfile.SystemMap
