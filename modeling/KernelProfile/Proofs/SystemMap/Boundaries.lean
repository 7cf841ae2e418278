import KernelProfile.Proofs.SystemMap.Grammar
import KernelProfile.Proofs.Text.Lines
import KernelProfile.Proofs.Text.Utf8

/-! A symbol map held in memory and the same text in a file. In memory the lines end at more
characters, so what one of them parts is read as two lines there and as one line from the file. -/
namespace KernelProfile.SystemMap

open Text (fields isBlank isLineBoundary splitLines fileLines withLineFeeds)

/-- Two readings with the same outcome: one table, or one fault of the line of one number. The
second reading may show blanks behind the line. -/
inductive Agree : Except InvalidLine (Table Int) → Except InvalidLine (Table Int) → Prop
  | table (t : Table Int) : Agree (.ok t) (.ok t)
  | invalid {e f : InvalidLine} (number : e.number = f.number) (reason : e.reason = f.reason)
    (line : ∃ blanks, f.line.toList = e.line.toList ++ blanks ∧ ∀ c ∈ blanks, isBlank c = true) :
    Agree (.error e) (.error f)

/-- A line that is parted in memory into lines of which at most one is not blank. -/
def Whole (line : List Char) : Prop :=
  ((splitLines line).filter fun l => !(fields l).isEmpty).length ≤ 1

instance (line : List Char) : Decidable (Whole line) := Nat.decLe ..

/-- What is read of a file that holds a text is what its lines say. -/
theorem ofFile_encode (text : String) :
    ofFile (Text.Utf8.encode text) = ofLines (fileLines text.toList) := by
  rw [ofFile, Text.Utf8.decodeLossy_encode]

/-! ## Blanks behind a line -/

theorem defect_congr {cs ds : List Char} (h : fields cs = fields ds) : defect cs = defect ds := by
  unfold defect
  rw [h]

theorem agree_of_forall₂ {ls ms : List (List Char)}
    (h : List.Forall₂ (fun l m => ∃ blanks, m = l ++ blanks ∧ ∀ c ∈ blanks, isBlank c = true) ls ms)
    (number : Nat) (table : Table Int) :
    Agree (readFrom number table ls) (readFrom number table ms) := by
  induction h generalizing number table with
  | nil => exact .table table
  | @cons l m ls ms hline _ ih =>
    obtain ⟨blanks, rfl, hblanks⟩ := hline
    have hfields : fields (l ++ blanks) = fields l := Text.fields_append_blanks hblanks l
    by_cases hl : Malformed l
    · have hm := (malformed_congr hfields).mpr hl
      rw [readFrom_cons_of_malformed hl, readFrom_cons_of_malformed hm, defect_congr hfields]
      exact .invalid rfl rfl ⟨blanks, by simp, hblanks⟩
    · have hm := mt (malformed_congr hfields).mp hl
      rw [readFrom_cons_of_not_malformed hl, readFrom_cons_of_not_malformed hm,
        symbol?_congr hfields]
      exact ih _ _

/-- A text in memory reads as a file with a line feed for each of its boundaries. -/
theorem agree_withLineFeeds (cs : List Char) :
    Agree (ofLines (splitLines cs)) (ofLines (fileLines (withLineFeeds cs))) := by
  refine agree_of_forall₂ ((Text.forall₂_withLineFeeds cs).imp ?_) 1 .empty
  rintro l m (rfl | rfl)
  · exact ⟨[], (List.append_nil _).symm, nofun⟩
  · exact ⟨['\n'], rfl, List.forall_mem_singleton.mpr rfl⟩

/-! ## Lines with one part that says anything -/

theorem not_malformed_of_blank {cs : List Char} (h : fields cs = []) : ¬ Malformed cs :=
  fun hbad => hbad.1 h

theorem symbol?_of_blank {cs : List Char} (h : fields cs = []) : symbol? cs = none := by
  unfold symbol?
  rw [h]

/-- The fields of a line are those of its parts. -/
theorem flatMap_fields_splitLines (line : List Char) :
    (splitLines line).flatMap fields = fields line :=
  Text.flatMap_fields_splitLinesFrom [] line

/-- A line is blank exactly if all of its parts are. -/
theorem fields_eq_nil_iff_parts {line : List Char} :
    fields line = [] ↔ ∀ l ∈ splitLines line, fields l = [] := by
  rw [← flatMap_fields_splitLines line, List.flatMap_eq_nil_iff]

namespace Whole

variable {line : List Char}

/-- A line that is not blank has one part that says what it says, between blank ones. -/
theorem exists_part (h : Whole line) (hne : fields line ≠ []) :
    ∃ front part back, splitLines line = front ++ part :: back ∧
      (∀ l ∈ front, fields l = []) ∧ (∀ l ∈ back, fields l = []) ∧ fields part = fields line := by
  obtain ⟨part, hpart, hsays⟩ : ∃ part ∈ splitLines line, fields part ≠ [] := by
    by_contra hnone
    push Not at hnone
    exact hne (fields_eq_nil_iff_parts.mpr hnone)
  obtain ⟨front, back, hsplit⟩ := List.append_of_mem hpart
  have hlength : ((front ++ part :: back).filter fun l => !(fields l).isEmpty).length ≤ 1 :=
    hsplit ▸ h
  have hblank : ∀ ls : List (List Char), (ls.filter fun l => !(fields l).isEmpty).length = 0 →
      ∀ l ∈ ls, fields l = [] := by
    intro ls hls l hl
    simpa using List.filter_eq_nil_iff.mp (List.length_eq_zero_iff.mp hls) l hl
  rw [List.filter_append, List.filter_cons_of_pos (by simpa using hsays), List.length_append,
    List.length_cons] at hlength
  have hfront := hblank front (by omega)
  have hback := hblank back (by omega)
  refine ⟨front, part, back, hsplit, hfront, hback, ?_⟩
  rw [← flatMap_fields_splitLines line, hsplit, List.flatMap_append, List.flatMap_cons,
    List.flatMap_eq_nil_iff.mpr hfront, List.flatMap_eq_nil_iff.mpr hback, List.nil_append,
    List.append_nil]

/-- The parts of a well-formed line are well-formed. -/
theorem not_malformed (h : Whole line) (hline : ¬ Malformed line) :
    ∀ l ∈ splitLines line, ¬ Malformed l := by
  intro l hl
  by_cases hblank : fields l = []
  · exact not_malformed_of_blank hblank
  · have hne : fields line ≠ [] := fun h => hblank (fields_eq_nil_iff_parts.mp h l hl)
    obtain ⟨front, part, back, hsplit, hfront, hback, hpart⟩ := h.exists_part hne
    rw [hsplit, List.mem_append, List.mem_cons] at hl
    rcases hl with hl | rfl | hl
    · exact absurd (hfront l hl) hblank
    · exact mt (malformed_congr hpart).mp hline
    · exact absurd (hback l hl) hblank

/-- The parts of a line have its symbol, if it has one, and no other. -/
theorem filterMap_symbol? (h : Whole line) :
    (splitLines line).filterMap symbol? = (symbol? line).toList := by
  have hnone : ∀ ls : List (List Char), (∀ l ∈ ls, fields l = []) → ls.filterMap symbol? = [] :=
    fun ls hls => List.filterMap_eq_nil_iff.mpr fun l hl => symbol?_of_blank (hls l hl)
  by_cases hblank : fields line = []
  · rw [hnone _ (fields_eq_nil_iff_parts.mp hblank), symbol?_of_blank hblank]
    rfl
  · obtain ⟨front, part, back, hsplit, hfront, hback, hpart⟩ := h.exists_part hblank
    have hone : [part].filterMap symbol? = (symbol? part).toList := by
      cases hsymbol : symbol? part <;> simp [hsymbol]
    rw [hsplit, List.filterMap_append, ← List.singleton_append, List.filterMap_append,
      hnone front hfront, hnone back hback, hone, symbol?_congr hpart, List.nil_append,
      List.append_nil]

end Whole

/-- The symbols of lines are those of the parts of the lines. -/
theorem filterMap_symbol?_flatMap {lines : List (List Char)} (h : ∀ l ∈ lines, Whole l) :
    (lines.flatMap splitLines).filterMap symbol? = lines.filterMap symbol? := by
  rw [List.filterMap_flatMap, List.filterMap_eq_flatMap_toList]
  exact List.flatMap_congr fun l hl => (h l hl).filterMap_symbol?

/-! ## The first malformed line -/

theorem not_malformed_parts {lines : List (List Char)} (hwhole : ∀ l ∈ lines, Whole l)
    (h : ∀ l ∈ lines, ¬ Malformed l) : ∀ l ∈ lines.flatMap splitLines, ¬ Malformed l := by
  intro l hl
  obtain ⟨line, hline, hpart⟩ := List.mem_flatMap.mp hl
  exact (hwhole line hline).not_malformed (h line hline) l hpart

/-- Where the first malformed line of a file is among the lines in memory. -/
theorem ofLines_parts_of_malformed {before after front back : List (List Char)}
    {line part : List Char} (hwhole : ∀ l ∈ before, Whole l) (hbefore : ∀ l ∈ before, ¬ Malformed l)
    (hline : Malformed line) (hsplit : splitLines line = front ++ part :: back)
    (hfront : ∀ l ∈ front, fields l = []) (hpart : fields part = fields line) :
    ofLines ((before ++ line :: after).flatMap splitLines) =
      .error ⟨(before.flatMap splitLines).length + front.length + 1, String.ofList part,
        defect line⟩ := by
  have hparts : (before ++ line :: after).flatMap splitLines =
      (before.flatMap splitLines ++ front) ++ part :: (back ++ after.flatMap splitLines) := by
    simp [hsplit]
  have hgood : ∀ l ∈ before.flatMap splitLines ++ front, ¬ Malformed l := by
    intro l hl
    rcases List.mem_append.mp hl with hl | hl
    · exact not_malformed_parts hwhole hbefore l hl
    · exact not_malformed_of_blank (hfront l hl)
  rw [hparts, ofLines_of_malformed hgood ((malformed_congr hpart).mpr hline), List.length_append,
    defect_congr hpart]

/-- Lines that are parted have more parts, unless each has one part only. -/
theorem length_parts {lines : List (List Char)} (h : ∀ l ∈ lines, splitLines l ≠ []) :
    lines.length ≤ (lines.flatMap splitLines).length ∧
      ((lines.flatMap splitLines).length = lines.length ↔
        ∀ l ∈ lines, (splitLines l).length = 1) := by
  induction lines with
  | nil => simp
  | cons l lines ih =>
    obtain ⟨hle, hiff⟩ := ih fun l' hl' => h l' (List.mem_cons_of_mem _ hl')
    have hpos := List.length_pos_iff.mpr (h l List.mem_cons_self)
    rw [List.flatMap_cons, List.length_append, List.length_cons, List.forall_mem_cons, ← hiff]
    omega

/-- The number of the malformed line is the same both ways exactly if nothing stands before it in
memory that does not in the file. -/
theorem agree_invalid_iff {before front back : List (List Char)} {line part : List Char}
    {reason : Reason} (hparted : ∀ l ∈ before, splitLines l ≠ [])
    (hsplit : splitLines line = front ++ part :: back) (hback : ∀ l ∈ back, fields l = []) :
    Agree
        (.error ⟨(before.flatMap splitLines).length + front.length + 1, String.ofList part, reason⟩)
        (.error ⟨before.length + 1, String.ofList line, reason⟩) ↔
      (∀ l ∈ before, (splitLines l).length = 1) ∧ front = [] := by
  obtain ⟨hle, hiff⟩ := length_parts hparted
  constructor
  · rintro (_ | ⟨hnumber, -, -⟩)
    dsimp only at hnumber
    rw [← hiff, ← List.length_eq_zero_iff]
    omega
  · rintro ⟨hone, rfl⟩
    obtain ⟨tail, htail, hblank⟩ := Text.splitLinesFrom_eq_cons hsplit
    refine .invalid ?_ rfl ⟨tail, ?_, ?_⟩
    · rw [hiff.mpr hone]
      rfl
    · rw [String.toList_ofList, String.toList_ofList]
      exact htail
    · rw [List.flatMap_eq_nil_iff.mpr hback] at hblank
      exact Text.fields_eq_nil_iff.mp hblank

/-- Lines and their parts are the same map. -/
theorem ofLines_parts_eq_ok {lines : List (List Char)} (hwhole : ∀ l ∈ lines, Whole l)
    {table : Table Int} :
    ofLines (lines.flatMap splitLines) = .ok table ↔ ofLines lines = .ok table := by
  rcases exists_first_malformed lines with hall | ⟨before, line, after, rfl, hbefore, hline⟩
  · rw [ofLines_of_wellFormed hall, ofLines_of_wellFormed (not_malformed_parts hwhole hall),
      filterMap_symbol?_flatMap hwhole]
  · obtain ⟨front, part, back, hsplit, hfront, -, hpart⟩ :=
      (hwhole line (by simp)).exists_part hline.1
    rw [ofLines_of_malformed hbefore hline,
      ofLines_parts_of_malformed (fun l hl => hwhole l (List.mem_append_left _ hl)) hbefore hline
        hsplit hfront hpart]
    exact iff_of_false nofun nofun

/-! ## The theorem -/

/-- **In memory a text reads as a file in which every boundary is a line feed.** So the two ways
agree on texts without the boundaries that count in memory alone. Where those boundaries part no
line of the file into two that say something, both ways give the same table or complain about the
same line; then they agree exactly if no line before it is parted and nothing of it stands in front
of the part that is malformed. -/
theorem ofText_agrees_ofFile (text : String) :
    Agree (ofText text)
      (ofFile (Text.Utf8.encode (String.ofList (withLineFeeds text.toList)))) ∧
    ((∀ c ∈ text.toList, isLineBoundary c = true → c = '\n' ∨ c = '\r') →
      Agree (ofText text) (ofFile (Text.Utf8.encode text))) ∧
    ((∀ l ∈ fileLines text.toList, Whole l) →
      (∀ table, ofText text = .ok table ↔ ofFile (Text.Utf8.encode text) = .ok table) ∧
      ∀ before line after, fileLines text.toList = before ++ line :: after →
        (∀ l ∈ before, ¬ Malformed l) → Malformed line →
        ∃ front part back, splitLines line = front ++ part :: back ∧
          (∀ l ∈ front ++ back, fields l = []) ∧
          ofFile (Text.Utf8.encode text) =
            .error ⟨before.length + 1, String.ofList line, defect line⟩ ∧
          ofText text = .error ⟨(before.flatMap splitLines).length + front.length + 1,
            String.ofList part, defect line⟩ ∧
          (Agree (ofText text) (ofFile (Text.Utf8.encode text)) ↔
            (∀ l ∈ before, (splitLines l).length = 1) ∧ front = [])) := by
  have hmemory : ofText text = ofLines ((fileLines text.toList).flatMap splitLines) := by
    rw [Text.flatMap_fileLines, ofText]
  rw [ofFile_encode, ofFile_encode, String.toList_ofList]
  refine ⟨agree_withLineFeeds text.toList, ?plain, fun hwhole => ⟨?table, ?invalid⟩⟩
  case plain =>
    intro hplain
    rw [← Text.fileLines_withLineFeeds hplain]
    exact agree_withLineFeeds text.toList
  case table =>
    intro table
    rw [hmemory]
    exact ofLines_parts_eq_ok hwhole
  case invalid =>
    intro before line after hlines hbefore hline
    have hparted : ∀ l ∈ before, splitLines l ≠ [] := fun l hl =>
      Text.splitLines_ne_nil_of_mem l (hlines ▸ List.mem_append_left _ hl)
    rw [hmemory]
    rw [hlines] at hwhole ⊢
    obtain ⟨front, part, back, hsplit, hfront, hback, hpart⟩ :=
      (hwhole line (by simp)).exists_part hline.1
    have hfile : ofLines (before ++ line :: after) = _ := ofLines_of_malformed hbefore hline
    have htext : ofLines ((before ++ line :: after).flatMap splitLines) = _ :=
      ofLines_parts_of_malformed (fun l hl => hwhole l (List.mem_append_left _ hl)) hbefore hline
        hsplit hfront hpart
    refine ⟨front, part, back, hsplit, ?_, hfile, htext, ?_⟩
    · intro l hl
      exact (List.mem_append.mp hl).elim (hfront l) (hback l)
    · rw [hfile, htext]
      exact agree_invalid_iff hparted hsplit hback

/-! ## Form feeds -/

/-- Symbols between form feeds, the second one without a name. -/
def pagedText : String := "c0de0000 T start\x0c\n\x0cc0de0010 T\x0c\n"

/-- The same without form feeds, with another end of a line. -/
def plainText : String := "c0de0000 T start\r\nc0de0010 T\n"

theorem pagedText_numbered :
    (∀ l ∈ fileLines pagedText.toList, Whole l) ∧
    ofFile (Text.Utf8.encode pagedText) =
      .error ⟨2, "\x0cc0de0010 T\x0c\n", .missingFields⟩ ∧
    ofText pagedText = .error ⟨4, "c0de0010 T", .missingFields⟩ ∧
    ¬ Agree (ofText pagedText) (ofFile (Text.Utf8.encode pagedText)) ∧
    (∀ c ∈ plainText.toList, isLineBoundary c = true → c = '\n' ∨ c = '\r') ∧
    Agree (ofText plainText) (ofFile (Text.Utf8.encode plainText)) := by
  obtain ⟨-, -, hwhole⟩ := ofText_agrees_ofFile pagedText
  obtain ⟨-, hplain, -⟩ := ofText_agrees_ofFile plainText
  have hlines : ∀ l ∈ fileLines pagedText.toList, Whole l := by decide
  have hboundaries : ∀ c ∈ plainText.toList, isLineBoundary c = true → c = '\n' ∨ c = '\r' := by
    have hall : (plainText.toList.all fun c => !isLineBoundary c || c == '\n' || c == '\r') =
        true := by decide
    intro c hc hboundary
    simpa [hboundary] using List.all_eq_true.mp hall c hc
  obtain ⟨front, part, back, -, -, hfile, -, hagree⟩ :=
    (hwhole hlines).2 ["c0de0000 T start\x0c\n".toList] "\x0cc0de0010 T\x0c\n".toList []
      (by decide) (by decide) (by decide)
  refine ⟨hlines, hfile, rfl, ?_, hboundaries, hplain hboundaries⟩
  intro h
  exact absurd ((hagree.mp h).1 _ List.mem_cons_self) (by decide)

/-- A form feed between two symbols: in memory it ends a line, and both are read; from a file the
second one is a further field of the first line and is lost. -/
theorem parted_line_lost :
    let text := "c0de0000 T start\x0cc0de0010 T loop\n"
    ofText text = .ok (.ofList [("start", 0xc0de0000), ("loop", 0xc0de0010)]) ∧
      ofFile (Text.Utf8.encode text) = .ok (.ofList [("start", 0xc0de0000)]) ∧
      ¬ Agree (ofText text) (ofFile (Text.Utf8.encode text)) := by
  intro text
  have htext : ofText text = .ok (.ofList [("start", 0xc0de0000), ("loop", 0xc0de0010)]) := by
    have hsymbols : (splitLines text.toList).filterMap symbol? =
        [("start", 0xc0de0000), ("loop", 0xc0de0010)] := by decide
    rw [ofText, ofLines_of_wellFormed (by decide), hsymbols]
  have hfile : ofFile (Text.Utf8.encode text) = .ok (.ofList [("start", 0xc0de0000)]) := by
    have hsymbols : (fileLines text.toList).filterMap symbol? = [("start", 0xc0de0000)] := by
      decide
    rw [ofFile_encode, ofLines_of_wellFormed (by decide), hsymbols]
  refine ⟨htext, hfile, ?_⟩
  rw [htext, hfile]
  intro h
  cases h

end KernelProfile.SystemMap
