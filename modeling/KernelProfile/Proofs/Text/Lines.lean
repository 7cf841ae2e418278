import Mathlib.Data.List.Forall2
import KernelProfile.Text.Lines
import KernelProfile.Proofs.Text.Fields

/-! The two notions of line against each other. Every end of a line of a file is a boundary in
memory too, so a text in memory has the lines of the file, each cut further at the boundaries inside
it. The boundaries are blanks, so the cuts keep the fields. -/
namespace KernelProfile.Text

/-- A character as it is read where every boundary counts as a line feed. -/
def asLineFeed (c : Char) : Char := if isLineBoundary c then '\n' else c

/-- A text with a line feed for every boundary, a carriage return before a line feed being none of
its own. -/
def withLineFeeds (cs : List Char) : List Char := (foldNewlines cs).map asLineFeed

theorem isBlank_of_isLineBoundary {c : Char} (h : isLineBoundary c = true) : isBlank c = true := by
  simp only [isLineBoundary, isBlank, Bool.or_eq_true, Bool.and_eq_true, decide_eq_true_eq,
    beq_iff_eq] at h ⊢
  omega

/-! ## Lines in memory -/

/-- A character that is not the first half of a two-character boundary. -/
theorem splitLinesFrom_cons {c : Char} {cs : List Char} (h : c = '\r' → cs.head? ≠ some '\n')
    (line : List Char) : splitLinesFrom line (c :: cs) =
      if isLineBoundary c then line.reverse :: splitLinesFrom [] cs
      else splitLinesFrom (c :: line) cs := by
  rw [splitLinesFrom]
  rintro rest rfl rfl
  exact absurd rfl (h rfl)

theorem splitLinesFrom_ne {c : Char} (h : c ≠ '\r') (line cs : List Char) :
    splitLinesFrom line (c :: cs) =
      if isLineBoundary c then line.reverse :: splitLinesFrom [] cs
      else splitLinesFrom (c :: line) cs :=
  splitLinesFrom_cons (fun hc => absurd hc h) line

/-- Reading carriage returns as line feeds keeps the lines. -/
theorem splitLinesFrom_foldNewlines (line cs : List Char) :
    splitLinesFrom line (foldNewlines cs) = splitLinesFrom line cs := by
  fun_induction foldNewlines cs generalizing line with
  | case1 => rfl
  | case2 rest ih =>
    rw [splitLinesFrom_ne (by decide), ih, splitLinesFrom]
    rfl
  | case3 rest hrest ih =>
    have hhead : rest.head? ≠ some '\n' := by
      intro h
      obtain ⟨tail, htail⟩ := List.head?_eq_some_iff.mp h
      exact hrest tail htail
    rw [splitLinesFrom_ne (by decide), splitLinesFrom_cons (fun _ => hhead), ih]
    rfl
  | case4 c rest _ hc ih =>
    rw [splitLinesFrom_ne hc, splitLinesFrom_ne hc, ih, ih]

/-- A line feed parts a text, as long as there are no carriage returns in front of it. -/
theorem splitLinesFrom_append_newline {cs : List Char} (h : '\r' ∉ cs) (line rest : List Char) :
    splitLinesFrom line (cs ++ '\n' :: rest) =
      splitLinesFrom line (cs ++ ['\n']) ++ splitLinesFrom [] rest := by
  induction cs generalizing line with
  | nil =>
    rw [List.nil_append, List.nil_append, splitLinesFrom_ne (by decide),
      splitLinesFrom_ne (by decide)]
    rfl
  | cons c cs ih =>
    have hc : c ≠ '\r' := fun hc => h (hc ▸ List.mem_cons_self)
    have hcs : '\r' ∉ cs := fun hcs => h (List.mem_cons_of_mem _ hcs)
    rw [List.cons_append, List.cons_append, splitLinesFrom_ne hc, splitLinesFrom_ne hc, ih hcs,
      ih hcs]
    split <;> rfl

/-- No field reaches across a boundary. -/
theorem flatMap_fields_splitLinesFrom (line cs : List Char) :
    (splitLinesFrom line cs).flatMap fields = fields (line.reverse ++ cs) := by
  fun_induction splitLinesFrom line cs with
  | case1 line h =>
    rw [List.isEmpty_iff.mp h]
    rfl
  | case2 line h => simp
  | case3 line rest ih =>
    have hreturn : isBlank '\r' = true := by decide
    have hfeed : isBlank '\n' = true := by decide
    rw [List.flatMap_cons, ih, fields_append_cons hreturn, fields_cons_blank hfeed]
    rfl
  | case4 line c rest _ hc ih =>
    rw [List.flatMap_cons, ih, fields_append_cons (isBlank_of_isLineBoundary hc)]
    rfl
  | case5 line c rest _ hc ih =>
    rw [ih, List.reverse_cons, List.append_assoc, List.singleton_append]

/-- A text starts with its first line, and behind it stands what the other lines say. -/
theorem splitLinesFrom_eq_cons {line cs piece : List Char} {pieces : List (List Char)}
    (h : splitLinesFrom line cs = piece :: pieces) :
    ∃ tail, line.reverse ++ cs = piece ++ tail ∧ fields tail = pieces.flatMap fields := by
  fun_induction splitLinesFrom line cs with
  | case1 line hline => cases h
  | case2 line hline =>
    cases h
    exact ⟨[], rfl, rfl⟩
  | case3 line rest ih =>
    cases h
    have hreturn : isBlank '\r' = true := by decide
    have hfeed : isBlank '\n' = true := by decide
    refine ⟨_, rfl, ?_⟩
    rw [fields_cons_blank hreturn, fields_cons_blank hfeed, flatMap_fields_splitLinesFrom]
    rfl
  | case4 line c rest _ hc ih =>
    cases h
    refine ⟨_, rfl, ?_⟩
    rw [fields_cons_blank (isBlank_of_isLineBoundary hc), flatMap_fields_splitLinesFrom]
    rfl
  | case5 line c rest _ hc ih =>
    obtain ⟨tail, htail, hfields⟩ := ih h
    refine ⟨tail, ?_, hfields⟩
    rw [← htail, List.reverse_cons, List.append_assoc, List.singleton_append]

/-- A text that is not empty has a line. -/
theorem splitLinesFrom_ne_nil {line cs : List Char} (h : line ≠ [] ∨ cs ≠ []) :
    splitLinesFrom line cs ≠ [] := by
  fun_induction splitLinesFrom line cs with
  | case1 line hline => exact absurd (List.isEmpty_iff.mp hline) (by simpa using h)
  | case2 line hline => nofun
  | case3 line rest ih => nofun
  | case4 line c rest _ hc ih => nofun
  | case5 line c rest _ hc ih => exact ih (.inl nofun)

/-! ## Lines of a file -/

theorem not_mem_foldNewlines (cs : List Char) : '\r' ∉ foldNewlines cs := by
  fun_induction foldNewlines cs with
  | case1 => nofun
  | case2 rest ih => simpa using ih
  | case3 rest _ ih => simpa using ih
  | case4 c rest _ hc ih =>
    rw [List.mem_cons, not_or]
    exact ⟨fun h => hc h.symm, ih⟩

theorem mem_foldNewlines {c : Char} {cs : List Char} (h : c ∈ foldNewlines cs) :
    c = '\n' ∨ c ∈ cs := by
  fun_induction foldNewlines cs with
  | case1 => cases h
  | case2 rest ih =>
    rcases List.mem_cons.mp h with rfl | h
    · exact .inl rfl
    · exact (ih h).imp_right fun h => List.mem_cons_of_mem _ (List.mem_cons_of_mem _ h)
  | case3 rest _ ih =>
    rcases List.mem_cons.mp h with rfl | h
    · exact .inl rfl
    · exact (ih h).imp_right (List.mem_cons_of_mem _)
  | case4 d rest _ _ ih =>
    rcases List.mem_cons.mp h with rfl | h
    · exact .inr List.mem_cons_self
    · exact (ih h).imp_right (List.mem_cons_of_mem _)

theorem foldNewlines_of_not_mem {cs : List Char} (h : '\r' ∉ cs) : foldNewlines cs = cs := by
  fun_induction foldNewlines cs with
  | case1 => rfl
  | case2 rest ih => exact absurd List.mem_cons_self h
  | case3 rest _ ih => exact absurd List.mem_cons_self h
  | case4 c rest _ hc ih => rw [ih fun hrest => h (List.mem_cons_of_mem _ hrest)]

theorem cutAfterNewline_ne {c : Char} (h : c ≠ '\n') (line cs : List Char) :
    cutAfterNewline line (c :: cs) = cutAfterNewline (c :: line) cs := by
  rw [cutAfterNewline]
  exact h

theorem ne_nil_of_mem_cutAfterNewline {line cs : List Char} :
    ∀ l ∈ cutAfterNewline line cs, l ≠ [] := by
  fun_induction cutAfterNewline line cs with
  | case1 line h => nofun
  | case2 line h => simpa using h
  | case3 line rest ih => exact List.forall_mem_cons.mpr ⟨by simp, ih⟩
  | case4 line c rest hc ih => exact ih

/-- Lines cut after the line feeds alone, and then at every boundary. -/
theorem flatMap_cutAfterNewline {line cs : List Char} (hline : '\r' ∉ line) (hcs : '\r' ∉ cs) :
    (cutAfterNewline line cs).flatMap splitLines = splitLines (line.reverse ++ cs) := by
  fun_induction cutAfterNewline line cs with
  | case1 line h =>
    rw [List.isEmpty_iff.mp h]
    rfl
  | case2 line h => simp
  | case3 line rest ih =>
    have hrest := ih nofun fun h => hcs (List.mem_cons_of_mem _ h)
    have hreverse : '\r' ∉ line.reverse := fun h => hline (List.mem_reverse.mp h)
    rw [List.flatMap_cons, hrest, List.reverse_cons]
    exact (splitLinesFrom_append_newline hreverse [] rest).symm
  | case4 line c rest hc ih =>
    rw [List.mem_cons, not_or] at hcs
    have hcons : '\r' ∉ c :: line := by
      rw [List.mem_cons, not_or]
      exact ⟨hcs.1, hline⟩
    rw [ih hcons hcs.2, List.reverse_cons, List.append_assoc, List.singleton_append]

/-- **A text in memory has the lines of the file, cut further.** -/
theorem flatMap_fileLines (cs : List Char) : (fileLines cs).flatMap splitLines = splitLines cs := by
  rw [fileLines, flatMap_cutAfterNewline List.not_mem_nil (not_mem_foldNewlines cs)]
  exact splitLinesFrom_foldNewlines [] cs

/-- Each line of a file makes one line in memory at least. -/
theorem splitLines_ne_nil_of_mem {cs : List Char} : ∀ l ∈ fileLines cs, splitLines l ≠ [] :=
  fun l hl => splitLinesFrom_ne_nil (.inr (ne_nil_of_mem_cutAfterNewline l hl))

/-- Where every boundary is a line feed, the two have the same lines, but for the line feed. -/
theorem forall₂_cutAfterNewline {cs : List Char} (h : '\r' ∉ cs) (line : List Char) :
    List.Forall₂ (fun l m => m = l ∨ m = l ++ ['\n']) (splitLinesFrom line cs)
      (cutAfterNewline line (cs.map asLineFeed)) := by
  induction cs generalizing line with
  | nil =>
    rw [List.map_nil, splitLinesFrom, cutAfterNewline]
    split
    · exact .nil
    · exact .cons (.inl rfl) .nil
  | cons c cs ih =>
    rw [List.mem_cons, not_or] at h
    rw [List.map_cons, splitLinesFrom_ne (Ne.symm h.1), asLineFeed]
    split
    · exact .cons (.inr (List.reverse_cons ..)) (ih h.2 [])
    · rename_i hc
      have hne : c ≠ '\n' := by
        rintro rfl
        exact hc (by decide)
      rw [cutAfterNewline_ne hne]
      exact ih h.2 (c :: line)

theorem forall₂_withLineFeeds (cs : List Char) :
    List.Forall₂ (fun l m => m = l ∨ m = l ++ ['\n']) (splitLines cs)
      (fileLines (withLineFeeds cs)) := by
  have hreturn : '\r' ∉ withLineFeeds cs := by
    intro h
    obtain ⟨c, hc, heq⟩ := List.mem_map.mp h
    unfold asLineFeed at heq
    split at heq
    · cases heq
    · exact not_mem_foldNewlines cs (heq ▸ hc)
  rw [fileLines, foldNewlines_of_not_mem hreturn, splitLines, ← splitLinesFrom_foldNewlines]
  exact forall₂_cutAfterNewline (not_mem_foldNewlines cs) []

theorem asLineFeed_of_mem {cs : List Char}
    (h : ∀ c ∈ cs, isLineBoundary c = true → c = '\n' ∨ c = '\r') :
    ∀ c ∈ foldNewlines cs, asLineFeed c = c := by
  intro c hc
  unfold asLineFeed
  split
  · rename_i hboundary
    rcases mem_foldNewlines hc with rfl | hmem
    · rfl
    rcases h c hmem hboundary with rfl | rfl
    · rfl
    · exact absurd hc (not_mem_foldNewlines cs)
  · rfl

/-- A text without boundaries of memory alone has its lines, whichever way the others are read. -/
theorem fileLines_withLineFeeds {cs : List Char}
    (h : ∀ c ∈ cs, isLineBoundary c = true → c = '\n' ∨ c = '\r') :
    fileLines (withLineFeeds cs) = fileLines cs := by
  have hmark : withLineFeeds cs = foldNewlines cs :=
    (List.map_congr_left (asLineFeed_of_mem h)).trans (List.map_id' _)
  rw [fileLines, fileLines, hmark, foldNewlines_of_not_mem (not_mem_foldNewlines cs)]

end KernelProfile.Text
