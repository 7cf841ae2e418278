import KernelProfile.Text.Blank

/-! The fields of a line are the pieces between its blanks that are not empty. So a blank between
two texts keeps their fields apart, and blanks at either end add none. -/
namespace KernelProfile.Text

/-- Fields by splitting: the two-character lookahead gives the non-empty pieces between blanks. -/
theorem fields_eq (cs : List Char) : fields cs = (cs.splitOnP isBlank).filter (!·.isEmpty) := by
  fun_induction fields cs with
  | case1 => rfl
  | case2 c hc => simp [List.splitOnP_cons_eq_if_modifyHead, List.splitOnP_nil, hc]
  | case3 c hc => simp [List.splitOnP_cons_eq_if_modifyHead, List.splitOnP_nil, hc]
  | case4 c d rest hc ih =>
    rw [ih, List.splitOnP_cons_eq_if_modifyHead c, if_pos hc]
    rfl
  | case5 c d rest hc hd ih =>
    rw [ih, List.splitOnP_cons_eq_if_modifyHead c, if_neg hc,
      List.splitOnP_cons_eq_if_modifyHead, if_pos hd]
    rfl
  | case6 c d rest hc hd ih =>
    -- both characters belong to the first piece, whatever follows them
    obtain ⟨piece, pieces, hpieces⟩ := List.exists_cons_of_ne_nil (rest.splitOnP_ne_nil isBlank)
    rw [ih, List.splitOnP_cons_eq_if_modifyHead c, if_neg hc,
      List.splitOnP_cons_eq_if_modifyHead, if_neg hd, hpieces]
    rfl

theorem fields_append_cons {b : Char} (hb : isBlank b = true) (before after : List Char) :
    fields (before ++ b :: after) = fields before ++ fields after := by
  simp only [fields_eq, List.splitOnP_append_cons before after hb, List.filter_append]

/-- A text without blanks is one field. -/
theorem fields_of_word {cs : List Char} (hne : cs ≠ []) (h : ∀ c ∈ cs, isBlank c = false) :
    fields cs = [cs] := by
  rw [fields_eq, List.splitOnP_eq_singleton h]
  simp [hne]

theorem fields_cons_blank {b : Char} (hb : isBlank b = true) (cs : List Char) :
    fields (b :: cs) = fields cs :=
  fields_append_cons hb [] cs

theorem fields_append_blanks {blanks : List Char} (h : ∀ b ∈ blanks, isBlank b = true)
    (cs : List Char) : fields (cs ++ blanks) = fields cs := by
  induction blanks generalizing cs with
  | nil => rw [List.append_nil]
  | cons b blanks ih =>
    rw [fields_append_cons (h b List.mem_cons_self), ← List.nil_append blanks,
      ih (fun b' hb' => h b' (List.mem_cons_of_mem _ hb'))]
    exact List.append_nil _

/-- Nothing but blanks makes no field. -/
theorem fields_eq_nil_iff {cs : List Char} : fields cs = [] ↔ ∀ c ∈ cs, isBlank c = true := by
  constructor
  · intro h
    fun_induction fields cs with
    | case1 => nofun
    | case2 c hc => simpa using hc
    | case3 c hc => cases h
    | case4 c d rest hc ih => exact List.forall_mem_cons.mpr ⟨hc, ih h⟩
    | case5 c d rest hc hd ih => cases h
    | case6 c d rest hc hd ih =>
      unfold prependTo at h
      split at h <;> cases h
  · intro h
    exact fields_append_blanks h []

end KernelProfile.Text
