import KernelProfile.Dwarf.Collect
import KernelProfile.Proofs.Except
import KernelProfile.Proofs.Numbering
import Mathlib.Data.List.Forall2

/-! Members of an entry's definition. The entries below that are members are put in one after the
other, each with its layout; a definition can be built exactly if all of them have one, and then it
is the table of these members. -/
namespace KernelProfile.Dwarf.DebugInfo

variable {info : DebugInfo} {kind : StructKind} {d : Die} {dies before after : List Die}
  {members : List (Option String × Member)} {fields : Table Member}

/-- The members among the entries below an aggregate, in order: each with the name that it has and
with its layout, which can be read. -/
def Members (info : DebugInfo) (dies : List Die) (members : List (Option String × Member)) :
    Prop :=
  List.Forall₂ (fun d m => d.name? = m.1 ∧ info.memberLayout d = .ok (m.2.offset, m.2.type))
    (dies.filter fun d => d.tag = "DW_TAG_member") members

/-- The step lemma: an entry is passed over, or it is put in as a member. -/
theorem addMember_eq_ok {fields' : Table Member} : info.addMember fields d = .ok fields' ↔
    (d.tag ≠ "DW_TAG_member" ∧ fields' = fields) ∨
      (d.tag = "DW_TAG_member" ∧
        ∃ m, info.memberLayout d = .ok (m.offset, m.type) ∧
          fields' = fields.putMember (d.name?, m)) := by
  unfold addMember
  by_cases htag : d.tag = "DW_TAG_member"
  · simp only [htag, if_true, ne_eq, not_true, false_and, false_or, true_and]
    cases info.memberLayout d with
    | error e => simp
    | ok layout =>
      obtain ⟨offset, type⟩ := layout
      constructor
      · rintro h
        cases h
        exact ⟨⟨offset, type⟩, rfl, rfl⟩
      · rintro ⟨m, hm, rfl⟩
        cases hm
        rfl
  · simp [htag, eq_comm]

/-- The run lemma. -/
theorem foldlM_addMember_eq_ok {fields' : Table Member} :
    dies.foldlM info.addMember fields = .ok fields' ↔
      ∃ members, info.Members dies members ∧ fields' = members.foldl Table.putMember fields := by
  induction dies generalizing fields with
  | nil =>
    constructor
    · intro h
      cases h
      exact ⟨[], .nil, rfl⟩
    · rintro ⟨members, hmembers, rfl⟩
      cases hmembers
      rfl
  | cons d dies ih =>
    rw [List.foldlM_cons, bind_eq_ok]
    simp only [addMember_eq_ok, ih]
    by_cases htag : d.tag = "DW_TAG_member"
    · simp only [Members, htag, List.filter_cons, decide_true, if_true, List.forall₂_cons_left_iff]
      constructor
      · rintro ⟨mid, ⟨h, -⟩ | ⟨-, m, hm, rfl⟩, members, hmembers, rfl⟩
        · exact absurd rfl h
        · exact ⟨_, ⟨(d.name?, m), members, ⟨rfl, hm⟩, hmembers, rfl⟩, rfl⟩
      · rintro ⟨_, ⟨⟨name?, m⟩, members, ⟨rfl, hm⟩, hmembers, rfl⟩, rfl⟩
        exact ⟨_, .inr ⟨trivial, m, hm, rfl⟩, members, hmembers, rfl⟩
    · simp [Members, htag]

theorem Members.append_inv (h : info.Members (before ++ after) members) :
    ∃ first rest, info.Members before first ∧ members = first ++ rest := by
  unfold Members at h
  rw [List.filter_append] at h
  have hfirst := List.forall₂_take_append members _ _ h.flip
  exact ⟨_, _, hfirst.flip, (List.take_append_drop _ _).symm⟩

/-- The definition of an aggregate can be built exactly if the entries below are listed and every
member has a layout. -/
theorem structDef_eq_ok {s : StructDef} : info.structDef kind d = .ok s ↔
    ∃ dies members, info.children d = (dies, none) ∧ info.Members dies members ∧
      s = ⟨kind, (d.constant? "DW_AT_byte_size").getD 0, .ofMembers members⟩ := by
  unfold structDef foldChildren
  obtain ⟨dies, fault⟩ := info.children d
  constructor
  · intro h
    obtain ⟨fields, hfields, hs⟩ := bind_eq_ok.mp h
    obtain ⟨fields', hfold, hfault⟩ := bind_eq_ok.mp hfields
    obtain ⟨members, hmembers, rfl⟩ := foldlM_addMember_eq_ok.mp hfold
    cases fault with
    | some e => cases hfault
    | none =>
      cases hfault
      cases hs
      exact ⟨dies, members, rfl, hmembers, rfl⟩
  · rintro ⟨_, members, heq, hmembers, rfl⟩
    cases heq
    have hfold : dies.foldlM info.addMember .empty = .ok (.ofMembers members) :=
      foldlM_addMember_eq_ok.mpr ⟨members, hmembers, rfl⟩
    dsimp only
    rw [hfold]
    rfl

/-- If no member declares a name that is made, the definition lists them all. -/
theorem structDef_complete (hchildren : info.children d = (dies, none))
    (hmembers : info.Members dies members) (hapart : Table.Apart members) :
    ∃ s, info.structDef kind d = .ok s ∧ s.kind = kind ∧
      s.size = (d.constant? "DW_AT_byte_size").getD 0 ∧ s.fields.Complete members ∧
      ∀ before after, dies = before ++ after →
        ∃ first t, info.Members before first ∧ before.foldlM info.addMember .empty = .ok t ∧
          t.keys = s.fields.keys.take (Table.fieldCount first) := by
  refine ⟨_, structDef_eq_ok.mpr ⟨dies, members, hchildren, hmembers, rfl⟩, rfl, rfl,
    Table.complete_ofMembers hapart, ?_⟩
  rintro before after rfl
  obtain ⟨first, rest, hfirst, rfl⟩ := hmembers.append_inv
  refine ⟨first, .ofMembers first, hfirst, foldlM_addMember_eq_ok.mpr ⟨first, hfirst, rfl⟩, ?_⟩
  rw [Table.keys_ofMembers_eq_take, Table.size_ofMembers hapart.left]

end KernelProfile.Dwarf.DebugInfo
