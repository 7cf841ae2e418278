import KernelProfile.Proofs.Dwarf.Member
import KernelProfile.Proofs.Reference

/-! Where the references of translated types come from. Following type attributes through arrays,
pointers, typedefs and qualifiers leads to at most one definition; the reference that stands in
the type of an entry is the one to that definition. -/
namespace KernelProfile.Dwarf

namespace Die

/-- The reference that a definition's own entry translates to. -/
def reference? (d : Die) : Option Reference :=
  if d.tag = enumTag then some (.enumeration d.typeName)
  else if isAggregateTag d.tag then some (.aggregate d.typeName)
  else none

end Die

/-- Tags whose type goes on in the entry that the type attribute refers to. -/
def isLinkTag (tag : String) : Bool :=
  tag == "DW_TAG_array_type" || isPointerTag tag || isTransparentTag tag

namespace DebugInfo

/-- Following type attributes from one entry ends at another, which is a definition. -/
inductive Leads (info : DebugInfo) : Die → Die → Prop
  | here {d : Die} {r : Reference} (h : d.reference? = some r) : Leads info d d
  | link {d t e : Die} (hd : isLinkTag d.tag = true) (ha : d.has "DW_AT_type" = true)
      (ht : info.target d = .ok t) (h : Leads info t e) : Leads info d e

/-- The type attribute of an entry leads to a definition. -/
def RefersTo (info : DebugInfo) (d e : Die) : Prop :=
  d.has "DW_AT_type" = true ∧ ∃ t, info.target d = .ok t ∧ info.Leads t e

/-- A definition refers to another: an enumeration by its own type attribute, an aggregate by that
of a member. -/
inductive Mentions (info : DebugInfo) (d e : Die) : Prop
  | subtype (hd : d.tag = enumTag) (h : info.RefersTo d e)
  | member {m : Die} (hd : isAggregateTag d.tag = true) (hm : m ∈ (info.children d).1)
      (ht : m.tag = "DW_TAG_member") (h : info.RefersTo m e)

variable {info : DebugInfo}

/-- What a linking entry refers to, over the links that are left. -/
def under (info : DebugInfo) (links : Nat) (d : Die) : Except ReadError Ty :=
  if d.has "DW_AT_type" then
    match info.target d with
    | .ok target => info.typeWithin links target
    | .error e => .error e
  else .ok .void

theorem under_eq_ok {links : Nat} {d : Die} {t : Ty} (h : info.under links d = .ok t) :
    (d.has "DW_AT_type" = true ∧ ∃ target, info.target d = .ok target ∧
      info.typeWithin links target = .ok t) ∨ t = .void := by
  unfold under at h
  split at h
  · rename_i ha
    split at h
    · rename_i target ht
      exact .inl ⟨ha, target, ht, h⟩
    · cases h
  · cases h
    exact .inr rfl

theorem typeWithin_succ (links : Nat) (d : Die) :
    info.typeWithin (links + 1) d =
      if d.tag = "DW_TAG_base_type" then .ok (.base d.baseKind)
      else if d.tag = enumTag then .ok (.enumRef d.typeName)
      else if isAggregateTag d.tag then .ok (.structRef d.typeName)
      else if d.tag = "DW_TAG_array_type" then
        match info.under links d with
        | .error e => .error e
        | .ok element =>
          match whole (info.children d) with
          | .error e => .error e
          | .ok children =>
            let dims := (children.filter fun c => c.tag = "DW_TAG_subrange_type").map Die.extent
            .ok (.array element dims (dims.headD 0))
      else if isPointerTag d.tag then (info.under links d).map .pointer
      else if d.tag = "DW_TAG_subroutine_type" then .ok .function
      else if isTransparentTag d.tag then info.under links d
      else .ok .void := rfl

/-- A reference in the type of an entry is the entry's own, or it stands in the type under it. -/
theorem typeWithin_cases {links : Nat} {d : Die} {t : Ty} {r : Reference}
    (h : info.typeWithin (links + 1) d = .ok t) (hr : t.reference? = some r) :
    d.reference? = some r ∨
      (isLinkTag d.tag = true ∧ ∃ u, info.under links d = .ok u ∧ u.reference? = some r) := by
  rw [typeWithin_succ] at h
  -- one case per kind of tag: definitions hold their own reference, links that of the type under
  -- them, and base types, functions and all the rest none
  split at h
  · cases h
    cases hr
  split at h
  · rename_i henum
    cases h
    exact .inl (by rw [Die.reference?, if_pos henum]; exact hr)
  split at h
  · rename_i henum hagg
    cases h
    exact .inl (by rw [Die.reference?, if_neg henum, if_pos hagg]; exact hr)
  split at h
  · rename_i harray
    split at h
    · cases h
    · rename_i element hu
      split at h
      · cases h
      · cases h
        exact .inr ⟨by simp [isLinkTag, harray], element, hu, hr⟩
  split at h
  · rename_i hpointer
    cases hu : info.under links d with
    | error e => rw [hu] at h; cases h
    | ok u =>
      rw [hu] at h
      cases h
      exact .inr ⟨by simp [isLinkTag, hpointer], u, rfl, hr⟩
  split at h
  · cases h
    cases hr
  split at h
  · rename_i htransparent
    exact .inr ⟨by simp [isLinkTag, htransparent], t, h, hr⟩
  · cases h
    cases hr

theorem typeWithin_reference {links : Nat} {d : Die} {t : Ty} {r : Reference}
    (h : info.typeWithin links d = .ok t) (hr : t.reference? = some r) :
    ∃ e, info.Leads d e ∧ e.reference? = some r := by
  induction links generalizing d t with
  | zero =>
    -- a chain that is cut off stands for no type
    cases h
    cases hr
  | succ links ih =>
    rcases typeWithin_cases h hr with hd | ⟨hd, u, hu, hur⟩
    · exact ⟨d, .here hd, hd⟩
    · rcases under_eq_ok hu with ⟨ha, target, ht, hw⟩ | rfl
      · obtain ⟨e, he, her⟩ := ih hw hur
        exact ⟨e, .link hd ha ht he, her⟩
      · cases hur

theorem referencedType_reference {d : Die} {t : Ty} {r : Reference}
    (h : info.referencedType d = .ok t) (hr : t.reference? = some r) :
    ∃ e, info.RefersTo d e ∧ e.reference? = some r := by
  unfold referencedType at h
  split at h
  · rename_i ha
    obtain ⟨target, ht, hw⟩ := bind_eq_ok.mp h
    obtain ⟨e, he, her⟩ := typeWithin_reference hw hr
    exact ⟨e, ⟨ha, target, ht, he⟩, her⟩
  · cases h
    cases hr

/-- The type of a member is what it refers to, maybe as a bit-field. -/
theorem memberLayout_type {m : Die} {offset : Int} {t : Ty}
    (h : info.memberLayout m = .ok (offset, t)) :
    ∃ u, info.referencedType m = .ok u ∧ t.reference? = u.reference? := by
  unfold memberLayout at h
  dsimp only at h
  split at h
  · obtain ⟨u, hu, he⟩ := bind_eq_ok.mp h
    cases he
    exact ⟨t, hu, rfl⟩
  · -- counted from the top or not, and then placed or not: the type under it is the same
    split at h
    all_goals
      obtain ⟨first, _, h⟩ := bind_eq_ok.mp h
      split at h
      all_goals
        obtain ⟨u, hu, he⟩ := bind_eq_ok.mp h
        cases he
        exact ⟨u, hu, rfl⟩

theorem memberLayout_reference {m : Die} {offset : Int} {t : Ty} {r : Reference}
    (h : info.memberLayout m = .ok (offset, t)) (hr : t.reference? = some r) :
    ∃ e, info.RefersTo m e ∧ e.reference? = some r := by
  obtain ⟨u, hu, hut⟩ := memberLayout_type h
  exact referencedType_reference hu (hut ▸ hr)

/-- The run lemma for the entries below an entry. -/
theorem foldChildren_keeps {α : Type} {step : α → Die → Except CollectError α} {P : α → Prop}
    {d : Die} {a a' : α}
    (hstep : ∀ c ∈ (info.children d).1, ∀ x y, P x → step x c = .ok y → P y) (ha : P a)
    (h : info.foldChildren step a d = .ok a') : P a' := by
  unfold foldChildren at h
  obtain ⟨mid, hmid, h⟩ := bind_eq_ok.mp h
  split at h
  · cases h
    exact foldlM_keeps hstep ha hmid
  · cases h

theorem structDef_mentions {kind : StructKind} {d : Die} {s : StructDef} {field : String}
    {m : Member} {r : Reference} (hd : isAggregateTag d.tag = true)
    (h : info.structDef kind d = .ok s) (hm : (field, m) ∈ s.fields.entries)
    (hr : m.type.reference? = some r) : ∃ e, info.Mentions d e ∧ e.reference? = some r := by
  unfold structDef at h
  obtain ⟨fields, hf, h⟩ := bind_eq_ok.mp h
  cases h
  -- every field so far has the layout of one of the members below
  have hall : ∀ x ∈ fields.entries, ∀ r, x.2.type.reference? = some r →
      ∃ e, info.Mentions d e ∧ e.reference? = some r := by
    refine foldChildren_keeps (P := fun fields : Table Member => ∀ x ∈ fields.entries, ∀ r,
      x.2.type.reference? = some r → ∃ e, info.Mentions d e ∧ e.reference? = some r) ?_ ?_ hf
    · intro c hc fields fields' hP hstep x hx r hr
      rcases addMember_eq_ok.mp hstep with ⟨-, rfl⟩ | ⟨ht, member, hl, rfl⟩
      · exact hP x hx r hr
      · rcases Table.mem_entries_insert hx with rfl | hx
        · obtain ⟨e, he, her⟩ := memberLayout_reference hl hr
          exact ⟨e, .member hd hc ht he, her⟩
        · exact hP x hx r hr
    · simp
  exact hall _ hm r hr

theorem enumDef_mentions {d : Die} {x : EnumDef} {r : Reference} (hd : d.tag = enumTag)
    (h : info.enumDef d = .ok x) (hr : x.subtype.reference? = some r) :
    ∃ e, info.Mentions d e ∧ e.reference? = some r := by
  unfold enumDef at h
  obtain ⟨subtype, hs, h⟩ := bind_eq_ok.mp h
  obtain ⟨fields, _, h⟩ := bind_eq_ok.mp h
  cases h
  rw [mapError_eq_ok] at hs
  unfold enumSubtype at hs
  split at hs
  · obtain ⟨e, he, her⟩ := referencedType_reference hs hr
    exact ⟨e, .subtype hd he, her⟩
  · cases hs
    cases hr

end DebugInfo
end KernelProfile.Dwarf
