import KernelProfile.Proofs.Table
import KernelProfile.Proofs.Text.Numeral

/-! Tables of members some of which have no name. A member with a name is put under it, any other
one under a name made of the number of fields so far. That number stays where a name comes again,
so it is not the number of members; what keeps the made names apart is that no field ever has one
of a number that was not reached. -/
namespace KernelProfile.Table

universe u

variable {α : Type u} {fields : Table α} {members before after : List (Option String × α)}
  {key name : String} {a : α}

/-- The name that is made in a structure of so many fields. -/
def fieldNumber (count : Nat) : String := "__unnamed_field_" ++ Text.hex count

theorem fieldNumber_inj {m n : Nat} (h : fieldNumber m = fieldNumber n) : m = n :=
  Text.hex_inj ((String.append_right_inj _).mp h)

/-- Put a member under its name, or under one made of the number of fields. -/
def putMember (fields : Table α) (m : Option String × α) : Table α :=
  fields.insert (m.1.getD (fieldNumber fields.size)) m.2

/-- The fields that members become, one after the other. -/
def ofMembers (members : List (Option String × α)) : Table α := members.foldl putMember .empty

/-- No member's name is one that is made. -/
def Apart (members : List (Option String × α)) : Prop :=
  ∀ m ∈ members, ∀ n, m.1 ≠ some (fieldNumber n)

/-- One field for every name among the members, and one for every member without a name. -/
def fieldCount (members : List (Option String × α)) : Nat :=
  (members.filterMap Prod.fst).eraseDups.length + members.countP fun m => m.1.isNone

/-- The fields are those of the members: as many as `fieldCount` says; each member without a name
under a made one that is new at its place and holds this very member; each name at the place where
it first comes, with the member that it comes with last. -/
structure Complete (fields : Table α) (members : List (Option String × α)) : Prop where
  size : fields.size = fieldCount members
  unnamed : ∀ before a after, members = before ++ (none, a) :: after →
    fieldNumber (fieldCount before) ∉ fields.keys.take (fieldCount before) ∧
      fields.keys[fieldCount before]? = some (fieldNumber (fieldCount before)) ∧
      fields.get? (fieldNumber (fieldCount before)) = some a
  first : ∀ before name a after, members = before ++ (some name, a) :: after →
    (∀ m ∈ before, m.1 ≠ some name) → fields.keys[fieldCount before]? = some name
  last : ∀ before name a after, members = before ++ (some name, a) :: after →
    (∀ m ∈ after, m.1 ≠ some name) → fields.get? name = some a

theorem Apart.left (h : Apart (before ++ after)) : Apart before :=
  fun m hm => h m (List.mem_append_left _ hm)

@[simp] theorem ofMembers_nil : ofMembers ([] : List (Option String × α)) = .empty := rfl

theorem ofMembers_append : ofMembers (before ++ after) = after.foldl putMember (ofMembers before) :=
  List.foldl_append

theorem ofMembers_concat (m : Option String × α) :
    ofMembers (members ++ [m]) = (ofMembers members).putMember m :=
  ofMembers_append

/-! ## Keys -/

/-- The run lemma: a field keeps its place. -/
theorem keys_prefix_foldl (members : List (Option String × α)) :
    fields.keys <+: (members.foldl putMember fields).keys := by
  induction members generalizing fields with
  | nil => exact List.prefix_rfl
  | cons m members ih => exact (keys_prefix_insert ..).trans ih

theorem size_le_putMember (fields : Table α) (m : Option String × α) :
    fields.size ≤ (fields.putMember m).size := by
  rw [← length_keys, ← length_keys]
  exact (keys_prefix_insert ..).length_le

theorem keys_prefix_ofMembers (before after : List (Option String × α)) :
    (ofMembers before).keys <+: (ofMembers (before ++ after)).keys := by
  rw [ofMembers_append]
  exact keys_prefix_foldl after

theorem keys_ofMembers_eq_take (before after : List (Option String × α)) :
    (ofMembers before).keys = (ofMembers (before ++ after)).keys.take (ofMembers before).size := by
  rw [← length_keys]
  exact List.prefix_iff_eq_take.mp (keys_prefix_ofMembers ..)

/-- The key of a member that is put in as a new one comes right behind the fields so far. -/
theorem getElem?_keys_ofMembers {m : Option String × α} (after : List (Option String × α))
    (hnew : m.1.getD (fieldNumber (ofMembers before).size) ∉ (ofMembers before).keys) :
    (ofMembers (before ++ m :: after)).keys[(ofMembers before).size]? =
      some (m.1.getD (fieldNumber (ofMembers before).size)) := by
  have hput : (ofMembers (before ++ [m])).keys =
      (ofMembers before).keys ++ [m.1.getD (fieldNumber (ofMembers before).size)] := by
    rw [ofMembers_concat, putMember, keys_insert, if_neg hnew]
  have hprefix : (ofMembers (before ++ [m])).keys <+: (ofMembers (before ++ m :: after)).keys := by
    rw [List.append_cons before m after]
    exact keys_prefix_ofMembers ..
  obtain ⟨rest, hrest⟩ := hprefix
  rw [← hrest, hput, ← length_keys]
  simp

/-! ## Made names -/

/-- Every made name that a field has was made of a smaller number of fields than there are now. -/
def Numbered (fields : Table α) : Prop := ∀ n, fieldNumber n ∈ fields.keys → n < fields.size

/-- A name that is made now is new. -/
theorem Numbered.fresh (h : Numbered fields) : fieldNumber fields.size ∉ fields.keys :=
  fun hm => Nat.lt_irrefl _ (h _ hm)

theorem Numbered.keys_putMember (h : Numbered fields) (a : α) :
    (fields.putMember (none, a)).keys = fields.keys ++ [fieldNumber fields.size] := by
  rw [Table.putMember, keys_insert, Option.getD_none, if_neg h.fresh]

/-- The step lemma. -/
theorem Numbered.putMember (h : Numbered fields) {m : Option String × α}
    (hm : ∀ n, m.1 ≠ some (fieldNumber n)) : Numbered (fields.putMember m) := by
  intro n hn
  obtain ⟨name?, a⟩ := m
  cases name? with
  | some name =>
    -- a name of its own adds no key that was made
    have hne : fieldNumber n ≠ name := fun heq => hm n (heq ▸ rfl)
    have hold : fieldNumber n ∈ fields.keys := by
      rw [Table.putMember, keys_insert] at hn
      split at hn
      · exact hn
      · simpa [hne] using hn
    exact Nat.lt_of_lt_of_le (h n hold) (size_le_putMember fields _)
  | none =>
    have hsize : (fields.putMember (none, a)).size = fields.size + 1 := by
      rw [← length_keys, h.keys_putMember, List.length_append, length_keys, List.length_singleton]
    rw [h.keys_putMember, List.mem_append, List.mem_singleton] at hn
    rcases hn with hold | hnew
    · have hlt := h n hold
      omega
    · have heq := fieldNumber_inj hnew
      omega

/-- The run lemma. -/
theorem numbered_ofMembers (h : Apart members) : Numbered (ofMembers members) := by
  induction members using List.reverseRecOn with
  | nil =>
    intro n hn
    simp at hn
  | append_singleton members m ih =>
    rw [ofMembers_concat]
    exact (ih h.left).putMember (h m (by simp))

/-- A key that is not made is a key of the fields exactly if it is a member's name. -/
theorem mem_keys_ofMembers (hkey : ∀ n, key ≠ fieldNumber n) :
    key ∈ (ofMembers members).keys ↔ key ∈ members.filterMap Prod.fst := by
  induction members using List.reverseRecOn with
  | nil => simp
  | append_singleton members m ih =>
    have hput : key ∈ (ofMembers (members ++ [m])).keys ↔
        key ∈ (ofMembers members).keys ∨ key = m.1.getD (fieldNumber (ofMembers members).size) := by
      rw [ofMembers_concat, putMember, keys_insert]
      split
      · rename_i hold
        exact ⟨.inl, fun h => h.elim id fun heq => heq ▸ hold⟩
      · rw [List.mem_append, List.mem_singleton]
    obtain ⟨name?, a⟩ := m
    rw [hput, ih, List.filterMap_append, List.mem_append]
    cases name? with
    | none => simp [hkey]
    | some name => simp

theorem mem_filterMap_fst :
    name ∈ members.filterMap Prod.fst ↔ ∃ m ∈ members, m.1 = some name := by
  simp

theorem Apart.ne_fieldNumber (h : Apart members) (hname : name ∈ members.filterMap Prod.fst)
    (n : Nat) : name ≠ fieldNumber n := by
  obtain ⟨m, hm, hfst⟩ := mem_filterMap_fst.mp hname
  rintro rfl
  exact h m hm n hfst

/-! ## The number of fields -/

theorem fieldCount_concat_unnamed :
    fieldCount (members ++ [(none, a)]) = fieldCount members + 1 := by
  simp [fieldCount]
  omega

theorem fieldCount_concat_named :
    fieldCount (members ++ [(some name, a)]) =
      if name ∈ members.filterMap Prod.fst then fieldCount members else fieldCount members + 1 := by
  have hnames : (members ++ [(some name, a)]).filterMap Prod.fst =
      members.filterMap Prod.fst ++ [name] := by simp
  have hunnamed : (members ++ [(some name, a)]).countP (fun m => m.1.isNone) =
      members.countP fun m => m.1.isNone := by simp
  rw [fieldCount, hnames, hunnamed, eraseDups_concat, fieldCount]
  split
  · rfl
  · rw [List.length_append, List.length_singleton, Nat.add_right_comm]

theorem size_ofMembers (h : Apart members) : (ofMembers members).size = fieldCount members := by
  induction members using List.reverseRecOn with
  | nil => rfl
  | append_singleton members m ih =>
    obtain ⟨name?, a⟩ := m
    have hih := ih h.left
    rw [ofMembers_concat, putMember, size_insert, hih]
    cases name? with
    | none =>
      have hfresh := (numbered_ofMembers h.left).fresh
      rw [hih] at hfresh
      rw [Option.getD_none, if_neg hfresh, fieldCount_concat_unnamed]
    | some name =>
      have hapart : ∀ n, name ≠ fieldNumber n := h.ne_fieldNumber (by simp)
      simp only [Option.getD_some, fieldCount_concat_named, mem_keys_ofMembers hapart]

/-! ## Fields that stay -/

/-- The run lemma: members with other names leave a field as it is, if its name is not one that is
still to be made. -/
theorem get?_foldl_putMember (hnames : ∀ m ∈ after, m.1 ≠ some key)
    (hmade : ∀ n, key = fieldNumber n → n < fields.size) :
    (after.foldl putMember fields).get? key = fields.get? key := by
  induction after generalizing fields with
  | nil => rfl
  | cons m after ih =>
    have hne : key ≠ m.1.getD (fieldNumber fields.size) := by
      have hm := hnames m List.mem_cons_self
      cases hfst : m.1 with
      | none => exact fun heq => Nat.lt_irrefl _ (hmade _ heq)
      | some name =>
        rintro rfl
        exact hm hfst
    have hle := size_le_putMember fields m
    rw [List.foldl_cons, ih (fun m' hm' => hnames m' (List.mem_cons_of_mem _ hm'))
      fun n hn => Nat.lt_of_lt_of_le (hmade n hn) hle]
    rw [putMember, get?_insert, if_neg hne]

/-- A member is found under its name, if no later one has the same name. -/
theorem get?_ofMembers {m : Option String × α} (hapart : Apart (before ++ m :: after))
    (hlast : m.1.isSome → ∀ m' ∈ after, m'.1 ≠ m.1) :
    (ofMembers (before ++ m :: after)).get? (m.1.getD (fieldNumber (ofMembers before).size)) =
      some m.2 := by
  rw [ofMembers_append, List.foldl_cons, get?_foldl_putMember, putMember, get?_insert, if_pos rfl]
  · intro m' hm'
    have hm'apart := hapart m' (by simp [hm'])
    cases hfst : m.1 with
    | none => exact hm'apart _
    | some name => exact hfst ▸ hlast (by rw [hfst]; rfl) m' hm'
  · intro n hn
    cases hfst : m.1 with
    | none =>
      rw [hfst] at hn
      have hsize : (ofMembers before).size = n := fieldNumber_inj hn
      have hfresh := (numbered_ofMembers hapart.left).fresh
      rw [putMember, size_insert, hfst, Option.getD_none, if_neg hfresh]
      omega
    | some name =>
      have hname : name = fieldNumber n := by simpa [hfst] using hn
      exact absurd (hname ▸ hfst) (hapart m (by simp) n)

/-- A member without a name has a field of its own, right behind those that there were. -/
theorem unnamed_ofMembers (h : Apart (before ++ (none, a) :: after)) :
    fieldNumber (fieldCount before) ∉
        (ofMembers (before ++ (none, a) :: after)).keys.take (fieldCount before) ∧
      (ofMembers (before ++ (none, a) :: after)).keys[fieldCount before]? =
        some (fieldNumber (fieldCount before)) ∧
      (ofMembers (before ++ (none, a) :: after)).get? (fieldNumber (fieldCount before)) =
        some a := by
  have hfresh := (numbered_ofMembers h.left).fresh
  have hkeys := keys_ofMembers_eq_take before ((none, a) :: after)
  have hplace := getElem?_keys_ofMembers (m := (none, a)) after hfresh
  have hget := get?_ofMembers h (fun hsome => by cases hsome)
  simp only [Option.getD_none, size_ofMembers h.left] at hfresh hkeys hplace hget
  exact ⟨hkeys ▸ hfresh, hplace, hget⟩

/-- A name has its place where it comes first. -/
theorem first_ofMembers (h : Apart (before ++ (some name, a) :: after))
    (hfirst : ∀ m ∈ before, m.1 ≠ some name) :
    (ofMembers (before ++ (some name, a) :: after)).keys[fieldCount before]? = some name := by
  have hname : ∀ n, name ≠ fieldNumber n := h.ne_fieldNumber (by simp)
  have hnew : name ∉ (ofMembers before).keys := by
    rw [mem_keys_ofMembers hname, mem_filterMap_fst]
    rintro ⟨m, hm, hfst⟩
    exact hfirst m hm hfst
  have hplace := getElem?_keys_ofMembers (m := (some name, a)) after hnew
  rwa [size_ofMembers h.left] at hplace

/-- No member is lost. -/
theorem complete_ofMembers (h : Apart members) : Complete (ofMembers members) members where
  size := size_ofMembers h
  unnamed := by
    rintro before a after rfl
    exact unnamed_ofMembers h
  first := by
    rintro before name a after rfl hfirst
    exact first_ofMembers h hfirst
  last := by
    rintro before name a after rfl hlast
    exact get?_ofMembers h fun _ => hlast

end KernelProfile.Table
