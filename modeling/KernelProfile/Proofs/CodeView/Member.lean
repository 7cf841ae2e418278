import KernelProfile.Proofs.CodeView.Collect
import KernelProfile.Proofs.Numbering

/-! Names of the fields that members become. A member that declares a name is put under it, and any
other one under a name made of the number of fields so far. The made names begin as a compiler's
do, so no member declares one, and no field is lost to one. -/
namespace KernelProfile.CodeView

/-- A member's name is its own: it is not empty, and no compiler made it up. -/
def IsDeclared (name : String) : Prop := (name.isEmpty || isMadeUp name) = false

instance (name : String) : Decidable (IsDeclared name) :=
  inferInstanceAs (Decidable ((name.isEmpty || isMadeUp name) = false))

/-- The name that a member declares. -/
def declared? (name : String) : Option String := if IsDeclared name then some name else none

/-- The prefix of a made name is one that compilers use. -/
theorem isMadeUp_append (rest : String) : isMadeUp ("__unnamed_field_" ++ rest) = true := by
  have htext : "__unnamed_field_".toList = "__unnamed".toList ++ "_field_".toList := by decide
  have hprefix : "__unnamed".toList <+: ("__unnamed_field_" ++ rest).toList := by
    refine ⟨"_field_".toList ++ rest.toList, ?_⟩
    rw [String.toList_append, htext, List.append_assoc]
  refine List.any_eq_true.mpr ⟨"__unnamed", ?_, List.isPrefixOf_iff_prefix.mpr hprefix⟩
  decide

theorem not_isDeclared_fieldNumber (count : Nat) : ¬ IsDeclared (Table.fieldNumber count) := by
  have hmade : isMadeUp (Table.fieldNumber count) = true := isMadeUp_append _
  intro h
  rw [IsDeclared, hmade, Bool.or_true] at h
  cases h

theorem declared?_eq_some {name key : String} :
    declared? name = some key ↔ IsDeclared name ∧ name = key := by
  unfold declared?
  split
  · rename_i h
    simp [h]
  · rename_i h
    simp [h]

namespace Context

variable {c : Context} {name : String} {entries before after : List FieldEntry}

/-- The member that an entry of a field list is, under the name that it declares. -/
def member? (c : Context) : FieldEntry → Option (Option String × Member)
  | .member _ type offset name => some (declared? name, c.memberAt type offset)
  | _ => none

/-- The members among the entries of a field list. -/
def members (c : Context) (entries : List FieldEntry) : List (Option String × Member) :=
  entries.filterMap c.member?

theorem memberName_eq (name : String) (count : Nat) :
    memberName name count = (declared? name).getD (Table.fieldNumber count) := by
  have hundeclared : (name.isEmpty || isMadeUp name) = true ↔ ¬ IsDeclared name := by
    rw [IsDeclared, Bool.not_eq_false]
  simp only [memberName, hundeclared, declared?, ite_not]
  split <;> rfl

theorem members_append : c.members (before ++ after) = c.members before ++ c.members after :=
  List.filterMap_append

theorem foldl_addMember (fields : Table Member) (entries : List FieldEntry) :
    entries.foldl c.addMember fields = (c.members entries).foldl Table.putMember fields := by
  induction entries generalizing fields with
  | nil => rfl
  | cons e entries ih =>
    rw [List.foldl_cons, ih]
    cases e with
    | member attributes type offset name =>
      rw [addMember, memberName_eq]
      rfl
    | enumerator attributes value label name => rfl
    | other leaf name => rfl

/-- The fields of an aggregate are those of the members among its entries. -/
theorem foldl_addMember_empty (entries : List FieldEntry) :
    entries.foldl c.addMember .empty = .ofMembers (c.members entries) :=
  foldl_addMember .empty entries

/-- No member declares a name that is made. -/
theorem apart_members (entries : List FieldEntry) : Table.Apart (c.members entries) := by
  rintro m hm n hfst
  obtain ⟨e, -, he⟩ := List.mem_filterMap.mp hm
  cases e with
  | member attributes type offset name =>
    cases he
    obtain ⟨hdeclared, rfl⟩ := declared?_eq_some.mp hfst
    exact not_isDeclared_fieldNumber n hdeclared
  | enumerator attributes value label name => cases he
  | other leaf name => cases he

theorem complete_addMember (entries : List FieldEntry) :
    (entries.foldl c.addMember .empty).Complete (c.members entries) := by
  rw [foldl_addMember_empty]
  exact Table.complete_ofMembers (apart_members entries)

/-- The definition of an aggregate lists the members of its field list. -/
theorem structDef_complete {r : AggregateRecord} {kind : StructKind}
    (hkind : structKind? r.leaf = some kind) :
    ∃ d, c.structDef r = .ok d ∧ d.kind = kind ∧ d.size = r.size ∧
      d.fields.Complete (c.members (c.fieldEntries r.fields)) ∧
      ∀ before after, c.fieldEntries r.fields = before ++ after →
        (before.foldl c.addMember .empty).keys =
          d.fields.keys.take (Table.fieldCount (c.members before)) := by
  refine ⟨⟨kind, r.size, (c.fieldEntries r.fields).foldl c.addMember .empty⟩,
    by simp only [structDef, hkind], rfl, rfl, complete_addMember _, ?_⟩
  intro before after hentries
  dsimp only
  rw [hentries, foldl_addMember_empty, foldl_addMember_empty, members_append,
    Table.keys_ofMembers_eq_take, Table.size_ofMembers (apart_members before)]

/-- A member is found under its name, if no later one declares the same name. -/
theorem get?_member {entries before after : List FieldEntry} {attributes type offset : Int}
    (hentries : entries = before ++ .member attributes type offset name :: after)
    (hlast : IsDeclared name →
      ∀ attributes type offset, .member attributes type offset name ∉ after) :
    (entries.foldl c.addMember .empty).get?
        (memberName name (before.foldl c.addMember .empty).size) =
      some (c.memberAt type offset) := by
  have hmembers : c.members entries =
      c.members before ++ (declared? name, c.memberAt type offset) :: c.members after := by
    rw [hentries, members_append]
    rfl
  have hapart := apart_members (c := c) entries
  rw [hmembers] at hapart
  rw [foldl_addMember_empty, foldl_addMember_empty, memberName_eq, hmembers]
  refine Table.get?_ofMembers hapart ?_
  rintro hsome ⟨_, a⟩ hm rfl
  obtain ⟨hdeclared, -⟩ := declared?_eq_some.mp (Option.some_get hsome).symm
  have hown : declared? name = some name := declared?_eq_some.mpr ⟨hdeclared, rfl⟩
  obtain ⟨e, he, heq⟩ := List.mem_filterMap.mp hm
  cases e with
  | member attributes' type' offset' name' =>
    injection heq with heq
    injection heq with hname
    obtain ⟨-, rfl⟩ := declared?_eq_some.mp (hname.trans hown)
    exact hlast hdeclared attributes' type' offset' he
  | enumerator attributes value label name => cases heq
  | other leaf name => cases heq

end Context
end KernelProfile.CodeView
