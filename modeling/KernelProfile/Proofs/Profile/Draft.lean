import KernelProfile.Profile.Draft
import KernelProfile.Proofs.Except
import KernelProfile.Proofs.Table

/-! What drafts are read from. Each decoder has one lemma that says when it succeeds, member by
member. A value is read as something if its draft is of that thing. -/
namespace KernelProfile

variable {α δ : Type}

/-- A list has a value at every item if each item has one. -/
theorem mapM_eq_some {f : δ → Option α} {l : List δ} {l' : List α} :
    l.mapM f = some l' ↔ List.Forall₂ (fun d a => f d = some a) l l' := by
  induction l generalizing l' with
  | nil =>
    rw [List.forall₂_nil_left_iff]
    exact ⟨fun h => (Option.some.inj h).symm, fun h => h ▸ rfl⟩
  | cons d l ih =>
    simp only [List.mapM_cons, Option.bind_eq_bind, Option.bind_eq_some_iff,
      List.forall₂_cons_left_iff]
    constructor
    · rintro ⟨a, ha, rest, hrest, heq⟩
      cases heq
      exact ⟨a, rest, ha, ih.mp hrest, rfl⟩
    · rintro ⟨a, rest, ha, hrest, rfl⟩
      exact ⟨a, ha, rest, ih.mpr hrest, rfl⟩

theorem mapM_int? (ns : List Int) : (ns.map Json.int).mapM Json.int? = some ns := by
  rw [mapM_eq_some, List.forall₂_map_left_iff, List.forall₂_same]
  exact fun n _ => rfl

theorem Json.member_obj {members : List (String × Json)} {key : String} {v : Json} :
    (Json.obj members).member key = .ok v ↔ members.lookup key = some v := by
  rw [Json.member]
  cases members.lookup key <;> simp

/-- Only an object has members. -/
theorem Json.exists_members {v x : Json} {key : String} (h : v.member key = .ok x) :
    ∃ members, v = .obj members := by
  cases v with
  | obj members => exact ⟨members, rfl⟩
  | _ => cases h

/-! ## Maps from names -/

/-- The same keys in the same order, with related values. -/
def Matched (R : δ → α → Prop) : List (String × δ) → List (String × α) → Prop :=
  List.Forall₂ fun e e' => e.1 = e'.1 ∧ R e.2 e'.2

theorem Matched.keys {R : δ → α → Prop} {es : List (String × δ)} {es' : List (String × α)}
    (h : Matched R es es') : es.map Prod.fst = es'.map Prod.fst := by
  induction h with
  | nil => rfl
  | cons hfirst _ ih => rw [List.map_cons, List.map_cons, hfirst.1, ih]

/-- A table and what is written for its values. -/
theorem Matched.map {write : α → δ} {R : δ → α → Prop} {t : Table α}
    (h : ∀ e ∈ t.entries, R (write e.2) e.2) : Matched R (t.map write).entries t.entries := by
  show List.Forall₂ _ (t.entries.map _) _
  rw [List.forall₂_map_left_iff, List.forall₂_same]
  exact fun e he => ⟨rfl, h e he⟩

theorem Json.table_eq_ok {read : Json → Except DocumentError δ} {members : List (String × Json)}
    {t : Table δ} (hd : (members.map Prod.fst).Nodup) :
    (Json.obj members).table read = .ok t ↔
      Matched (fun v d => read v = .ok d) members t.entries := by
  have hread : ∀ (e : String × Json) (e' : String × δ),
      (do return (e.1, ← read e.2) : Except DocumentError (String × δ)) = .ok e' ↔
        e.1 = e'.1 ∧ read e.2 = .ok e'.2 := by
    rintro ⟨name, v⟩ ⟨name', d⟩
    simp only [bind_eq_ok, pure, Except.pure, Except.ok.injEq, Prod.mk.injEq]
    constructor
    · rintro ⟨_, hd, hname, rfl⟩
      exact ⟨hname, hd⟩
    · rintro ⟨hname, hd⟩
      exact ⟨d, hd, hname, rfl⟩
  have hmapM : ∀ entries : List (String × δ),
      (members.mapM fun e => do return (e.1, ← read e.2)) = .ok entries ↔
        Matched (fun v d => read v = .ok d) members entries := fun entries => by
    rw [mapM_eq_ok]
    exact iff_of_eq (congrArg (List.Forall₂ · members entries) (funext₂ fun e e' =>
      propext (hread e e')))
  constructor
  · intro h
    obtain ⟨members', hmembers, h⟩ := bind_eq_ok.mp h
    cases hmembers
    obtain ⟨entries, hentries, h⟩ := bind_eq_ok.mp h
    cases h
    have hmatched := (hmapM entries).mp hentries
    rwa [Table.entries_ofList (hmatched.keys ▸ hd)]
  · intro h
    refine bind_eq_ok.mpr ⟨members, rfl, bind_eq_ok.mpr ⟨t.entries, (hmapM _).mpr h, ?_⟩⟩
    rw [Table.ofList_entries]
    rfl

/-- A map that is read has every value of it read. -/
theorem Json.exists_of_table {read : Json → Except DocumentError δ}
    {members : List (String × Json)} {t : Table δ} (h : (Json.obj members).table read = .ok t)
    {e : String × Json} (he : e ∈ members) : ∃ d, read e.2 = .ok d := by
  obtain ⟨_, hmembers, h⟩ := bind_eq_ok.mp h
  cases hmembers
  obtain ⟨_, h, -⟩ := bind_eq_ok.mp h
  obtain ⟨_, hentry⟩ := exists_ok_of_mapM h he
  obtain ⟨d, hd, -⟩ := bind_eq_ok.mp hentry
  exact ⟨d, hd⟩

/-- A map fails as the first of its values does that is not read. -/
theorem Json.table_eq_error {read : Json → Except DocumentError δ}
    {members : List (String × Json)} {fault : DocumentError} :
    (Json.obj members).table read = .error fault ↔ ∃ before name value after,
      members = before ++ (name, value) :: after ∧ (∀ e ∈ before, ∃ d, read e.2 = .ok d) ∧
        read value = .error fault := by
  have hentry (e : String × Json) :
      (∃ e', (do return (e.1, ← read e.2) : Except DocumentError (String × δ)) = .ok e') ↔
        ∃ d, read e.2 = .ok d := by
    simp [bind_eq_ok, pure, Except.pure, -bind_pure_comp]
  have hfault (e : String × Json) :
      (do return (e.1, ← read e.2) : Except DocumentError (String × δ)) = .error fault ↔
        read e.2 = .error fault := by
    simp [bind_eq_error, pure, Except.pure, -bind_pure_comp]
  constructor
  · intro h
    obtain h | ⟨_, hmembers, h⟩ := bind_eq_error.mp h
    · cases h
    cases hmembers
    obtain h | ⟨_, -, h⟩ := bind_eq_error.mp h
    · obtain ⟨before, ⟨name, value⟩, after, rfl, hbefore, hvalue⟩ := mapM_eq_error.mp h
      exact ⟨before, name, value, after, rfl, fun e he => (hentry e).mp (hbefore e he),
        (hfault (name, value)).mp hvalue⟩
    · cases h
  · rintro ⟨before, name, value, after, rfl, hbefore, hvalue⟩
    refine bind_eq_error.mpr (.inr ⟨_, rfl, bind_eq_error.mpr (.inl ?_)⟩)
    exact mapM_eq_error.mpr ⟨before, (name, value), after, rfl,
      fun e he => (hentry e).mpr (hbefore e he), (hfault (name, value)).mpr hvalue⟩

theorem Table.mapM?_eq_some {f : δ → Option α} {t : Table δ} {u : Table α} :
    t.mapM? f = some u ↔ Matched (fun d a => f d = some a) t.entries u.entries := by
  have hvalue : ∀ (e : String × δ) (e' : String × α),
      (f e.2).map (e.1, ·) = some e' ↔ e.1 = e'.1 ∧ f e.2 = some e'.2 := by
    rintro ⟨name, d⟩ ⟨name', a⟩
    simp only [Option.map_eq_some_iff, Prod.mk.injEq]
    constructor
    · rintro ⟨_, ha, hname, rfl⟩
      exact ⟨hname, ha⟩
    · rintro ⟨hname, ha⟩
      exact ⟨a, ha, hname, rfl⟩
  have hmapM : ∀ entries : List (String × α),
      (t.entries.mapM fun e => (f e.2).map (e.1, ·)) = some entries ↔
        Matched (fun d a => f d = some a) t.entries entries := fun entries => by
    rw [mapM_eq_some]
    exact iff_of_eq (congrArg (List.Forall₂ · t.entries entries) (funext₂ fun e e' =>
      propext (hvalue e e')))
  simp only [Table.mapM?, Option.map_eq_some_iff, hmapM]
  constructor
  · rintro ⟨entries, hmatched, rfl⟩
    rwa [Table.entries_ofList (hmatched.keys ▸ t.distinct)]
  · intro h
    exact ⟨u.entries, h, Table.ofList_entries u⟩

theorem Table.mapM?_some (t : Table α) : t.mapM? some = some t := by
  refine Table.mapM?_eq_some.mpr (List.forall₂_same.mpr ?_)
  exact fun e _ => ⟨rfl, rfl⟩

/-! ## Values read as what their drafts are of -/

/-- A value has a draft, and the draft is of a certain thing. -/
def ReadsAs (read : Json → Except DocumentError δ) (whole? : δ → Option α) (value : Json)
    (a : α) : Prop := ∃ d, read value = .ok d ∧ whole? d = some a

/-- A map is read as a table by reading every value of it. -/
theorem readsAs_table {read : Json → Except DocumentError δ} {whole? : δ → Option α}
    {members : List (String × Json)} {t : Table α}
    (h : Matched (ReadsAs read whole?) members t.entries) :
    ReadsAs (Json.table read) (Table.mapM? whole?) (.obj members) t := by
  obtain ⟨drafts, hread, hwhole⟩ : ∃ drafts : List (String × δ),
      Matched (fun v d => read v = .ok d) members drafts ∧
        Matched (fun d a => whole? d = some a) drafts t.entries := by
    generalize t.entries = entries at h
    induction h with
    | nil => exact ⟨[], .nil, .nil⟩
    | @cons e e' _ _ hfirst _ ih =>
      obtain ⟨hname, d, hd, ha⟩ := hfirst
      obtain ⟨drafts, hread, hwhole⟩ := ih
      exact ⟨(e.1, d) :: drafts, .cons ⟨rfl, hd⟩ hread, .cons ⟨hname, ha⟩ hwhole⟩
  have hmembers : (members.map Prod.fst).Nodup := h.keys ▸ t.distinct
  have hdrafts : (drafts.map Prod.fst).Nodup := hread.keys ▸ hmembers
  exact ⟨⟨drafts, hdrafts⟩, (Json.table_eq_ok hmembers).mpr hread, Table.mapM?_eq_some.mpr hwhole⟩

/-- A table is read back if each of its values is. -/
theorem readsAs_map {read : Json → Except DocumentError δ} {whole? : δ → Option α}
    {write : α → Json} {t : Table α} (h : ∀ e ∈ t.entries, ReadsAs read whole? (write e.2) e.2) :
    ReadsAs (Json.table read) (Table.mapM? whole?) (.obj (t.map write).entries) t :=
  readsAs_table (.map h)

/-! ## When the decoders succeed -/

theorem Json.isText_eq_true {value : Json} {text : String} :
    value.isText text = true ↔ value = .str text := by
  cases value <;> simp [Json.isText]

/-- Looking a name up in a list of kinds finds the kind of that name, if it finds each kind by
its own. -/
theorem find?_name {κ : Type} {all : List κ} {name : κ → String}
    (hall : ∀ k, all.find? (fun k' => name k' == name k) = some k) {s : String} {k : κ} :
    all.find? (fun k' => name k' == s) = some k ↔ s = name k := by
  constructor
  · intro h
    have hname : name k = s := by simpa using List.find?_some h
    exact hname.symm
  · rintro rfl
    exact hall k

theorem Json.named_eq_ok {κ : Type} {all : List κ} {name : κ → String}
    (hall : ∀ k, all.find? (fun k' => name k' == name k) = some k) {fault : Json → DocumentError}
    {v : Json} {k : κ} :
    Json.named (fun s => all.find? fun k' => name k' == s) fault v = .ok k ↔ v = .str (name k) := by
  cases v with
  | str s =>
    rw [Json.str.injEq, ← find?_name hall, Json.named]
    cases all.find? fun k' => name k' == s <;> simp
  | _ => simp [Json.named]

theorem BaseKind.ofJson_eq_ok {v : Json} {k : BaseKind} :
    BaseKind.ofJson v = .ok k ↔ v = .str k.name := Json.named_eq_ok BaseKind.ofName?_name

theorem StructKind.ofJson_eq_ok {v : Json} {k : StructKind} :
    StructKind.ofJson v = .ok k ↔ v = .str k.name := Json.named_eq_ok StructKind.ofName?_name

theorem VariantKind.ofJson_eq_ok {v : Json} {k : VariantKind} :
    VariantKind.ofJson v = .ok k ↔ v = .str k.label := Json.named_eq_ok VariantKind.ofLabel?_label

theorem Architecture.ofJson_eq_ok {v : Json} {a : Architecture} :
    Architecture.ofJson v = .ok a ↔ v = .str a.tag := by
  cases v with
  | str s =>
    rw [Json.str.injEq, ← find?_name Architecture.ofTag?_tag, Architecture.ofJson,
      Architecture.parse, Architecture.ofTag?]
    cases Architecture.all.find? fun a' => a'.tag == s <;> simp
  | _ => simp [Architecture.ofJson]

namespace TyDraft

theorem ofSubtype_eq (members : List (String × Json)) :
    ofSubtype members = (Json.obj members).member "subtype" >>= ofJson := by
  induction members with
  | nil => rfl
  | cons e rest ih =>
    obtain ⟨key, value⟩ := e
    by_cases h : key = "subtype"
    · subst h
      rw [ofSubtype, if_pos rfl]
      rfl
    · rw [ofSubtype, if_neg h, ih]
      simp only [Json.member, lookup_cons_ite, Ne.symm h, if_false]

/-- The decoder of types, with every member looked up in the same way. -/
theorem ofJson_eq (v : Json) : ofJson v = (do
    let kind ← v.member "kind"
    if kind.isText "base" then
      return .base (← BaseKind.ofJson (← v.member "subkind"))
    else if kind.isText "enum" then
      return .enumRef (← v.member "name")
    else if kind.isText "struct" then
      return .structRef (← v.member "name")
    else if kind.isText "array" then
      let element ← v.member "subtype" >>= ofJson
      let dims ← (← v.member "dims").items
      return .array element dims (← v.member "size")
    else if kind.isText "pointer" then
      return .pointer (← v.member "subtype" >>= ofJson)
    else if kind.isText "bitfield" then
      let underlying ← v.member "subtype" >>= ofJson
      let length ← v.member "bit_length"
      return .bitfield underlying length (← v.member "bit_position")
    else if kind.isText "function" then
      return .function
    else
      throw (.notTypeKind kind)) := by
  cases v with
  | obj members => rw [ofJson, ofSubtype_eq]
  | _ => rfl

/-- The tag of the documents that have a draft. -/
def tag : TyDraft → String
  | base _ => "base"
  | enumRef _ => "enum"
  | structRef _ => "struct"
  | array .. => "array"
  | pointer _ => "pointer"
  | bitfield .. => "bitfield"
  | function => "function"

theorem member_kind {v : Json} {d : TyDraft} (h : ofJson v = .ok d) :
    v.member "kind" = .ok (.str d.tag) := by
  rw [ofJson_eq] at h
  obtain ⟨kind, hkind, h⟩ := bind_eq_ok.mp h
  rw [hkind]
  split_ifs at h with h1 h2 h3 h4 h5 h6 h7 <;>
    simp only [bind_eq_ok, pure, Except.pure, Except.ok.injEq] at h
  · obtain ⟨_, _, _, _, rfl⟩ := h
    rw [Json.isText_eq_true.mp h1, tag]
  · obtain ⟨_, _, rfl⟩ := h
    rw [Json.isText_eq_true.mp h2, tag]
  · obtain ⟨_, _, rfl⟩ := h
    rw [Json.isText_eq_true.mp h3, tag]
  · obtain ⟨_, _, _, _, _, _, _, _, rfl⟩ := h
    rw [Json.isText_eq_true.mp h4, tag]
  · obtain ⟨_, _, rfl⟩ := h
    rw [Json.isText_eq_true.mp h5, tag]
  · obtain ⟨_, _, _, _, _, _, rfl⟩ := h
    rw [Json.isText_eq_true.mp h6, tag]
  · subst h
    rw [Json.isText_eq_true.mp h7, tag]

/-- The members behind the tag that give a draft. -/
def Given (v : Json) : TyDraft → Prop
  | base kind => ∃ subkind, v.member "subkind" = .ok subkind ∧ BaseKind.ofJson subkind = .ok kind
  | enumRef name => v.member "name" = .ok name
  | structRef name => v.member "name" = .ok name
  | array element items count => ∃ subtype dims,
      v.member "subtype" = .ok subtype ∧ ofJson subtype = .ok element ∧
        v.member "dims" = .ok dims ∧ dims.items = .ok items ∧ v.member "size" = .ok count
  | pointer target => ∃ subtype, v.member "subtype" = .ok subtype ∧ ofJson subtype = .ok target
  | bitfield underlying length position => ∃ subtype,
      v.member "subtype" = .ok subtype ∧ ofJson subtype = .ok underlying ∧
        v.member "bit_length" = .ok length ∧ v.member "bit_position" = .ok position
  | function => True

theorem ofJson_eq_ok {v : Json} {d : TyDraft} :
    ofJson v = .ok d ↔ v.member "kind" = .ok (.str d.tag) ∧ d.Given v := by
  have hbranch (hkind : v.member "kind" = .ok (.str d.tag)) : ofJson v = .ok d ↔ d.Given v := by
    rw [ofJson_eq, hkind]
    cases d <;>
      simp [Json.isText, tag, Given, bind_eq_ok, pure, Except.pure, -bind_pure_comp]
  exact ⟨fun h => ⟨member_kind h, (hbranch (member_kind h)).mp h⟩, fun h => (hbranch h.1).mpr h.2⟩

end TyDraft

namespace VariantDraft

theorem ofJson_int {n : Int} {d : VariantDraft} :
    ofJson (.int n) = .ok d ↔ ∃ v, Variant.fit n = .ok v ∧ d = .whole v := by
  simp only [ofJson, bind_eq_ok, mapError_eq_ok, pure, Except.pure, Except.ok.injEq,
    eq_comm (a := whole _)]

theorem ofJson_of_value {v : Json} {n : Int} (hvalue : v.member "value" = .ok (.int n))
    {d : VariantDraft} : ofJson v = .ok d ↔ ∃ kind, v.member "kind" = .ok (.str kind.label) ∧
      ∃ w, Variant.make kind n = .ok w ∧ d = .whole w := by
  cases v with
  | obj members =>
    simp [ofJson, hvalue, bind_eq_ok, mapError_eq_ok, VariantKind.ofJson_eq_ok, pure,
      Except.pure, -bind_pure_comp, eq_comm (b := d)]
  | _ => cases hvalue

end VariantDraft

theorem EnumDraft.ofJson_eq_ok {v : Json} {d : EnumDraft} :
    EnumDraft.ofJson v = .ok d ↔ ∃ subtype fields,
      v.member "subtype" = .ok subtype ∧ TyDraft.ofJson subtype = .ok d.subtype ∧
        v.member "fields" = .ok fields ∧ fields.table VariantDraft.ofJson = .ok d.fields := by
  obtain ⟨subtype, fields⟩ := d
  simp [EnumDraft.ofJson, bind_eq_ok, pure, Except.pure, -bind_pure_comp]

theorem MemberDraft.ofJson_eq_ok {v : Json} {d : MemberDraft} :
    MemberDraft.ofJson v = .ok d ↔ ∃ type, v.member "offset" = .ok d.offset ∧
      v.member "type" = .ok type ∧ TyDraft.ofJson type = .ok d.type := by
  obtain ⟨offset, type⟩ := d
  simp [MemberDraft.ofJson, bind_eq_ok, pure, Except.pure, -bind_pure_comp]

theorem StructDraft.ofJson_eq_ok {v : Json} {d : StructDraft} :
    StructDraft.ofJson v = .ok d ↔ ∃ fields, v.member "kind" = .ok (.str d.kind.name) ∧
      v.member "size" = .ok d.size ∧ v.member "fields" = .ok fields ∧
        fields.table MemberDraft.ofJson = .ok d.fields := by
  obtain ⟨kind, size, fields⟩ := d
  simp [StructDraft.ofJson, bind_eq_ok, StructKind.ofJson_eq_ok, pure, Except.pure,
    -bind_pure_comp]

theorem TypesDraft.ofJson_eq_ok {v : Json} {d : TypesDraft} :
    TypesDraft.ofJson v = .ok d ↔ ∃ types enums structs, v.member "types" = .ok types ∧
      types.member "enums" = .ok enums ∧ enums.table EnumDraft.ofJson = .ok d.enums ∧
        types.member "structs" = .ok structs ∧
          structs.table StructDraft.ofJson = .ok d.structs := by
  obtain ⟨enums, structs⟩ := d
  constructor
  · intro h
    obtain ⟨types, htypes, h⟩ := bind_eq_ok.mp h
    obtain ⟨e, he, h⟩ := bind_eq_ok.mp h
    obtain ⟨_, hes, h⟩ := bind_eq_ok.mp h
    obtain ⟨_, htypes', h⟩ := bind_eq_ok.mp h
    cases htypes.symm.trans htypes'
    obtain ⟨s, hs, h⟩ := bind_eq_ok.mp h
    obtain ⟨_, hss, h⟩ := bind_eq_ok.mp h
    cases h
    exact ⟨types, e, s, htypes, he, hes, hs, hss⟩
  · rintro ⟨types, e, s, htypes, he, hes, hs, hss⟩
    simp only [TypesDraft.ofJson, htypes, he, hes, hs, hss, bind, Except.bind, pure, Except.pure]

/-- The parts of a profile document. -/
theorem Draft.parts_eq_ok {v : Json} {types : TypesDraft} {symbols : Table Int} {tag : Json} :
    Draft.parts v = .ok (types, symbols, tag) ↔ ∃ addresses, TypesDraft.ofJson v = .ok types ∧
      v.member "symbols" = .ok addresses ∧ addresses.table addressOf = .ok symbols ∧
        v.member "architecture" = .ok tag := by
  simp [Draft.parts, bind_eq_ok, pure, Except.pure, -bind_pure_comp]

theorem Draft.ofJson_eq_ok {v : Json} {d : Draft} :
    Draft.ofJson v = .ok d ↔ ∃ addresses, TypesDraft.ofJson v = .ok d.types ∧
      v.member "symbols" = .ok addresses ∧ addresses.table addressOf = .ok d.symbols ∧
        v.member "architecture" = .ok (.str d.architecture.tag) := by
  obtain ⟨architecture, symbols, types⟩ := d
  rw [← Draft.parts_eq_ok]
  constructor
  · intro h
    unfold Draft.ofJson at h
    split at h
    · cases h
    · cases h
    · rename_i hparts
      split at h
      · cases h
      · rename_i harchitecture
        cases h
        rw [hparts, Architecture.ofJson_eq_ok.mp harchitecture]
  · intro hparts
    have harchitecture := (Architecture.ofJson_eq_ok (a := architecture)).mpr rfl
    simp only [Draft.ofJson, hparts, harchitecture]

end KernelProfile
