import KernelProfile.Proofs.Profile.Reported
import KernelProfile.Proofs.Profile.RoundTrip
import KernelProfile.Proofs.Profile.Shape

/-! Accepted documents and their normal forms. A document may have its keys in any order, keys that
are not recognised and enumerators without a kind; what is read from it is written with the
recognised keys only, in one order, and with a kind for each enumerator. Below the profile, each
kind of document is first read as a draft, so the same is shown of every decoder on the way. -/
namespace KernelProfile

variable {α δ : Type}

namespace Shape

/-! ## The shapes of a profile document -/

def enum : Shape := record [("subtype", type), ("fields", names enumerator)]

def member : Shape := record [("offset", number), ("type", type)]

def struct : Shape := record [("kind", any), ("size", number), ("fields", names member)]

def types : Shape := record [("enums", names enum), ("structs", names struct)]

def profile : Shape := record [("architecture", any), ("symbols", names number), ("types", types)]

/-- Every accepted value of a shape is one of a certain thing, whose document is its normal form. -/
def Normalizes (shape : Shape) (read : Json → Except DocumentError δ) (whole? : δ → Option α)
    (write : α → Json) : Prop :=
  ∀ v d, read v = .ok d → shape.Fits v → ∃ a, whole? d = some a ∧ write a = shape.normal v

theorem Normalizes.table {entry : Shape} {read : Json → Except DocumentError δ}
    {whole? : δ → Option α} {write : α → Json} (h : Normalizes entry read whole? write) :
    Normalizes (names entry) (Json.table read) (Table.mapM? whole?)
      (fun t => .obj (t.map write).entries) := by
  intro v t hread hfits
  cases hfits with
  | object recognised _ => cases recognised
  | @names _ members distinct each =>
    obtain ⟨entries, hwhole, hwrite⟩ : ∃ entries : List (String × α),
        Matched (fun d a => whole? d = some a) t.entries entries ∧
          (entries.map fun e => (e.1, write e.2)) =
            members.map fun e => (e.1, entry.normal e.2) := by
      have hmatched := (Json.table_eq_ok distinct).mp hread
      -- Induction on the members and their drafts together, for whatever the drafts are.
      clear hread distinct
      generalize t.entries = drafts at hmatched
      induction hmatched with
      | nil => exact ⟨[], .nil, rfl⟩
      | @cons e e' _ _ hfirst _ ih =>
        obtain ⟨hhead, hrest⟩ := List.forall_mem_cons.mp each
        obtain ⟨a, ha, hnormal⟩ := h e.2 e'.2 hfirst.2 hhead
        obtain ⟨entries, hwhole, hwrite⟩ := ih hrest
        refine ⟨(e.1, a) :: entries, .cons ⟨hfirst.1.symm, ha⟩ hwhole, ?_⟩
        rw [List.map_cons, List.map_cons, hwrite, hnormal]
    have hdistinct : (entries.map Prod.fst).Nodup := hwhole.keys ▸ t.distinct
    refine ⟨⟨entries, hdistinct⟩, Table.mapM?_eq_some.mpr hwhole, ?_⟩
    rw [normal_names, ← hwrite]
    rfl

/-! ## What fits a leaf -/

theorem exists_text {v : Json} (h : Fits text v) : ∃ s, v = .str s := by
  cases h with
  | text => exact ⟨_, rfl⟩
  | object recognised _ => cases recognised

theorem exists_number {v : Json} (h : Fits number v) : ∃ n, v = .int n := by
  cases h with
  | number => exact ⟨_, rfl⟩
  | object recognised _ => cases recognised

theorem exists_numbers {v : Json} (h : Fits numbers v) :
    ∃ ns : List Int, v = .arr (ns.map .int) := by
  cases h with
  | numbers => exact ⟨_, rfl⟩
  | object recognised _ => cases recognised

/-! ## Types -/

theorem exists_type_members {v : Json} {d : TyDraft} (h : TyDraft.ofJson v = .ok d) :
    ∃ members, v = .obj members ∧ members.lookup "kind" = some (.str d.tag) ∧
      type.fields? members = some (typeFields (.str d.tag)) := by
  have hkind := TyDraft.member_kind h
  obtain ⟨members, rfl⟩ := Json.exists_members hkind
  rw [Json.member_obj] at hkind
  exact ⟨members, rfl, hkind, by rw [fields?, hkind, Option.map_some]⟩

theorem normalizes_type : Normalizes type TyDraft.ofJson TyDraft.type? Ty.toJson := by
  intro v d h hfits
  -- The draft says which tag the document has, and the tag which of its keys are recognised.
  induction d generalizing v with
  | base kind =>
    obtain ⟨members, rfl, hkind, hfields⟩ := exists_type_members h
    obtain ⟨-, subkind, hsubkind, hnamed⟩ := TyDraft.ofJson_eq_ok.mp h
    rw [Json.member_obj] at hsubkind
    cases BaseKind.ofJson_eq_ok.mp hnamed
    refine ⟨.base kind, rfl, ?_⟩
    rw [normal_object hfields]
    simp [typeFields, TyDraft.tag, hkind, hsubkind, Ty.toJson]
  | enumRef name =>
    obtain ⟨members, rfl, hkind, hfields⟩ := exists_type_members h
    have hname := Json.member_obj.mp (TyDraft.ofJson_eq_ok.mp h).2
    obtain ⟨s, rfl⟩ := exists_text (hfits.member hfields (by simp [typeFields, TyDraft.tag]) hname)
    refine ⟨.enumRef s, rfl, ?_⟩
    rw [normal_object hfields]
    simp [typeFields, TyDraft.tag, hkind, hname, Ty.toJson]
  | structRef name =>
    obtain ⟨members, rfl, hkind, hfields⟩ := exists_type_members h
    have hname := Json.member_obj.mp (TyDraft.ofJson_eq_ok.mp h).2
    obtain ⟨s, rfl⟩ := exists_text (hfits.member hfields (by simp [typeFields, TyDraft.tag]) hname)
    refine ⟨.structRef s, rfl, ?_⟩
    rw [normal_object hfields]
    simp [typeFields, TyDraft.tag, hkind, hname, Ty.toJson]
  | array element items count ih =>
    obtain ⟨members, rfl, hkind, hfields⟩ := exists_type_members h
    obtain ⟨-, subtype, dims, hsubtype, helement, hdims, hitems, hcount⟩ :=
      TyDraft.ofJson_eq_ok.mp h
    rw [Json.member_obj] at hsubtype hdims hcount
    have fits {key s} (hkey : (key, s) ∈ typeFields (.str "array")) {x : Json}
        (hx : members.lookup key = some x) : Fits s x := hfits.member hfields hkey hx
    obtain ⟨t, htype, hnormal⟩ := ih _ helement (fits (by simp [typeFields]) hsubtype)
    obtain ⟨ns, rfl⟩ := exists_numbers (fits (by simp [typeFields]) hdims)
    obtain ⟨n, rfl⟩ := exists_number (fits (by simp [typeFields]) hcount)
    cases hitems
    refine ⟨.array t ns n, ?_, ?_⟩
    · rw [TyDraft.type?, htype, mapM_int?]
      rfl
    · rw [normal_object hfields]
      simp [typeFields, TyDraft.tag, hkind, hsubtype, hdims, hcount, hnormal, Ty.toJson]
  | pointer target ih =>
    obtain ⟨members, rfl, hkind, hfields⟩ := exists_type_members h
    obtain ⟨-, subtype, hsubtype, htarget⟩ := TyDraft.ofJson_eq_ok.mp h
    rw [Json.member_obj] at hsubtype
    obtain ⟨t, htype, hnormal⟩ :=
      ih _ htarget (hfits.member hfields (by simp [typeFields, TyDraft.tag]) hsubtype)
    refine ⟨.pointer t, ?_, ?_⟩
    · rw [TyDraft.type?, htype, Option.map_some]
    · rw [normal_object hfields]
      simp [typeFields, TyDraft.tag, hkind, hsubtype, hnormal, Ty.toJson]
  | bitfield underlying length position ih =>
    obtain ⟨members, rfl, hkind, hfields⟩ := exists_type_members h
    obtain ⟨-, subtype, hsubtype, hunderlying, hlength, hposition⟩ := TyDraft.ofJson_eq_ok.mp h
    rw [Json.member_obj] at hsubtype hlength hposition
    have fits {key s} (hkey : (key, s) ∈ typeFields (.str "bitfield")) {x : Json}
        (hx : members.lookup key = some x) : Fits s x := hfits.member hfields hkey hx
    obtain ⟨t, htype, hnormal⟩ := ih _ hunderlying (fits (by simp [typeFields]) hsubtype)
    obtain ⟨l, rfl⟩ := exists_number (fits (by simp [typeFields]) hlength)
    obtain ⟨n, rfl⟩ := exists_number (fits (by simp [typeFields]) hposition)
    refine ⟨.bitfield t l n, ?_, ?_⟩
    · rw [TyDraft.type?, htype]
      rfl
    · rw [normal_object hfields]
      simp [typeFields, TyDraft.tag, hkind, hsubtype, hlength, hposition, hnormal, Ty.toJson]
  | function =>
    obtain ⟨members, rfl, hkind, hfields⟩ := exists_type_members h
    refine ⟨.function, rfl, ?_⟩
    rw [normal_object hfields]
    simp [typeFields, TyDraft.tag, hkind, Ty.toJson]

/-! ## Enumerators -/

theorem normalizes_enumerator :
    Normalizes enumerator VariantDraft.ofJson VariantDraft.variant? Variant.toJson := by
  intro v d h hfits
  cases v with
  | int n =>
    obtain ⟨w, hfit, rfl⟩ := VariantDraft.ofJson_int.mp h
    obtain ⟨hkind, hvalue⟩ := Variant.fit_eq_ok hfit
    exact ⟨w, rfl, by simp [Variant.toJson, hkind, hvalue]⟩
  | obj members =>
    obtain ⟨_, -, hrest⟩ := bind_eq_ok.mp h
    obtain ⟨_, -, hrest⟩ := bind_eq_ok.mp hrest
    obtain ⟨value, hvalue, -⟩ := bind_eq_ok.mp hrest
    obtain ⟨n, rfl⟩ := exists_number (hfits.member rfl (by simp) (Json.member_obj.mp hvalue))
    obtain ⟨k, hkind, w, hmake, rfl⟩ := (VariantDraft.ofJson_of_value hvalue).mp h
    obtain ⟨rfl, rfl⟩ := Variant.make_eq_ok.mp hmake
    rw [Json.member_obj] at hkind hvalue
    refine ⟨w, rfl, ?_⟩
    rw [normal_object rfl]
    simp [hkind, hvalue, Variant.toJson]
  | _ => cases h

/-! ## Definitions -/

theorem normalizes_enum : Normalizes enum EnumDraft.ofJson EnumDraft.enum? EnumDef.toJson := by
  intro v d h hfits
  obtain ⟨subtype, fields, hsubtype, htype, hfields, htable⟩ := EnumDraft.ofJson_eq_ok.mp h
  obtain ⟨members, rfl⟩ := Json.exists_members hsubtype
  rw [Json.member_obj] at hsubtype hfields
  obtain ⟨t, ht, htnormal⟩ :=
    normalizes_type _ _ htype (hfits.member rfl (by simp) hsubtype)
  obtain ⟨table, hvariants, hnormal⟩ :=
    normalizes_enumerator.table _ _ htable (hfits.member rfl (by simp) hfields)
  refine ⟨⟨t, table⟩, ?_, ?_⟩
  · rw [EnumDraft.enum?, ht, hvariants]
    rfl
  · rw [enum, normal_object rfl]
    simp [hsubtype, hfields, EnumDef.toJson, htnormal, hnormal]

theorem normalizes_member :
    Normalizes member MemberDraft.ofJson MemberDraft.member? Member.toJson := by
  intro v d h hfits
  obtain ⟨type, hoffset, htype, hread⟩ := MemberDraft.ofJson_eq_ok.mp h
  obtain ⟨members, rfl⟩ := Json.exists_members hoffset
  rw [Json.member_obj] at hoffset htype
  obtain ⟨n, hn⟩ := exists_number (hfits.member rfl (by simp) hoffset)
  obtain ⟨t, ht, hnormal⟩ := normalizes_type _ _ hread (hfits.member rfl (by simp) htype)
  refine ⟨⟨n, t⟩, ?_, ?_⟩
  · rw [MemberDraft.member?, hn, ht]
    rfl
  · rw [member, normal_object rfl]
    simp [hoffset, htype, hn, Member.toJson, hnormal]

theorem normalizes_struct :
    Normalizes struct StructDraft.ofJson StructDraft.struct? StructDef.toJson := by
  intro v d h hfits
  obtain ⟨fields, hkind, hsize, hfields, htable⟩ := StructDraft.ofJson_eq_ok.mp h
  obtain ⟨members, rfl⟩ := Json.exists_members hkind
  rw [Json.member_obj] at hkind hsize hfields
  obtain ⟨n, hn⟩ := exists_number (hfits.member rfl (by simp) hsize)
  obtain ⟨table, hmembers, hnormal⟩ :=
    normalizes_member.table _ _ htable (hfits.member rfl (by simp) hfields)
  refine ⟨⟨d.kind, n, table⟩, ?_, ?_⟩
  · rw [StructDraft.struct?, hn, hmembers]
    rfl
  · rw [struct, normal_object rfl]
    simp [hkind, hsize, hfields, hn, StructDef.toJson, hnormal]

theorem normalizes_address : Normalizes number addressOf some Json.int := by
  intro v a h hfits
  obtain ⟨n, rfl⟩ := exists_number hfits
  cases h
  exact ⟨_, rfl, rfl⟩

end Shape

/-! ## Profiles -/

namespace Profile

/-- An accepted document of the right types is one of a profile, and its normal form is what that
profile is written as. -/
theorem exists_ofJson {doc : Json} {d : Draft} (h : Draft.ofJson doc = .ok d)
    (hfits : Shape.profile.Fits doc) :
    ∃ p, ofJson doc = .ok p ∧ p.toJson = Shape.profile.normal doc := by
  obtain ⟨addresses, htypes, hsymbols, htable, htag⟩ := Draft.ofJson_eq_ok.mp h
  obtain ⟨types, enums, structs, hmember, henums, henumTable, hstructs, hstructTable⟩ :=
    TypesDraft.ofJson_eq_ok.mp htypes
  obtain ⟨members, rfl⟩ := Json.exists_members htag
  obtain ⟨definitions, rfl⟩ := Json.exists_members henums
  rw [Json.member_obj] at hsymbols htag hmember henums hstructs
  have hdefinitions : Shape.types.Fits (.obj definitions) := hfits.member rfl (by simp) hmember
  obtain ⟨enumDefs, hwholeEnums, henumsNormal⟩ :=
    Shape.normalizes_enum.table _ _ henumTable (hdefinitions.member rfl (by simp) henums)
  obtain ⟨structDefs, hwholeStructs, hstructsNormal⟩ :=
    Shape.normalizes_struct.table _ _ hstructTable (hdefinitions.member rfl (by simp) hstructs)
  obtain ⟨symbols, hsame, hsymbolsNormal⟩ :=
    Shape.normalizes_address.table _ _ htable (hfits.member rfl (by simp) hsymbols)
  rw [Table.mapM?_some] at hsame
  cases hsame
  refine ⟨⟨d.architecture, d.symbols, ⟨enumDefs, structDefs⟩⟩, ?_, ?_⟩
  · have hwhole : d.types.types? = some ⟨enumDefs, structDefs⟩ := by
      rw [TypesDraft.types?, hwholeEnums, hwholeStructs]
      rfl
    rw [ofJson, h]
    show Draft.profile _ = _
    simp only [Draft.profile, hwhole]
  · have htypesNormal : Shape.types.normal (.obj definitions) =
        .obj [("enums", .obj (enumDefs.map EnumDef.toJson).entries),
          ("structs", .obj (structDefs.map StructDef.toJson).entries)] := by
      rw [Shape.types, Shape.normal_object rfl]
      simp [henums, hstructs, henumsNormal, hstructsNormal]
    rw [Shape.profile, Shape.normal_object rfl]
    simp [htag, hsymbols, hmember, htypesNormal, hsymbolsNormal, toJson, TypeCollection.toJson]

/-! ## Enumerators that do not fit -/

/-- An enumerator of a document. -/
def Enumerator (doc value : Json) : Prop :=
  ∃ types enums enum fields name field, doc.member "types" = .ok types ∧
    types.member "enums" = .ok (.obj enums) ∧ (name, enum) ∈ enums ∧
      enum.member "fields" = .ok (.obj fields) ∧ (field, value) ∈ fields

/-- A number outside the range of the kind that it is given with or, without a kind, one of more
than 128 bits. -/
inductive Misfit : Json → Prop where
  | bare {n : Int} (h : n < -2 ^ 127 ∨ 2 ^ 128 ≤ n) : Misfit (.int n)
  | kinded {v : Json} {kind : VariantKind} {n : Int}
      (hkind : v.member "kind" = .ok (.str kind.label)) (hvalue : v.member "value" = .ok (.int n))
      (h : n < kind.least ∨ kind.greatest < n) : Misfit v

theorem Misfit.not_read {v : Json} (h : Misfit v) (d : VariantDraft) :
    VariantDraft.ofJson v ≠ .ok d := by
  intro hread
  cases h with
  | bare h =>
    obtain ⟨w, hfit, -⟩ := VariantDraft.ofJson_int.mp hread
    have hbounds := VariantKind.bounds_of_holds w.fits
    rw [(Variant.fit_eq_ok hfit).2] at hbounds
    omega
  | kinded hkind hvalue h =>
    obtain ⟨k, hk, w, hmake, -⟩ := (VariantDraft.ofJson_of_value hvalue).mp hread
    obtain ⟨rfl, rfl⟩ := Variant.make_eq_ok.mp hmake
    have hlabel := Except.ok.inj (hkind.symm.trans hk)
    have hread' := VariantKind.ofJson_eq_ok.mpr hlabel
    rw [Except.ok.inj ((VariantKind.ofJson_eq_ok.mpr rfl).symm.trans hread')] at h
    have hholds := VariantKind.holds_iff.mp w.fits
    omega

theorem malformed_of_misfit {doc value : Json} (hvalue : Enumerator doc value)
    (hmisfit : Misfit value) : ∃ e, Draft.ofJson doc = .error (.malformed e) := by
  obtain ⟨types, enums, enum, fields, name, field, htypes, henums, henum, hfields, hfield⟩ := hvalue
  cases hread : TypesDraft.ofJson doc with
  | error e => exact ⟨e, Draft.ofJson_of_types hread⟩
  | ok d =>
    obtain ⟨_, _, _, htypes', henums', htable, -⟩ := TypesDraft.ofJson_eq_ok.mp hread
    cases htypes.symm.trans htypes'
    cases henums.symm.trans henums'
    obtain ⟨e, he⟩ := Json.exists_of_table htable henum
    obtain ⟨_, _, -, -, hfields', htable⟩ := EnumDraft.ofJson_eq_ok.mp he
    cases hfields.symm.trans hfields'
    obtain ⟨v, hv⟩ := Json.exists_of_table htable hfield
    exact absurd hv (hmisfit.not_read v)

/-- **What an accepted document is written back as is its normal form**, as long as its names are
texts and its numbers integers, and a second round changes nothing. The kind that a bare number gets
there is the narrowest of its sign. A document with an enumerator that does not fit is malformed,
whatever else is in it. -/
theorem toJson_ofJson :
    (∀ doc d, Draft.ofJson doc = .ok d → Shape.profile.Fits doc →
      ∃ p, ofJson doc = .ok p ∧ p.toJson = Shape.profile.normal doc ∧
        ofJson (Shape.profile.normal doc) = .ok p) ∧
    (∀ n : Int, -2 ^ 127 ≤ n → n < 2 ^ 128 →
      (VariantKind.narrowest n).isSigned = decide (n < 0) ∧
      (VariantKind.narrowest n).holds n = true ∧
      ∀ k : VariantKind, k.isSigned = decide (n < 0) → k.holds n = true →
        (VariantKind.narrowest n).bits ≤ k.bits) ∧
    ∀ doc value, Enumerator doc value → Misfit value →
      ∃ e, Draft.ofJson doc = .error (.malformed e) := by
  refine ⟨?normal, ?narrowest, ?misfit⟩
  case normal =>
    intro doc d hread hfits
    obtain ⟨p, hp, hnormal⟩ := exists_ofJson hread hfits
    exact ⟨p, hp, hnormal, hnormal ▸ ofJson_toJson p⟩
  case narrowest =>
    intro n hlow hhigh
    exact ⟨VariantKind.isSigned_narrowest n, VariantKind.holds_narrowest hlow hhigh,
      fun k hsign hholds => VariantKind.bits_narrowest_le hsign hholds⟩
  case misfit =>
    intro doc value hvalue hmisfit
    exact malformed_of_misfit hvalue hmisfit

/-! ### A document with its keys in another order -/

/-- A type with a key that is not recognised. -/
def looseType : Json :=
  .obj [("subtype", .obj [("name", .str "task"), ("kind", .str "struct")]), ("note", .null),
    ("kind", .str "pointer")]

def looseStruct : Json :=
  .obj [("size", .int 8),
    ("fields", .obj [("next", .obj [("type", looseType), ("offset", .int 0)])]),
    ("kind", .str "struct")]

/-- An enumeration with two bare enumerators and one of a given kind. -/
def looseEnum (kind : VariantKind) : Json :=
  .obj [("fields", .obj [("BIG", .int 300), ("LOW", .int (-129)),
      ("MID", .obj [("value", .int 200), ("kind", .str kind.label)])]),
    ("subtype", .obj [("subkind", .str "u32"), ("kind", .str "base")])]

def loose (kind : VariantKind) : Json :=
  .obj [("types", .obj [("structs", .obj [("task", looseStruct)]),
      ("enums", .obj [("mode", looseEnum kind)])]),
    ("generator", .arr []), ("symbols", .obj [("_text", .int 4096)]),
    ("architecture", .str "Amd64")]

theorem fits_loose (kind : VariantKind) : Shape.profile.Fits (loose kind) := by
  have hsingle {entry name v} (h : Shape.Fits entry v) :
      Shape.Fits (.names entry) (.obj [(name, v)]) := .names (by simp) (by simpa using h)
  have htarget : Shape.type.Fits (.obj [("name", .str "task"), ("kind", .str "struct")]) :=
    .object rfl (by simp [Shape.typeFields, lookup_cons_ite, Shape.Fits.any, Shape.Fits.text])
  have htype : Shape.type.Fits looseType :=
    .object rfl (by simp [Shape.typeFields, lookup_cons_ite, Shape.Fits.any, htarget])
  have hmember : Shape.member.Fits (.obj [("type", looseType), ("offset", .int 0)]) :=
    .object rfl (by simp [lookup_cons_ite, htype, Shape.Fits.number])
  have hstruct : Shape.struct.Fits looseStruct :=
    .object rfl (by simp [lookup_cons_ite, hsingle hmember, Shape.Fits.any, Shape.Fits.number])
  have hbase : Shape.type.Fits (.obj [("subkind", .str "u32"), ("kind", .str "base")]) :=
    .object rfl (by simp [Shape.typeFields, lookup_cons_ite, Shape.Fits.any])
  have hkinded : Shape.enumerator.Fits (.obj [("value", .int 200), ("kind", .str kind.label)]) :=
    .object rfl (by simp [lookup_cons_ite, Shape.Fits.any, Shape.Fits.number])
  have hfields : (Shape.names .enumerator).Fits (.obj [("BIG", .int 300), ("LOW", .int (-129)),
      ("MID", .obj [("value", .int 200), ("kind", .str kind.label)])]) :=
    .names (by simp) (by simp [Shape.Fits.bare, hkinded])
  have henum : Shape.enum.Fits (looseEnum kind) :=
    .object rfl (by simp [lookup_cons_ite, hbase, hfields])
  have htypes : Shape.types.Fits (.obj [("structs", .obj [("task", looseStruct)]),
      ("enums", .obj [("mode", looseEnum kind)])]) :=
    .object rfl (by simp [lookup_cons_ite, hsingle hstruct, hsingle henum])
  exact .object rfl (by
    simp [lookup_cons_ite, htypes, Shape.Fits.any, hsingle (Shape.Fits.number (n := 4096))])

theorem toJson_ofJson_loose :
    (∃ d, Draft.ofJson (loose .u8) = .ok d) ∧ Shape.profile.Fits (loose .u8) ∧
    (∃ p, ofJson (loose .u8) = .ok p ∧ p.toJson =
      .obj [("architecture", .str "Amd64"), ("symbols", .obj [("_text", .int 4096)]),
        ("types", .obj [
          ("enums", .obj [("mode", .obj [
            ("subtype", .obj [("kind", .str "base"), ("subkind", .str "u32")]),
            ("fields", .obj [("BIG", .obj [("kind", .str "u16"), ("value", .int 300)]),
              ("LOW", .obj [("kind", .str "i16"), ("value", .int (-129))]),
              ("MID", .obj [("kind", .str "u8"), ("value", .int 200)])])])]),
          ("structs", .obj [("task", .obj [("kind", .str "struct"), ("size", .int 8),
            ("fields", .obj [("next", .obj [("offset", .int 0),
              ("type", .obj [("kind", .str "pointer"),
                ("subtype", .obj [("kind", .str "struct"), ("name", .str "task")])])])])])])])]) ∧
    ∃ e, Draft.ofJson (loose .i8) = .error (.malformed e) := by
  have haccepted : ∃ d, Draft.ofJson (loose .u8) = .ok d := ⟨_, rfl⟩
  have hmid : Enumerator (loose .i8) (.obj [("value", .int 200), ("kind", .str "i8")]) :=
    ⟨_, _, _, _, "mode", "MID", rfl, rfl, List.mem_singleton_self _, rfl,
      by simp [VariantKind.label]⟩
  have hmisfit : Misfit (.obj [("value", .int 200), ("kind", .str "i8")]) :=
    .kinded (show _ = Except.ok (Json.str VariantKind.i8.label) from rfl) rfl (.inr (by decide))
  obtain ⟨d, hd⟩ := haccepted
  obtain ⟨hnormal, -, hmalformed⟩ := toJson_ofJson
  obtain ⟨p, hp, hwritten, -⟩ := hnormal _ d hd (fits_loose .u8)
  exact ⟨⟨d, hd⟩, fits_loose .u8, ⟨p, hp, hwritten⟩, hmalformed _ _ hmid hmisfit⟩

end Profile
end KernelProfile
