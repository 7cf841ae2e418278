import KernelProfile.Profile.Document
import KernelProfile.Proofs.Json.RoundTrip
import KernelProfile.Proofs.Profile.Draft
import KernelProfile.Proofs.Variant

/-! Profiles read back from their documents. Each part of a profile is what its own document reads
as; the documents are plain values as long as no integer of the profile has too many digits for a
literal, so the text layer gives them back as they were written. -/
namespace KernelProfile

/-- An integer whose decimal text has no more digits than a literal may have. -/
def ShortInteger (n : Int) : Prop := n.natAbs < 10 ^ Text.literalLimit

/-! ## Integers of a profile

Values of enumerators are left out: they have at most 128 bits. -/

def Ty.integers : Ty → List Int
  | .array element dims count => element.integers ++ dims ++ [count]
  | .pointer target => target.integers
  | .bitfield underlying length position => underlying.integers ++ [length, position]
  | _ => []

def Member.integers (m : Member) : List Int := m.offset :: m.type.integers

def StructDef.integers (s : StructDef) : List Int :=
  s.size :: s.fields.entries.flatMap fun e => e.2.integers

/-- Every integer that a profile holds outside its enumerators: addresses, sizes, offsets, and
the extents, lengths and positions in its types. -/
def Profile.integers (p : Profile) : List Int :=
  p.symbols.entries.map Prod.snd ++
    (p.types.enums.entries.flatMap fun e => e.2.subtype.integers) ++
    p.types.structs.entries.flatMap fun e => e.2.integers

/-! ## Plain documents -/

namespace Json

theorem Plain.obj_of_table {α : Type} {t : Table α} {f : α → Json}
    (h : ∀ e ∈ t.entries, Plain (f e.2)) : Plain (.obj (t.map f).entries) := by
  refine .obj (t.map f).distinct ?_
  intro e he
  obtain ⟨e', he', rfl⟩ := List.mem_map.mp he
  exact h e' he'

end Json

open Json (Plain)

theorem Ty.plain_toJson {t : Ty} (h : ∀ n ∈ t.integers, ShortInteger n) : Plain t.toJson := by
  induction t with
  | base kind => exact .obj (by simp) (by simp [Plain.str])
  | enumRef name => exact .obj (by simp) (by simp [Plain.str])
  | structRef name => exact .obj (by simp) (by simp [Plain.str])
  | array element dims count ih =>
    simp only [Ty.integers, List.mem_append, List.mem_singleton, or_imp, forall_and,
      forall_eq] at h
    obtain ⟨⟨helement, hdims⟩, hcount⟩ := h
    have hlist : Plain (.arr (dims.map .int)) := by
      refine .arr ?_
      intro item hitem
      obtain ⟨n, hn, rfl⟩ := List.mem_map.mp hitem
      exact .int (hdims n hn)
    exact .obj (by simp) (by simp [Plain.str, ih helement, hlist, Plain.int hcount])
  | pointer target ih => exact .obj (by simp) (by simp [Plain.str, ih h])
  | bitfield underlying length position ih =>
    simp only [Ty.integers, List.mem_append, List.mem_cons, List.not_mem_nil, or_false, or_imp,
      forall_and, forall_eq] at h
    obtain ⟨hunderlying, hlength, hposition⟩ := h
    exact .obj (by simp)
      (by simp [Plain.str, ih hunderlying, Plain.int hlength, Plain.int hposition])
  | function => exact .obj (by simp) (by simp [Plain.str])

/-- An enumerator's value has at most 128 bits, so its text is short. -/
theorem Variant.shortInteger (v : Variant) : ShortInteger v.value := by
  have hbits : v.value.natAbs < 2 ^ 128 := by
    have hbounds := VariantKind.bounds_of_holds v.fits
    omega
  -- by way of 10 ^ 39: the power of the limit itself is too large to be worked out
  have hlimit : (2 : Nat) ^ 128 < 10 ^ Text.literalLimit :=
    Nat.lt_of_lt_of_le (by decide : 2 ^ 128 < 10 ^ 39)
      (Nat.pow_le_pow_right (by decide) (by decide))
  exact Nat.lt_trans hbits hlimit

theorem Variant.plain_toJson (v : Variant) : Plain v.toJson :=
  .obj (by simp) (by simp [Plain.str, Plain.int v.shortInteger])

theorem EnumDef.plain_toJson {e : EnumDef} (h : ∀ n ∈ e.subtype.integers, ShortInteger n) :
    Plain e.toJson := by
  have hfields : Plain (.obj (e.fields.map Variant.toJson).entries) :=
    .obj_of_table fun x _ => x.2.plain_toJson
  exact .obj (by simp) (by simp [Ty.plain_toJson h, hfields])

theorem Member.plain_toJson {m : Member} (h : ∀ n ∈ m.integers, ShortInteger n) :
    Plain m.toJson := by
  simp only [Member.integers, List.mem_cons, or_imp, forall_and, forall_eq] at h
  exact .obj (by simp) (by simp [Plain.int h.1, Ty.plain_toJson h.2])

theorem StructDef.plain_toJson {s : StructDef} (h : ∀ n ∈ s.integers, ShortInteger n) :
    Plain s.toJson := by
  simp only [StructDef.integers, List.mem_cons, or_imp, forall_and, forall_eq] at h
  have hfields : Plain (.obj (s.fields.map Member.toJson).entries) := by
    apply Plain.obj_of_table
    intro x hx
    apply Member.plain_toJson
    intro n hn
    exact h.2 n (List.mem_flatMap.mpr ⟨x, hx, hn⟩)
  exact .obj (by simp) (by simp [Plain.str, Plain.int h.1, hfields])

theorem Profile.plain_toJson {p : Profile} (h : ∀ n ∈ p.integers, ShortInteger n) :
    Plain p.toJson := by
  simp only [Profile.integers, List.mem_append, or_imp, forall_and] at h
  obtain ⟨⟨hsymbols, henums⟩, hstructs⟩ := h
  have hs : Plain (.obj (p.symbols.map .int).entries) := by
    apply Plain.obj_of_table
    intro x hx
    exact .int (hsymbols x.2 (List.mem_map_of_mem hx))
  have he : Plain (.obj (p.types.enums.map EnumDef.toJson).entries) := by
    apply Plain.obj_of_table
    intro x hx
    apply EnumDef.plain_toJson
    intro n hn
    exact henums n (List.mem_flatMap.mpr ⟨x, hx, hn⟩)
  have ht : Plain (.obj (p.types.structs.map StructDef.toJson).entries) := by
    apply Plain.obj_of_table
    intro x hx
    apply StructDef.plain_toJson
    intro n hn
    exact hstructs n (List.mem_flatMap.mpr ⟨x, hx, hn⟩)
  have htypes : Plain p.types.toJson := .obj (by simp) (by simp [he, ht])
  exact .obj (by simp) (by simp [Plain.str, hs, htypes])

/-! ## Reading a document back -/

theorem Ty.readsAs_toJson (t : Ty) : ReadsAs TyDraft.ofJson TyDraft.type? t.toJson t := by
  induction t with
  | base kind =>
    exact ⟨.base kind,
      TyDraft.ofJson_eq_ok.mpr ⟨rfl, _, rfl, BaseKind.ofJson_eq_ok.mpr rfl⟩, rfl⟩
  | enumRef name => exact ⟨.enumRef (.str name), TyDraft.ofJson_eq_ok.mpr ⟨rfl, rfl⟩, rfl⟩
  | structRef name => exact ⟨.structRef (.str name), TyDraft.ofJson_eq_ok.mpr ⟨rfl, rfl⟩, rfl⟩
  | array element dims count ih =>
    obtain ⟨d, hread, htype⟩ := ih
    refine ⟨.array d (dims.map .int) (.int count),
      TyDraft.ofJson_eq_ok.mpr ⟨rfl, _, _, rfl, hread, rfl, rfl, rfl⟩, ?_⟩
    rw [TyDraft.type?, htype, mapM_int?]
    rfl
  | pointer target ih =>
    obtain ⟨d, hread, htype⟩ := ih
    refine ⟨.pointer d, TyDraft.ofJson_eq_ok.mpr ⟨rfl, _, rfl, hread⟩, ?_⟩
    rw [TyDraft.type?, htype]
    rfl
  | bitfield underlying length position ih =>
    obtain ⟨d, hread, htype⟩ := ih
    refine ⟨.bitfield d (.int length) (.int position),
      TyDraft.ofJson_eq_ok.mpr ⟨rfl, _, rfl, hread, rfl, rfl⟩, ?_⟩
    rw [TyDraft.type?, htype]
    rfl
  | function => exact ⟨.function, TyDraft.ofJson_eq_ok.mpr ⟨rfl, trivial⟩, rfl⟩

theorem Variant.readsAs_toJson (v : Variant) :
    ReadsAs VariantDraft.ofJson VariantDraft.variant? v.toJson v := by
  have hmake : Variant.make v.kind v.value = .ok v := Variant.make_eq_ok.mpr ⟨rfl, rfl⟩
  exact ⟨.whole v, (VariantDraft.ofJson_of_value rfl).mpr ⟨v.kind, rfl, v, hmake, rfl⟩, rfl⟩

theorem EnumDef.readsAs_toJson (e : EnumDef) :
    ReadsAs EnumDraft.ofJson EnumDraft.enum? e.toJson e := by
  obtain ⟨subtype, hsubtype, htype⟩ := e.subtype.readsAs_toJson
  obtain ⟨fields, hfields, hvariants⟩ :=
    readsAs_map (t := e.fields) fun x _ => x.2.readsAs_toJson
  refine ⟨⟨subtype, fields⟩,
    EnumDraft.ofJson_eq_ok.mpr ⟨_, _, rfl, hsubtype, rfl, hfields⟩, ?_⟩
  rw [EnumDraft.enum?, htype, hvariants]
  rfl

theorem Member.readsAs_toJson (m : Member) :
    ReadsAs MemberDraft.ofJson MemberDraft.member? m.toJson m := by
  obtain ⟨type, hread, htype⟩ := m.type.readsAs_toJson
  refine ⟨⟨.int m.offset, type⟩, MemberDraft.ofJson_eq_ok.mpr ⟨_, rfl, rfl, hread⟩, ?_⟩
  rw [MemberDraft.member?, htype]
  rfl

theorem StructDef.readsAs_toJson (s : StructDef) :
    ReadsAs StructDraft.ofJson StructDraft.struct? s.toJson s := by
  obtain ⟨fields, hfields, hmembers⟩ :=
    readsAs_map (t := s.fields) fun x _ => x.2.readsAs_toJson
  refine ⟨⟨s.kind, .int s.size, fields⟩,
    StructDraft.ofJson_eq_ok.mpr ⟨_, rfl, rfl, rfl, hfields⟩, ?_⟩
  rw [StructDraft.struct?, hmembers]
  rfl

namespace Profile

theorem ofJson_toJson (p : Profile) : ofJson p.toJson = .ok p := by
  obtain ⟨enums, henums, hwholeEnums⟩ :=
    readsAs_map (t := p.types.enums) fun x _ => x.2.readsAs_toJson
  obtain ⟨structs, hstructs, hwholeStructs⟩ :=
    readsAs_map (t := p.types.structs) fun x _ => x.2.readsAs_toJson
  have htypes : TypesDraft.ofJson p.toJson = .ok ⟨enums, structs⟩ :=
    TypesDraft.ofJson_eq_ok.mpr ⟨_, _, _, rfl, rfl, henums, rfl, hstructs⟩
  have hsymbols : (Json.obj (p.symbols.map .int).entries).table addressOf = .ok p.symbols :=
    (Json.table_eq_ok (p.symbols.map .int).distinct).mpr (.map fun _ _ => rfl)
  have hdraft : Draft.ofJson p.toJson = .ok ⟨p.architecture, p.symbols, ⟨enums, structs⟩⟩ :=
    Draft.ofJson_eq_ok.mpr ⟨_, htypes, rfl, hsymbols, rfl⟩
  have hwhole : TypesDraft.types? ⟨enums, structs⟩ = some p.types := by
    rw [TypesDraft.types?, hwholeEnums, hwholeStructs]
    rfl
  rw [ofJson, hdraft]
  show Draft.profile _ = _
  simp only [Draft.profile, hwhole]

/-- **A profile is read back from its text**, on one line or indented, with every order, width
and sign as it was, as long as none of its integers has too many digits for a literal. -/
theorem load_dump (p : Profile) (indent : Option Nat)
    (h : ∀ n ∈ p.integers, n.natAbs < 10 ^ Text.literalLimit) :
    load (p.dump indent) = .ok p := by
  have hread : Json.read (p.toJson.write indent) = .ok p.toJson :=
    Json.read_write (plain_toJson h) indent
  have hdocument : Draft.document (p.dump indent) = .ok p.toJson := by
    rw [Draft.document, dump, hread]
    rfl
  rw [load, Draft.load, hdocument]
  exact ofJson_toJson p

/-- A profile with an address below zero, an enumerator of a narrow kind, a bit-field in an array
of flags, and a name outside the first plane. -/
def mixed : Profile where
  architecture := .arm64
  symbols := .ofList [("_text", 0xFFFFFFC008000000), ("per\tcpu \"x\"", -16)]
  types :=
    { enums := .ofList [("mode", ⟨.base .u8, .ofList [("OFF", ⟨.i8, -1, by decide⟩)]⟩)]
      structs := .ofList [("task😀", ⟨.structType, 24, .ofList
        [("next", ⟨0, .pointer (.structRef "task😀")⟩),
          ("flags", ⟨8, .bitfield (.enumRef "mode") 3 5⟩),
          ("slots", ⟨16, .array (.array .function [2] 2) [2, 0] 4⟩)]⟩)] }

theorem load_dump_mixed : (∀ n ∈ mixed.integers, n.natAbs < 10 ^ Text.literalLimit) ∧
    load (mixed.dump (some 2)) = .ok mixed := by
  have h : ∀ n ∈ mixed.integers, n.natAbs < 10 ^ Text.literalLimit := by decide +kernel
  exact ⟨h, load_dump mixed (some 2) h⟩

end Profile
end KernelProfile
