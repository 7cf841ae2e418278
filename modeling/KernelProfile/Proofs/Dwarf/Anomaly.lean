import KernelProfile.Proofs.Dwarf.Chain
import KernelProfile.Proofs.Dwarf.Enumerator
import KernelProfile.Proofs.Dwarf.Loss

/-! What stops a unit that can be read. Attributes of entries may have any values: types without a
layout become `void`, sizes and offsets that are not given become zero, and enumerators without a
number are passed over. Only a number of an enumerator that 64 bits do not hold is neither replaced
nor passed over; the call stops there, and the definitions behind are not collected. -/
namespace KernelProfile.Dwarf

namespace DebugInfo

/-- The entries of a graph can be read with all entries below them, and so can every line table. -/
structure Legible (info : DebugInfo) (G : Die → Prop) : Prop extends info.ReadableIn G where
  below : ∀ d, G d → ∀ c ∈ (info.children d).1, G c
  lineTable : ∀ unit, ∃ table, info.lineTable unit = .ok table

/-- The definition of an entry, with what its attributes do not tell replaced or left out. -/
inductive Describes (info : DebugInfo) (d : Die) : Definition → Prop
  | aggregate {kind : StructKind} {members : List (Option String × Member)}
    (hkind : structKind? d.tag = some kind) (hmembers : info.Members (info.children d).1 members) :
    Describes info d
      (.aggregate ⟨kind, (d.constant? "DW_AT_byte_size").getD 0, .ofMembers members⟩)
  | enumeration {subtype : Ty} {fields : Table Variant} (htag : d.tag = enumTag)
    (hsubtype : info.enumSubtype d = .ok subtype)
    (hfields : (numbered (info.children d).1).foldlM putEnumerator .empty = .ok fields) :
    Describes info d (.enumeration ⟨subtype, fields⟩)

/-- If an entry is an enumeration, 64 bits hold the numbers of its enumerators. -/
def ValuesFit (info : DebugInfo) (d : Die) : Prop :=
  d.tag = enumTag → NumbersFit (info.children d).1

instance (info : DebugInfo) (d : Die) : Decidable (info.ValuesFit d) :=
  inferInstanceAs (Decidable (d.tag = enumTag → NumbersFit (info.children d).1))

/-- An error names a number of an enumerator that 64 bits do not hold. -/
def Overflows (info : DebugInfo) (d : Die) (err : CollectError) : Prop :=
  d.tag = enumTag ∧ ∃ e ∈ numbered (info.children d).1,
    ¬ FitsWord e.2 ∧ err = .variant (.outOfRange e.2 (wordKind e.2))

namespace Legible

variable {info : DebugInfo} {G : Die → Prop} {d : Die}

theorem exists_site (h : info.Legible G) (known : LineTables) (d : Die) :
    ∃ found, info.site known d = .ok found := by
  obtain ⟨table, htable⟩ := h.lineTable d.unit
  unfold site
  split
  · unfold lineTableOf
    split
    · exact ⟨_, rfl⟩
    · rw [htable]
      exact ⟨_, rfl⟩
  · exact ⟨_, rfl⟩

theorem exists_members (h : info.Legible G) (hd : G d) :
    ∃ members, info.Members (info.children d).1 members := by
  have hstep : ∀ c ∈ (info.children d).1, ∀ fields, ∃ fields', info.addMember fields c =
      .ok fields' := by
    intro c hc fields
    obtain ⟨⟨offset, type⟩, hlayout⟩ := h.exists_memberLayout (h.below d hd c hc)
    unfold addMember
    rw [hlayout]
    split <;> exact ⟨_, rfl⟩
  obtain ⟨fields, hfields⟩ := exists_foldlM_ok hstep .empty
  obtain ⟨members, hmembers, -⟩ := foldlM_addMember_eq_ok.mp hfields
  exact ⟨members, hmembers⟩

theorem exists_enumSubtype (h : info.Legible G) (hd : G d) :
    ∃ subtype, info.enumSubtype d = .ok subtype := by
  unfold enumSubtype
  split
  · exact h.exists_referencedType hd
  · exact ⟨_, rfl⟩

/-- What is built of an entry is what describes it. -/
theorem definition?_eq_some_iff (h : info.Legible G) (hd : G d)
    (hdef : Collector.defines d = true) {x : Definition} :
    info.definition? d = some x ↔ info.Describes d x := by
  have hchildren := h.children_eq hd
  unfold definition?
  rcases Collector.defines_tag hdef with ⟨kind, hkind, -, hne⟩ | ⟨hkind, htag⟩
  · rw [hkind]
    constructor
    · intro hx
      obtain ⟨s, hs, rfl⟩ := Option.map_eq_some_iff.mp hx
      obtain ⟨dies, members, hdies, hmembers, rfl⟩ := structDef_eq_ok.mp (ok_of_toOption hs)
      rw [hchildren] at hdies
      cases hdies
      exact .aggregate hkind hmembers
    · intro hx
      cases hx with
      | enumeration htag => exact absurd htag hne
      | @aggregate kind' members hkind' hmembers =>
        cases hkind.symm.trans hkind'
        have hbuilt : info.structDef kind d = .ok _ :=
          structDef_eq_ok.mpr ⟨_, members, hchildren, hmembers, rfl⟩
        simp only [hbuilt]
        rfl
  · rw [hkind]
    constructor
    · intro hx
      obtain ⟨e, he, rfl⟩ := Option.map_eq_some_iff.mp hx
      obtain ⟨subtype, fields, hsubtype, hfields, rfl⟩ :=
        (enumDef_eq_ok hchildren).mp (ok_of_toOption he)
      exact .enumeration htag hsubtype hfields
    · intro hx
      cases hx with
      | aggregate hkind' => cases hkind.symm.trans hkind'
      | @enumeration subtype fields _ hsubtype hfields =>
        have hbuilt : info.enumDef d = .ok _ :=
          (enumDef_eq_ok hchildren).mpr ⟨subtype, fields, hsubtype, hfields, rfl⟩
        simp only [hbuilt]
        rfl

/-- A definition can be built exactly if the values in it fit. -/
theorem exists_describes (h : info.Legible G) (hd : G d) (hdef : Collector.defines d = true) :
    (∃ x, info.Describes d x) ↔ info.ValuesFit d := by
  rcases Collector.defines_tag hdef with ⟨kind, hkind, -, hne⟩ | ⟨-, htag⟩
  · obtain ⟨members, hmembers⟩ := h.exists_members hd
    exact iff_of_true ⟨_, .aggregate hkind hmembers⟩ fun htag => absurd htag hne
  · obtain ⟨subtype, hsubtype⟩ := h.exists_enumSubtype hd
    have hfold : (∃ fields, (numbered (info.children d).1).foldlM putEnumerator .empty =
        .ok fields) ↔ NumbersFit (info.children d).1 :=
      exists_foldlM_ok_iff exists_putEnumerator_ok
    constructor
    · rintro ⟨x, hx⟩ -
      cases hx with
      | aggregate hkind => rw [htag] at hkind; cases hkind
      | enumeration _ _ hfields => exact hfold.mp ⟨_, hfields⟩
    · intro hfit
      obtain ⟨fields, hfields⟩ := hfold.mpr (hfit htag)
      exact ⟨_, .enumeration htag hsubtype hfields⟩

theorem define_fails (h : info.Legible G) (hd : G d) (hdef : Collector.defines d = true)
    (s : Collector) : FailsOnly (info.Overflows d) (s.define info d) := by
  have hchildren := h.children_eq hd
  unfold Collector.define
  rcases Collector.defines_tag hdef with ⟨kind, hkind, -, -⟩ | ⟨hkind, htag⟩
  · obtain ⟨members, hmembers⟩ := h.exists_members hd
    have hbuilt : info.structDef kind d = .ok _ :=
      structDef_eq_ok.mpr ⟨_, members, hchildren, hmembers, rfl⟩
    rw [hkind]
    simp only [hbuilt]
    exact .ok _
  · obtain ⟨subtype, hsubtype⟩ := h.exists_enumSubtype hd
    rw [hkind]
    refine FailsOnly.bind ?_ fun _ _ => .ok _
    exact fun err herr => ⟨htag, enumDef_fails hchildren hsubtype err herr⟩

end Legible
end DebugInfo

namespace Collector

variable {info : DebugInfo} {G : Die → Prop} {s : Collector} {d : Die}

theorem definable_iff_valuesFit (h : info.Legible G) (hd : G d) (hdef : defines d = true) :
    Definable info d ↔ info.ValuesFit d := by
  simp only [definable_iff_definition?, h.definition?_eq_some_iff hd hdef]
  exact h.exists_describes hd hdef

theorem mem_of_mem_survey {known : LineTables} {dies : List Die} {e : Die × Option Site}
    (he : e ∈ survey info known dies) : e.1 ∈ dies ∧ defines e.1 = true := by
  induction dies generalizing known with
  | nil => cases he
  | cons d rest ih =>
    cases hd : defines d with
    | false =>
      rw [survey_of_not_defines hd] at he
      exact (ih he).imp_left (List.mem_cons_of_mem _)
    | true =>
      cases hs : info.site known d with
      | error _ =>
        rw [survey_of_error hs] at he
        exact (ih he).imp_left (List.mem_cons_of_mem _)
      | ok found =>
        rw [survey_of_site hd hs] at he
        rcases List.mem_cons.mp he with rfl | he
        · exact ⟨List.mem_cons_self, hd⟩
        · exact (ih he).imp_left (List.mem_cons_of_mem _)

theorem addDies_cons_completes {rest : List Die} : (s.addDies info (d :: rest)).2 = none ↔
    (s.addDie info d).2 = none ∧ ((s.addDie info d).1.addDies info rest).2 = none := by
  rw [addDies]
  split
  · rename_i hpair
    simp [hpair]
  · rename_i hpair
    simp [hpair]

theorem mem_of_admits {claimed : List Site} {known : LineTables} {dies : List Die}
    (h : Admits claimed (survey info known dies) d) : d ∈ dies ∧ defines d = true := by
  obtain ⟨before, site, after, hl, -⟩ := h
  have hmem : (d, site) ∈ survey info known dies := by
    rw [hl]
    exact List.mem_append_right _ List.mem_cons_self
  exact mem_of_mem_survey hmem

/-- The run lemma: entries whose sites can be found are taken up to the end exactly if the
definition of each that is admitted can be built. -/
theorem addDies_completes_iff {dies : List Die}
    (hsites : ∀ known d, ∃ found, info.site known d = .ok found) :
    (s.addDies info dies).2 = none ↔
      ∀ d, Admits s.claims.sites (survey info s.lineTables dies) d → Definable info d := by
  induction dies generalizing s with
  | nil => exact iff_of_true rfl fun d hd => absurd hd not_admits_nil
  | cons d rest ih =>
    have hstep := addDie_step info s d
    rw [addDies_cons_completes]
    generalize s.addDie info d = result at hstep ⊢
    obtain ⟨s', o⟩ := result
    dsimp only at hstep ⊢
    rw [ih]
    cases hstep with
    | ignored hd =>
      rw [survey_of_not_defines hd]
      exact and_iff_right rfl
    | unlocated hd hs =>
      obtain ⟨found, hfound⟩ := hsites s.lineTables d
      rw [hs] at hfound
      cases hfound
    | @skipped site tables hd hs hc =>
      have hclaims : ∀ x, x ∈ s.claims.sites ↔ some site = some x ∨ x ∈ s.claims.sites := by
        intro x
        exact ⟨.inr, fun h => h.elim (fun e => by cases e; exact hc) id⟩
      rw [survey_of_site hd hs]
      simp only [admits_cons hclaims, true_and]
      refine forall_congr' fun d' => imp_congr_left (or_iff_right ?_).symm
      exact fun h => h.2 site rfl hc
    | @failed site tables e hd hs hc hdef =>
      rw [survey_of_site hd hs]
      refine iff_of_false (by simp) fun hall => hdef (hall d ?_)
      exact (admits_cons (Claims.mem_admit?_snd _ _)).mpr (.inl ⟨rfl, hc⟩)
    | @registered site tables types hd hs hc ht =>
      have hdef : Definable info d := definable_iff.mpr ⟨types, ht⟩
      rw [survey_of_site hd hs]
      simp only [admits_cons (Claims.mem_admit?_snd s.claims site), true_and]
      constructor
      · rintro hrest d' (⟨rfl, -⟩ | hd')
        · exact hdef
        · exact hrest d' hd'
      · exact fun hall d' hd' => hall d' (.inr hd')

theorem addDie_fails {P : CollectError → Prop}
    (hsites : ∀ known d, ∃ found, info.site known d = .ok found)
    (hdef : defines d = true → ∀ s : Collector, FailsOnly P (s.define info d)) {e : CollectError}
    (h : (s.addDie info d).2 = some e) : P e := by
  obtain ⟨⟨site, tables⟩, hsite⟩ := hsites s.lineTables d
  unfold addDie at h
  split at h
  · rename_i hd
    simp only [hsite] at h
    split at h
    · split at h
      · cases h
      · rename_i e' he
        cases h
        exact hdef hd _ _ he
    · cases h
  · cases h

theorem addDies_fails {P : CollectError → Prop} {dies : List Die}
    (hsites : ∀ known d, ∃ found, info.site known d = .ok found)
    (hdef : ∀ d ∈ dies, defines d = true → ∀ s : Collector, FailsOnly P (s.define info d))
    {e : CollectError} (h : (s.addDies info dies).2 = some e) : P e := by
  induction dies generalizing s with
  | nil => cases h
  | cons d rest ih =>
    rw [addDies] at h
    split at h
    · exact ih (fun d' hd' => hdef d' (List.mem_cons_of_mem _ hd')) h
    · rename_i hpair
      cases h
      exact addDie_fails hsites (hdef d List.mem_cons_self) (congrArg Prod.snd hpair)

/-- A listing that did not break off adds nothing to what its entries do. -/
theorem addUnit_whole (s : Collector) (top : List Die) :
    s.addUnit info (top, none) = s.addDies info top := by
  unfold addUnit
  split
  · rename_i hpair
    exact hpair.symm
  · rename_i hpair
    exact hpair.symm

/-- **Only a number that 64 bits do not hold stops a unit that can be read.** Taking the unit up
completes exactly if the numbers of the enumerators fit in every enumeration that is admitted, be
it for having no complete site or for being the first at its own. Then every admitted definition
is kept as it is described; otherwise the error names a number that does not fit. -/
theorem addUnit_completes_iff (h : info.Legible G) (s : Collector) {top : List Die}
    (htop : ∀ d ∈ top, G d) :
    let call := s.addUnit info (top, none)
    let admitted := Admits s.claims.sites (survey info s.lineTables top)
    (call.2 = none ↔ ∀ d, admitted d → info.ValuesFit d) ∧
      (call.2 = none → ∀ d, admitted d →
        ∃ x, info.Describes d x ∧ call.1.types.Keeps d.typeName x) ∧
      ∀ e, call.2 = some e → ∃ d ∈ top, info.Overflows d e := by
  intro call admitted
  have hcall : call = s.addDies info top := addUnit_whole s top
  have hadmitted : ∀ d, admitted d → G d ∧ defines d = true :=
    fun d hd => (mem_of_admits hd).imp_left (htop d)
  have hdefinable : call.2 = none ↔ ∀ d, admitted d → Definable info d := by
    rw [hcall]
    exact addDies_completes_iff h.exists_site
  refine ⟨?fits, ?kept, ?fails⟩
  case fits =>
    rw [hdefinable]
    refine forall_congr' fun d => forall_congr' fun hd => ?_
    exact definable_iff_valuesFit h (hadmitted d hd).1 (hadmitted d hd).2
  case kept =>
    intro hnone d hd
    have hdef := hdefinable.mp hnone d hd
    obtain ⟨x, hx⟩ := definable_iff_definition?.mp hdef
    refine ⟨x, (h.definition?_eq_some_iff (hadmitted d hd).1 (hadmitted d hd).2).mp hx, ?_⟩
    rw [hcall] at hnone ⊢
    rw [addDies_eq_addAll, reached_of_completed hnone, addAll_keeps]
    exact .inr ⟨d, registers_iff.mpr ⟨hd, hdef⟩, x, hx, rfl, .refl x⟩
  case fails =>
    intro e he
    rw [hcall] at he
    refine addDies_fails (P := fun e => ∃ d ∈ top, info.Overflows d e) h.exists_site ?_ he
    intro d hd hdefines s err herr
    exact ⟨d, hd, h.define_fails (htop d hd) hdefines s err herr⟩

end Collector

/-! ## An enumerator that 64 bits do not hold -/

namespace Tree

/-- The entries directly below an entry are among those at any depth. -/
theorem mem_flattenAll {t : Tree} {ts : List Tree} (h : t ∈ ts) {e : Die × List Die}
    (he : e ∈ t.flatten) : e ∈ flattenAll ts := by
  induction ts with
  | nil => cases h
  | cons t' rest ih =>
    rw [flattenAll]
    rcases List.mem_cons.mp h with rfl | h
    · exact List.mem_append_left _ he
    · exact List.mem_append_right _ (ih h)

theorem die_mem_flatten (t : Tree) : t.die ∈ t.flatten.map Prod.fst := by
  obtain ⟨d, below⟩ := t
  rw [flatten]
  exact List.mem_cons_self

mutual

theorem below_mem_flatten : ∀ (t : Tree), ∀ e ∈ t.flatten, ∀ c ∈ e.2,
    c ∈ t.flatten.map Prod.fst
  | .node d below, e, he, c, hc => by
    rw [flatten, List.map_cons]
    rw [flatten] at he
    refine List.mem_cons_of_mem _ ?_
    rcases List.mem_cons.mp he with rfl | he
    · obtain ⟨t, ht, rfl⟩ := List.mem_map.mp hc
      obtain ⟨e, he, hd⟩ := List.mem_map.mp t.die_mem_flatten
      exact List.mem_map.mpr ⟨e, mem_flattenAll ht he, hd⟩
    · exact below_mem_flattenAll below e he c hc

theorem below_mem_flattenAll : ∀ (ts : List Tree), ∀ e ∈ flattenAll ts, ∀ c ∈ e.2,
    c ∈ (flattenAll ts).map Prod.fst
  | [], e, he, c, hc => by
    rw [flattenAll] at he
    cases he
  | t :: rest, e, he, c, hc => by
    rw [flattenAll, List.map_append]
    rw [flattenAll] at he
    rcases List.mem_append.mp he with he | he
    · exact List.mem_append_left _ (below_mem_flatten t e he c hc)
    · exact List.mem_append_right _ (below_mem_flattenAll rest e he c hc)

end

end Tree

namespace Forest

/-- The entries of a forest can be read if every type attribute leads to one of them. -/
theorem legible {f : Forest}
    (h : ∀ d ∈ f.dies, d.has "DW_AT_type" = true → (f.info.target d).isOk = true) :
    f.info.Legible (· ∈ f.dies) where
  toReadableIn := readableIn h
  below d hd c hc := by
    simp only [info] at hc
    split at hc
    · rename_i e below he
      obtain ⟨u, hu, hentry⟩ := List.mem_flatMap.mp (List.mem_of_find?_eq_some he)
      obtain ⟨e', he', rfl⟩ := List.mem_map.mp (Tree.below_mem_flattenAll u.top _ hentry c hc)
      exact List.mem_map_of_mem (List.mem_flatMap.mpr ⟨u, hu, he'⟩)
    · cases hc
  lineTable unit := ⟨_, rfl⟩

def enumerator (offset : Int) (name : String) (value : AttrValue) : Tree :=
  .node ⟨0, 0, offset, "DW_TAG_enumerator", [("DW_AT_name", ⟨"DW_FORM_string", .text name⟩),
    ("DW_AT_const_value", ⟨"DW_FORM_udata", value⟩)]⟩ []

/-- An enumeration of eight bytes without a site. -/
def limits : Die :=
  ⟨0, 0, 32, "DW_TAG_enumeration_type", [("DW_AT_name", ⟨"DW_FORM_string", .text "limits"⟩),
    ("DW_AT_byte_size", ⟨"DW_FORM_data1", .number 8⟩)]⟩

/-- A structure whose member's location is no number and no expression. -/
def task : Die :=
  ⟨0, 0, 64, "DW_TAG_structure_type", [("DW_AT_name", ⟨"DW_FORM_string", .text "task"⟩),
    ("DW_AT_byte_size", ⟨"DW_FORM_block1", .bytes [4]⟩)]⟩

/-- An enumeration with an enumerator of one and another one, and a structure behind it. -/
def limitsWith (value : AttrValue) : Forest where
  littleEndian := true
  units := [⟨none, [.node limits [enumerator 40 "LOW" (.number 1), enumerator 48 "HIGH" value],
    .node task [.node ⟨0, 0, 72, "DW_TAG_member", [("DW_AT_name", ⟨"DW_FORM_string", .text "pid"⟩),
      ("DW_AT_data_member_location", ⟨"DW_FORM_string", .text "?"⟩)]⟩ []]]⟩]

/-- Where the other value is no number it is passed over, and all else is there. -/
theorem limits_without_number :
    let f := limitsWith (.bytes [1, 2])
    let call := ({} : Collector).addUnit f.info ([limits, task], none)
    f.info.Legible (· ∈ f.dies) ∧ (∀ d ∈ [limits, task], d ∈ f.dies) ∧ call.2 = none ∧
      (∃ x, f.info.Describes limits x ∧ call.1.types.Keeps "limits" x) ∧
      ∃ x, f.info.Describes task x ∧ call.1.types.Keeps "task" x := by
  intro f call
  have hlegible : f.info.Legible (· ∈ f.dies) := legible (by decide)
  have htop : ∀ d ∈ [limits, task], d ∈ f.dies := by decide
  have hfit : ∀ d ∈ [limits, task], f.info.ValuesFit d := by decide
  obtain ⟨hcompletes, hkept, -⟩ := Collector.addUnit_completes_iff hlegible {} htop
  have hnone : call.2 = none := hcompletes.mpr fun d hd => hfit d (Collector.mem_of_admits hd).1
  exact ⟨hlegible, htop, hnone, hkept hnone limits ⟨[], none, [(task, none)], rfl, nofun⟩,
    hkept hnone task ⟨[(limits, none)], none, [], rfl, nofun⟩⟩

/-- A value of 65 bits stops the unit: neither the enumeration nor the structure behind it is
collected. -/
theorem limits_too_wide :
    let f := limitsWith (.number 18446744073709551616)
    let call := ({} : Collector).addUnit f.info ([limits, task], none)
    f.listings = [([limits, task], none)] ∧ f.info.Legible (· ∈ f.dies) ∧
      call.2 = some (.variant (.outOfRange 18446744073709551616 .u64)) ∧
      call.1.types.enums.keys = [] ∧ call.1.types.structs.keys = [] :=
  ⟨rfl, legible (by decide), rfl, rfl, rfl⟩

end Forest
end KernelProfile.Dwarf
