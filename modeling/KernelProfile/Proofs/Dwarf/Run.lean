import KernelProfile.Proofs.Dwarf.Definition
import KernelProfile.Proofs.Dwarf.Reference
import KernelProfile.Proofs.Registration

/-! Runs of a collector over any number of units. One inversion lemma says all that taking up an
entry can do; a run over units is then a run over the entries that its calls reach, and the sites
of those entries are known without looking at the collector. -/
namespace KernelProfile.Dwarf

/-- The top-level entries of a unit as they are listed, and the fault that broke the listing off. -/
abbrev Listing := List Die × Option ReadError

namespace Collector

/-- A definition's entry is that of an aggregate or of an enumeration. -/
theorem defines_tag {d : Die} (h : defines d = true) :
    (∃ kind, structKind? d.tag = some kind ∧ isAggregateTag d.tag = true ∧ d.tag ≠ enumTag) ∨
      (structKind? d.tag = none ∧ d.tag = enumTag) := by
  simp only [defines, Bool.and_eq_true, Bool.or_eq_true, decide_eq_true_eq] at h
  rcases h.1 with h | h
  · exact .inr ⟨by rw [h]; rfl, h⟩
  · have hmem : d.tag ∈ ["DW_TAG_structure_type", "DW_TAG_class_type", "DW_TAG_union_type"] := by
      simpa [isAggregateTag] using h
    simp only [List.mem_cons, List.not_mem_nil, or_false] at hmem
    rcases hmem with ht | ht | ht
    all_goals exact .inl ⟨_, by rw [ht]; rfl, h, by rw [ht]; decide⟩

variable {info : DebugInfo} {s : Collector} {d : Die}

/-- The definition of an entry can be built. Whether it can does not hang on what was collected. -/
def Definable (info : DebugInfo) (d : Die) : Prop :=
  ∃ types, ({} : Collector).define info d = .ok types

theorem definable_iff_definition? : Definable info d ↔ ∃ x, info.definition? d = some x :=
  exists_define

theorem definable_iff : Definable info d ↔ ∃ types, s.define info d = .ok types :=
  definable_iff_definition?.trans exists_define.symm

/-- Registering a definition makes its own reference resolve, and no other one. -/
theorem define_defines {types : TypeCollection} (hd : defines d = true)
    (h : s.define info d = .ok types) (r : Reference) :
    types.Defines r ↔ d.reference? = some r ∨ s.types.Defines r := by
  unfold define at h
  rcases defines_tag hd with ⟨kind, hkind, hagg, henum⟩ | ⟨hkind, henum⟩
  · rw [hkind] at h
    obtain ⟨x, hx, he⟩ := bind_eq_ok.mp h
    cases he
    rw [Die.reference?, if_neg henum, if_pos hagg]
    cases r with
    | enumeration name => simp [TypeCollection.Defines]
    | aggregate name =>
      simp [TypeCollection.Defines, Table.mem_keys_register, eq_comm]
  · rw [hkind] at h
    obtain ⟨x, hx, he⟩ := bind_eq_ok.mp h
    cases he
    rw [Die.reference?, if_pos henum]
    cases r with
    | enumeration name =>
      simp [TypeCollection.Defines, Table.mem_keys_register, eq_comm]
    | aggregate name => simp [TypeCollection.Defines]

/-- What a definition mentions, its entry refers to. -/
theorem define_mentions {types : TypeCollection} (hd : defines d = true)
    (h : s.define info d = .ok types) {r : Reference} (hr : types.Mentions r) :
    s.types.Mentions r ∨ ∃ e, info.Mentions d e ∧ e.reference? = some r := by
  unfold define at h
  rcases defines_tag hd with ⟨kind, hkind, hagg, henum⟩ | ⟨hkind, henum⟩
  · rw [hkind] at h
    obtain ⟨x, hx, he⟩ := bind_eq_ok.mp h
    cases he
    cases hr with
    | subtype he hr => exact .inl (.subtype he hr)
    | field hs hm hr =>
      rcases Table.mem_entries_register _ hs with he | hs
      · cases he
        exact .inr (DebugInfo.structDef_mentions hagg hx hm hr)
      · exact .inl (.field hs hm hr)
  · rw [hkind] at h
    obtain ⟨x, hx, he⟩ := bind_eq_ok.mp h
    cases he
    cases hr with
    | subtype he hr =>
      rcases Table.mem_entries_register _ he with he | he
      · cases he
        exact .inr (DebugInfo.enumDef_mentions henum hx hr)
      · exact .inl (.subtype he hr)
    | field hs hm hr => exact .inl (.field hs hm hr)

/-- All that taking up one entry can do. -/
inductive Step (info : DebugInfo) (s : Collector) (d : Die) :
    Collector → Option CollectError → Prop
  /-- The entry defines nothing. -/
  | ignored (hd : defines d = false) : Step info s d s none
  /-- The entry's site cannot be found. -/
  | unlocated {e : ReadError} (hd : defines d = true)
      (hs : info.site s.lineTables d = .error e) : Step info s d s (some (.read e))
  /-- The entry's site was claimed before. -/
  | skipped {site : Site} {tables : LineTables} (hd : defines d = true)
      (hs : info.site s.lineTables d = .ok (some site, tables)) (hc : site ∈ s.claims.sites) :
      Step info s d { s with lineTables := tables, skipped := s.skipped + 1 } none
  /-- The entry is admitted but its definition cannot be built. -/
  | failed {site : Option Site} {tables : LineTables} {e : CollectError} (hd : defines d = true)
      (hs : info.site s.lineTables d = .ok (site, tables))
      (hc : ∀ x, site = some x → x ∉ s.claims.sites) (hdef : ¬ Definable info d) :
      Step info s d { s with
        lineTables := tables, claims := (s.claims.admit? site).2,
        processed := s.processed + 1 } (some e)
  /-- The entry is admitted and its definition registered. -/
  | registered {site : Option Site} {tables : LineTables} {types : TypeCollection}
      (hd : defines d = true) (hs : info.site s.lineTables d = .ok (site, tables))
      (hc : ∀ x, site = some x → x ∉ s.claims.sites) (ht : s.define info d = .ok types) :
      Step info s d { s with
        types, lineTables := tables, claims := (s.claims.admit? site).2,
        processed := s.processed + 1 } none

theorem define_congr {s t : Collector} (h : s.types = t.types) :
    s.define info d = t.define info d := by
  unfold define
  rw [h]

theorem addDie_step (info : DebugInfo) (s : Collector) (d : Die) :
    Step info s d (s.addDie info d).1 (s.addDie info d).2 := by
  unfold addDie
  cases hd : defines d with
  | false => exact .ignored hd
  | true =>
    simp only [if_true]
    cases hs : info.site s.lineTables d with
    | error e => exact .unlocated hd hs
    | ok found =>
      obtain ⟨site, tables⟩ := found
      dsimp only
      cases ha : (s.claims.admit? site).1 with
      | false =>
        obtain ⟨hclaims, x, rfl, hx⟩ := Claims.admit?_fst_eq_false ha
        simp only [Bool.false_eq_true, if_false, hclaims]
        exact .skipped hd hs hx
      | true =>
        have hc := (Claims.admit?_fst _ _).mp ha
        simp only [if_true]
        -- the tables and claims that changed meanwhile play no part in the definition
        have hsame : define info { s with
            lineTables := tables, claims := (s.claims.admit? site).2,
            processed := s.processed + 1 } d = define info s d := define_congr rfl
        rw [hsame]
        cases ht : s.define info d with
        | error e =>
          refine .failed hd hs hc fun hdef => ?_
          obtain ⟨types, h⟩ := (definable_iff (s := s)).mp hdef
          rw [ht] at h
          cases h
        | ok types => exact .registered hd hs hc ht

/-! ## Runs -/

/-- Calls on one collector, one after the other. What a call that fails has registered stays, and
the next call goes on from there. -/
def addUnits (info : DebugInfo) (s : Collector) (units : List Listing) : Collector :=
  units.foldl (fun s top => (s.addUnit info top).1) s

/-- The entries that a call gets to: all of them, or those up to the first that fails. -/
def reached (info : DebugInfo) (s : Collector) : List Die → List Die
  | [] => []
  | d :: rest =>
    d :: if (s.addDie info d).2.isNone then reached info (s.addDie info d).1 rest else []

/-- The entries that the calls of a run get to, in order. -/
def reachedIn (info : DebugInfo) (s : Collector) : List Listing → List Die
  | [] => []
  | top :: units =>
    s.reached info top.1 ++ reachedIn info (s.addUnit info top).1 units

/-- Entries taken up one after the other, whether or not they fail. -/
def addAll (info : DebugInfo) (s : Collector) (dies : List Die) : Collector :=
  dies.foldl (fun s d => (s.addDie info d).1) s

theorem addDies_eq_addAll (s : Collector) (dies : List Die) :
    (s.addDies info dies).1 = s.addAll info (s.reached info dies) := by
  induction dies generalizing s with
  | nil => rfl
  | cons d rest ih =>
    cases ho : (s.addDie info d).2 with
    | none =>
      have hpair : s.addDie info d = ((s.addDie info d).1, none) := Prod.ext rfl ho
      simp only [addDies, reached, ho, Option.isNone_none, if_true, addAll, List.foldl_cons]
      rw [hpair]
      exact ih _
    | some e =>
      -- the failing entry is still reached, and keeps what it has changed
      have hpair : s.addDie info d = ((s.addDie info d).1, some e) := Prod.ext rfl ho
      simp only [addDies, reached, ho, Option.isNone_some, addAll, List.foldl_cons]
      rw [hpair]
      rfl

/-- A call that completes gets to every entry. -/
theorem reached_of_completed {dies : List Die} (h : (s.addDies info dies).2 = none) :
    s.reached info dies = dies := by
  induction dies generalizing s with
  | nil => rfl
  | cons d rest ih =>
    cases ho : (s.addDie info d).2 with
    | none =>
      have hpair : s.addDie info d = ((s.addDie info d).1, none) := Prod.ext rfl ho
      simp only [addDies] at h
      rw [hpair] at h
      simp only [reached, ho, Option.isNone_none, if_true]
      rw [ih h]
    | some e =>
      have hpair : s.addDie info d = ((s.addDie info d).1, some e) := Prod.ext rfl ho
      simp only [addDies] at h
      rw [hpair] at h
      cases h

theorem addUnit_eq_addAll (s : Collector) (top : Listing) :
    (s.addUnit info top).1 = s.addAll info (s.reached info top.1) := by
  rw [← addDies_eq_addAll]
  unfold addUnit
  split
  all_goals
    rename_i h
    rw [h]

/-- A call that completes has taken up all its entries. -/
theorem addDies_of_addUnit {top : Listing} (h : (s.addUnit info top).2 = none) :
    (s.addDies info top.1).2 = none := by
  unfold addUnit at h
  split at h
  · cases h
  · rename_i hpair
    rw [hpair]

/-- Where all entries are taken up, only the end of the listing can make the call fail. -/
theorem addUnit_of_addDies {top : Listing} (h : (s.addDies info top.1).2 = none) :
    s.addUnit info top = ((s.addDies info top.1).1, top.2.map .read) := by
  unfold addUnit
  split
  · rename_i hpair
    rw [hpair] at h
    cases h
  · rename_i hpair
    rw [hpair]

theorem addUnits_eq_addAll (s : Collector) (units : List Listing) :
    s.addUnits info units = s.addAll info (s.reachedIn info units) := by
  induction units generalizing s with
  | nil => rfl
  | cons top units ih =>
    have hrest := ih (s.addUnit info top).1
    rw [addUnits, List.foldl_cons]
    rw [addUnits] at hrest
    rw [hrest, reachedIn, addAll, addAll, List.foldl_append, addUnit_eq_addAll]
    rfl

theorem reachedIn_append (s : Collector) (units later : List Listing) :
    s.reachedIn info (units ++ later) =
      s.reachedIn info units ++ (s.addUnits info units).reachedIn info later := by
  induction units generalizing s with
  | nil => rfl
  | cons top units ih =>
    rw [List.cons_append, reachedIn, reachedIn, ih, List.append_assoc, addUnits, addUnits,
      List.foldl_cons]

/-! ## Sites -/

/-- The definitions among some entries with the sites that a run finds for them, given the line
tables that are known at its start. -/
def survey (info : DebugInfo) (known : LineTables) : List Die → List (Die × Option Site)
  | [] => []
  | d :: rest =>
    if defines d then
      match info.site known d with
      | .ok (site, known) => (d, site) :: survey info known rest
      | .error _ => survey info known rest
    else survey info known rest

theorem survey_of_not_defines {known : LineTables} (hd : defines d = false) (rest : List Die) :
    survey info known (d :: rest) = survey info known rest := by
  simp [survey, hd]

theorem survey_of_error {known : LineTables} {e : ReadError} (hs : info.site known d = .error e)
    (rest : List Die) : survey info known (d :: rest) = survey info known rest := by
  simp [survey, hs]

theorem survey_of_site {known tables : LineTables} {site : Option Site} (hd : defines d = true)
    (hs : info.site known d = .ok (site, tables)) (rest : List Die) :
    survey info known (d :: rest) = (d, site) :: survey info tables rest := by
  simp [survey, hd, hs]

/-- An entry of a survey that is worked on: no earlier definition has the same complete site, nor
was that site claimed before. -/
def Admits (claimed : List Site) (l : List (Die × Option Site)) (d : Die) : Prop :=
  ∃ before site after, l = before ++ (d, site) :: after ∧
    ∀ x, site = some x → x ∉ claimed ∧ ∀ e ∈ before, e.2 ≠ some x

theorem not_admits_nil {claimed : List Site} : ¬ Admits claimed [] d := by
  rintro ⟨before, site, after, h, -⟩
  simp at h

theorem admits_cons {claimed claimed' : List Site} {d₀ : Die} {site₀ : Option Site}
    {l : List (Die × Option Site)} (hc : ∀ x, x ∈ claimed' ↔ site₀ = some x ∨ x ∈ claimed) :
    Admits claimed ((d₀, site₀) :: l) d ↔
      (d₀ = d ∧ ∀ x, site₀ = some x → x ∉ claimed) ∨ Admits claimed' l d := by
  constructor
  · rintro ⟨before, site, after, h, hfirst⟩
    -- either the entry is the head itself, or the head is among the earlier ones, whose sites
    -- count as claimed from then on
    cases before with
    | nil =>
      simp only [List.nil_append, List.cons.injEq, Prod.mk.injEq] at h
      obtain ⟨⟨rfl, rfl⟩, rfl⟩ := h
      exact .inl ⟨rfl, fun x hx => (hfirst x hx).1⟩
    | cons e before =>
      simp only [List.cons_append, List.cons.injEq] at h
      obtain ⟨rfl, rfl⟩ := h
      refine .inr ⟨before, site, after, rfl, fun x hx => ?_⟩
      obtain ⟨hclaimed, hbefore⟩ := hfirst x hx
      refine ⟨?_, fun e he => hbefore e (List.mem_cons_of_mem _ he)⟩
      rw [hc]
      exact not_or.mpr ⟨hbefore _ List.mem_cons_self, hclaimed⟩
  · rintro (⟨rfl, hfirst⟩ | ⟨before, site, after, rfl, hfirst⟩)
    · exact ⟨[], site₀, l, rfl, fun x hx => ⟨hfirst x hx, by simp⟩⟩
    · refine ⟨(d₀, site₀) :: before, site, after, rfl, fun x hx => ?_⟩
      obtain ⟨hclaimed, hbefore⟩ := hfirst x hx
      rw [hc, not_or] at hclaimed
      refine ⟨hclaimed.2, fun e he => ?_⟩
      rcases List.mem_cons.mp he with rfl | he
      · exact hclaimed.1
      · exact hbefore e he

/-- An entry of a survey whose definition is registered: it can be built, and no earlier definition
has the same complete site, nor was that site claimed before. -/
def Registers (info : DebugInfo) (claimed : List Site) (l : List (Die × Option Site))
    (d : Die) : Prop :=
  ∃ before site after, l = before ++ (d, site) :: after ∧ Definable info d ∧
    ∀ x, site = some x → x ∉ claimed ∧ ∀ e ∈ before, e.2 ≠ some x

theorem registers_iff {claimed : List Site} {l : List (Die × Option Site)} :
    Registers info claimed l d ↔ Admits claimed l d ∧ Definable info d := by
  constructor
  · rintro ⟨before, site, after, h, hdef, hfirst⟩
    exact ⟨⟨before, site, after, h, hfirst⟩, hdef⟩
  · rintro ⟨⟨before, site, after, h, hfirst⟩, hdef⟩
    exact ⟨before, site, after, h, hdef, hfirst⟩

theorem not_registers_nil {claimed : List Site} : ¬ Registers info claimed [] d :=
  fun h => not_admits_nil (registers_iff.mp h).1

theorem registers_cons {claimed claimed' : List Site} {d₀ : Die} {site₀ : Option Site}
    {l : List (Die × Option Site)} (hc : ∀ x, x ∈ claimed' ↔ site₀ = some x ∨ x ∈ claimed) :
    Registers info claimed ((d₀, site₀) :: l) d ↔
      (d₀ = d ∧ Definable info d₀ ∧ ∀ x, site₀ = some x → x ∉ claimed) ∨
        Registers info claimed' l d := by
  rw [registers_iff, admits_cons hc, or_and_right, ← registers_iff]
  refine or_congr_left ⟨?_, ?_⟩
  · rintro ⟨⟨rfl, hfirst⟩, hdef⟩
    exact ⟨rfl, hdef, hfirst⟩
  · rintro ⟨rfl, hdef, hfirst⟩
    exact ⟨⟨rfl, hfirst⟩, hdef⟩

/-- What a step did to the definitions: a surveyed entry whose definition can be built and whose
site was free is registered, and otherwise all stays as it is. -/
def Settled (info : DebugInfo) (s s' : Collector) (d : Die) (site : Option Site) : Prop :=
  (defines d = true ∧ s.define info d = .ok s'.types ∧
      Definable info d ∧ ∀ x, site = some x → x ∉ s.claims.sites) ∨
    (s'.types = s.types ∧ ¬ (Definable info d ∧ ∀ x, site = some x → x ∉ s.claims.sites))

/-- The step lemma: an entry that defines nothing, or whose site cannot be found, changes nothing
that matters here; any other one is surveyed, claims its site and is settled. -/
theorem Step.survey {s' : Collector} {o : Option CollectError} (h : Step info s d s' o) :
    ((defines d = true → o ≠ none) ∧ s'.claims = s.claims ∧ s'.types = s.types ∧
      ∀ rest, survey info s.lineTables (d :: rest) = survey info s'.lineTables rest) ∨
    ∃ site, (∀ rest, survey info s.lineTables (d :: rest) =
        (d, site) :: survey info s'.lineTables rest) ∧
      (∀ x, x ∈ s'.claims.sites ↔ site = some x ∨ x ∈ s.claims.sites) ∧
      Settled info s s' d site := by
  cases h with
  | ignored hd =>
    exact .inl ⟨by simp [hd], rfl, rfl, survey_of_not_defines hd⟩
  | unlocated hd hs =>
    exact .inl ⟨nofun, rfl, rfl, survey_of_error hs⟩
  | @skipped site tables hd hs hc =>
    refine .inr ⟨some site, survey_of_site hd hs, fun x => ?_,
      .inr ⟨rfl, fun h => h.2 site rfl hc⟩⟩
    exact ⟨.inr, fun h => h.elim (fun e => by cases e; exact hc) id⟩
  | @failed site tables e hd hs hc hdef =>
    exact .inr ⟨site, survey_of_site hd hs, Claims.mem_admit?_snd _ _,
      .inr ⟨rfl, fun h => hdef h.1⟩⟩
  | @registered site tables types hd hs hc ht =>
    exact .inr ⟨site, survey_of_site hd hs, Claims.mem_admit?_snd _ _,
      .inl ⟨hd, ht, definable_iff.mpr ⟨types, ht⟩, hc⟩⟩

/-- A call that completes finds the site of every definition. -/
theorem survey_of_completed {dies : List Die} (h : (s.addDies info dies).2 = none) :
    (survey info s.lineTables dies).map Prod.fst = dies.filter defines := by
  induction dies generalizing s with
  | nil => rfl
  | cons d rest ih =>
    have hstep := addDie_step info s d
    simp only [addDies] at h
    split at h
    · rename_i s' hpair
      rw [hpair] at hstep
      cases hstep with
      | ignored hd =>
        rw [survey_of_not_defines hd, List.filter_cons_of_neg (by simp [hd])]
        exact ih h
      | skipped hd hs hc =>
        rw [survey_of_site hd hs, List.map_cons, List.filter_cons_of_pos hd, ← ih h]
      | registered hd hs hc ht =>
        rw [survey_of_site hd hs, List.map_cons, List.filter_cons_of_pos hd, ← ih h]
    · cases h

theorem mem_survey_of_completed {dies : List Die} (h : (s.addDies info dies).2 = none)
    (hm : d ∈ dies) (hd : defines d = true) :
    ∃ site, (d, site) ∈ survey info s.lineTables dies := by
  have hfound : d ∈ (survey info s.lineTables dies).map Prod.fst := by
    rw [survey_of_completed h]
    exact List.mem_filter.mpr ⟨hm, hd⟩
  obtain ⟨e, he, rfl⟩ := List.mem_map.mp hfound
  exact ⟨e.2, he⟩

theorem survey_append (s : Collector) (dies later : List Die) :
    survey info s.lineTables (dies ++ later) =
      survey info s.lineTables dies ++ survey info (s.addAll info dies).lineTables later := by
  induction dies generalizing s with
  | nil => rfl
  | cons d rest ih =>
    rw [List.cons_append, addAll, List.foldl_cons, ← addAll]
    rcases (addDie_step info s d).survey with ⟨-, -, -, hl⟩ | ⟨site, hl, -⟩
    · rw [hl, hl, ih]
    · rw [hl, hl, ih, List.cons_append]

/-- The run lemma for what only registering brings about: it holds after some entries if it did
before, or if one of the entries whose definitions are registered brings it about. -/
theorem addAll_holds_iff {P : TypeCollection → Prop} {Q : Die → Prop}
    (hstep : ∀ {s : Collector} {d : Die} {types : TypeCollection}, defines d = true →
      s.define info d = .ok types → (P types ↔ Q d ∨ P s.types)) (s : Collector)
    (dies : List Die) :
    P (s.addAll info dies).types ↔ P s.types ∨
      ∃ d, Registers info s.claims.sites (survey info s.lineTables dies) d ∧ Q d := by
  -- over the entries; the claims of a step become the claimed sites of the rest of the survey
  induction dies generalizing s with
  | nil => simp [addAll, survey, not_registers_nil]
  | cons d rest ih =>
    rw [addAll, List.foldl_cons, ← addAll, ih]
    rcases (addDie_step info s d).survey with
      ⟨-, hclaims, htypes, hl⟩ | ⟨site, hl, hclaims, hsettled⟩
    · rw [hl, hclaims, htypes]
    · rw [hl]
      simp only [registers_cons hclaims]
      rcases hsettled with ⟨hd, ht, hfirst⟩ | ⟨htypes, hfirst⟩
      · rw [hstep hd ht]
        constructor
        · rintro ((hq | h) | ⟨e, he, hq⟩)
          · exact .inr ⟨d, .inl ⟨rfl, hfirst⟩, hq⟩
          · exact .inl h
          · exact .inr ⟨e, .inr he, hq⟩
        · rintro (h | ⟨e, ⟨rfl, -⟩ | he, hq⟩)
          · exact .inl (.inr h)
          · exact .inl (.inl hq)
          · exact .inr ⟨e, he, hq⟩
      · -- skipped or failed: the entry is surveyed but cannot be the one that registers
        rw [htypes]
        refine or_congr_right (exists_congr fun e => ?_)
        simp [hfirst]

/-- The references that resolve after some entries are those that did before and those of the
entries whose definitions are registered. -/
theorem addAll_defines (s : Collector) (dies : List Die) (r : Reference) :
    (s.addAll info dies).types.Defines r ↔ s.types.Defines r ∨
      ∃ d, Registers info s.claims.sites (survey info s.lineTables dies) d ∧
        d.reference? = some r :=
  addAll_holds_iff (P := fun types => types.Defines r) (fun hd h => define_defines hd h r) s dies

/-- A definition is kept after some entries if it was before, or if one of those whose definitions
are registered has its name and covers it. -/
theorem addAll_keeps (s : Collector) (dies : List Die) (name : String) (x : Definition) :
    (s.addAll info dies).types.Keeps name x ↔ s.types.Keeps name x ∨
      ∃ d, Registers info s.claims.sites (survey info s.lineTables dies) d ∧
        ∃ y, info.definition? d = some y ∧ d.typeName = name ∧ y.Covers x :=
  addAll_holds_iff (P := fun types => types.Keeps name x) (fun _ h => define_keeps h name x) s dies

/-- The run lemma for references: what is mentioned after some entries was mentioned before, or an
entry whose definition is registered refers to it. -/
theorem addAll_mentions {s : Collector} {dies : List Die} {r : Reference}
    (h : (s.addAll info dies).types.Mentions r) : s.types.Mentions r ∨
      ∃ d, Registers info s.claims.sites (survey info s.lineTables dies) d ∧
        ∃ e, info.Mentions d e ∧ e.reference? = some r := by
  induction dies generalizing s with
  | nil => exact .inl h
  | cons d rest ih =>
    rw [addAll, List.foldl_cons, ← addAll] at h
    rcases (addDie_step info s d).survey with
      ⟨-, hclaims, htypes, hl⟩ | ⟨site, hl, hclaims, hsettled⟩
    · rw [hl, ← hclaims, ← htypes]
      exact ih h
    · rw [hl]
      simp only [registers_cons hclaims]
      rcases ih h with h | ⟨e, he, hr⟩
      · rcases hsettled with ⟨hd, ht, hfirst⟩ | ⟨htypes, -⟩
        · exact (define_mentions hd ht h).imp_right fun hr => ⟨d, .inl ⟨rfl, hfirst⟩, hr⟩
        · exact .inl (htypes ▸ h)
      · exact .inr ⟨e, .inr he, hr⟩

end Collector
end KernelProfile.Dwarf
