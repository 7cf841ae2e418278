import KernelProfile.Proofs.Dwarf.Loss

/-! What the claimed sites save, and that nothing else comes of them. Where the definitions found at
one complete site are copies of each other, a run that passes over claimed sites collects what
registering every definition collects: whatever is passed over is kept already. The counts of a
run tell how often that happened. -/
namespace KernelProfile

namespace Claims

/-- Claim the sites of definitions one after the other. -/
def admitAll (c : Claims) (sites : List (Option Site)) : Claims :=
  sites.foldl (fun c site => (c.admit? site).2) c

theorem reverse_sites_admit? (c : Claims) (x : Site) : (c.admit? (some x)).2.sites.reverse =
    if x ∈ c.sites.reverse then c.sites.reverse else c.sites.reverse ++ [x] := by
  by_cases hx : x ∈ c.sites <;> simp [admit?, claim, hx]

/-- Every site is claimed once, in the order in which the sites first come. -/
theorem reverse_sites_admitAll (c : Claims) (sites : List (Option Site)) :
    (c.admitAll sites).sites.reverse =
      c.sites.reverse ++ ((sites.filterMap id).removeAll c.sites.reverse).eraseDups := by
  induction sites generalizing c with
  | nil => simp [admitAll]
  | cons site sites ih =>
    rw [admitAll, List.foldl_cons, ← admitAll, ih]
    cases site with
    | none => rfl
    | some x =>
      have hsites : (some x :: sites).filterMap id = x :: sites.filterMap id := rfl
      rw [reverse_sites_admit?, hsites, append_eraseDups_removeAll_cons]

/-- An admitted definition adds a site or has none, and only an admitted one does. -/
theorem size_admit? (c : Claims) (site : Option Site) :
    (c.admit? site).2.size + (if site.isNone then 1 else 0) =
      c.size + if (c.admit? site).1 then 1 else 0 := by
  cases site with
  | none => rfl
  | some x => by_cases hx : x ∈ c.sites <;> simp [admit?, claim, size, hx]

end Claims

namespace Dwarf

namespace Collector

variable {info : DebugInfo} {s : Collector}

/-! ## Counting -/

/-- What a step did to the claims and the counts. -/
theorem Step.tally {d : Die} {s' : Collector} {o : Option CollectError} (h : Step info s d s' o) :
    ((∀ rest, Collector.survey info s.lineTables (d :: rest) =
        Collector.survey info s'.lineTables rest) ∧
      s'.claims = s.claims ∧ s'.processed = s.processed ∧ s'.skipped = s.skipped) ∨
    ∃ site, (∀ rest, Collector.survey info s.lineTables (d :: rest) =
        (d, site) :: Collector.survey info s'.lineTables rest) ∧
      s'.claims = (s.claims.admit? site).2 ∧
      s'.processed = s.processed + (if (s.claims.admit? site).1 then 1 else 0) ∧
      s'.skipped = s.skipped + if (s.claims.admit? site).1 then 0 else 1 := by
  cases h with
  | ignored hd => exact .inl ⟨survey_of_not_defines hd, rfl, rfl, rfl⟩
  | unlocated hd hs => exact .inl ⟨survey_of_error hs, rfl, rfl, rfl⟩
  | @skipped site tables hd hs hc =>
    refine .inr ⟨some site, survey_of_site hd hs, ?_⟩
    simp [Claims.admit?_of_mem hc]
  | @failed site tables e hd hs hc hdef =>
    have hclaim := (Claims.admit?_fst s.claims site).mpr hc
    refine .inr ⟨site, survey_of_site hd hs, rfl, ?_⟩
    simp [hclaim]
  | @registered site tables types hd hs hc ht =>
    have hclaim := (Claims.admit?_fst s.claims site).mpr hc
    refine .inr ⟨site, survey_of_site hd hs, rfl, ?_⟩
    simp [hclaim]

/-- The run lemma for claims and counts: every definition found is counted once, and one that is
worked on claims a site or has none. -/
theorem addAll_tally (s : Collector) (dies : List Die) :
    (s.addAll info dies).claims =
        s.claims.admitAll ((survey info s.lineTables dies).map Prod.snd) ∧
      (s.addAll info dies).processed + (s.addAll info dies).skipped =
        s.processed + s.skipped + (survey info s.lineTables dies).length ∧
      (s.addAll info dies).processed + s.claims.size =
        s.processed + (s.addAll info dies).claims.size +
          (survey info s.lineTables dies).countP (·.2.isNone) := by
  induction dies generalizing s with
  | nil => simp [addAll, survey, Claims.admitAll]
  | cons d rest ih =>
    rw [addAll, List.foldl_cons, ← addAll]
    obtain ⟨hclaims, hsum, hprocessed⟩ := ih (s.addDie info d).1
    rcases (addDie_step info s d).tally with ⟨hl, hc, hp, hk⟩ | ⟨site, hl, hc, hp, hk⟩
    · rw [hl]
      rw [hc] at hclaims hprocessed
      exact ⟨hclaims, by omega, by omega⟩
    · rw [hl]
      have hsize := Claims.size_admit? s.claims site
      have hone : (if (s.claims.admit? site).1 then 1 else 0) +
          (if (s.claims.admit? site).1 then 0 else 1) = 1 := by
        split <;> rfl
      refine ⟨?_, ?_, ?_⟩
      · rw [hclaims, hc]
        rfl
      · rw [List.length_cons]
        omega
      · rw [List.countP_cons]
        rw [hc] at hprocessed
        dsimp only
        omega

/-! ## Registering everything -/

/-- Register the definition of an entry; one that cannot be built adds nothing. -/
def enter (info : DebugInfo) (types : TypeCollection) (d : Die) : TypeCollection :=
  match info.definition? d with
  | some x => types.register d.typeName x
  | none => types

/-- Register the definitions of entries one after the other, with no regard to their sites. -/
def registerEach (info : DebugInfo) (types : TypeCollection) (dies : List Die) : TypeCollection :=
  dies.foldl (enter info) types

theorem enter_of_definition? {types : TypeCollection} {d : Die} {x : Definition}
    (h : info.definition? d = some x) :
    enter info types d = types.register d.typeName x := by
  simp only [enter, h]

theorem enter_keeps {types : TypeCollection} {name : String} {x : Definition}
    (h : types.Keeps name x) (d : Die) : (enter info types d).Keeps name x := by
  unfold enter
  split
  · exact h.register _ _
  · exact h

/-- Definitions at one complete site are copies of each other: they have the same name and build the
same definition of the same namespace. -/
def Copies (info : DebugInfo) (l : List (Die × Option Site)) : Prop :=
  ∀ a ∈ l, ∀ b ∈ l, a.2.isSome → a.2 = b.2 →
    a.1.typeName = b.1.typeName ∧ info.definition? a.1 = info.definition? b.1

instance (info : DebugInfo) (l : List (Die × Option Site)) : Decidable (Copies info l) :=
  inferInstanceAs (Decidable (∀ a ∈ l, ∀ b ∈ l, a.2.isSome → a.2 = b.2 →
    a.1.typeName = b.1.typeName ∧ info.definition? a.1 = info.definition? b.1))

/-- What the definitions at claimed sites build is kept. -/
def ClaimsKept (info : DebugInfo) (s : Collector) (l : List (Die × Option Site)) : Prop :=
  ∀ e ∈ l, ∀ x, e.2 = some x → x ∈ s.claims.sites → ∀ y, info.definition? e.1 = some y →
    s.types.Keeps e.1.typeName y

/-- A settled definition leaves what registering it leaves: if it was not registered, it cannot be
built or is kept already. -/
theorem Settled.types_eq {s' : Collector} {d : Die} {site : Option Site}
    {l : List (Die × Option Site)} (h : Settled info s s' d site)
    (hkept : ClaimsKept info s ((d, site) :: l)) : s'.types = enter info s.types d := by
  rcases h with ⟨-, ht, -, -⟩ | ⟨htypes, hnot⟩
  · obtain ⟨y, hy, hreg⟩ := define_eq_ok.mp ht
    rw [enter_of_definition? hy, hreg]
  · rw [htypes]
    cases hy : info.definition? d with
    | none => simp only [enter, hy]
    | some y =>
      have hclaimed : ¬ ∀ x, site = some x → x ∉ s.claims.sites :=
        fun hfree => hnot ⟨definable_iff_definition?.mpr ⟨y, hy⟩, hfree⟩
      simp only [Classical.not_forall, Classical.not_not] at hclaimed
      obtain ⟨x, hsite, hx⟩ := hclaimed
      have hkeeps := hkept (d, site) List.mem_cons_self x hsite hx y hy
      rw [enter_of_definition? hy, TypeCollection.register_of_keeps hkeeps]

/-- The step lemma: once a definition is settled, what its copies build is kept as well. -/
theorem ClaimsKept.step {s' : Collector} {d : Die} {site : Option Site}
    {l : List (Die × Option Site)} (h : ClaimsKept info s ((d, site) :: l))
    (hcopies : Copies info ((d, site) :: l))
    (hclaims : ∀ x, x ∈ s'.claims.sites ↔ site = some x ∨ x ∈ s.claims.sites)
    (htypes : s'.types = enter info s.types d) : ClaimsKept info s' l := by
  intro e he x hex hx y hy
  have he' := List.mem_cons_of_mem (d, site) he
  rw [htypes]
  rcases (hclaims x).mp hx with hsite | hx
  · obtain ⟨hname, hdef⟩ :=
      hcopies (d, site) List.mem_cons_self e he' (by simp [hsite]) (by rw [hsite, hex])
    rw [enter_of_definition? (hdef.trans hy), hname]
    exact TypeCollection.keeps_register_self _ _ _
  · exact enter_keeps (h e he' x hex hx y hy) d

theorem Copies.tail {e : Die × Option Site} {l : List (Die × Option Site)}
    (h : Copies info (e :: l)) : Copies info l :=
  fun a ha b hb => h a (List.mem_cons_of_mem _ ha) b (List.mem_cons_of_mem _ hb)

/-- The run lemma: with regard to the claimed sites or without, the same is collected. -/
theorem addAll_types_eq (s : Collector) (dies : List Die)
    (hcopies : Copies info (survey info s.lineTables dies))
    (hkept : ClaimsKept info s (survey info s.lineTables dies)) :
    (s.addAll info dies).types =
      registerEach info s.types ((survey info s.lineTables dies).map Prod.fst) := by
  induction dies generalizing s with
  | nil => rfl
  | cons d rest ih =>
    rw [addAll, List.foldl_cons, ← addAll]
    rcases (addDie_step info s d).survey with
      ⟨-, hclaims, htypes, hl⟩ | ⟨site, hl, hclaims, hsettled⟩
    · rw [hl] at hcopies hkept ⊢
      have hkept' : ClaimsKept info (s.addDie info d).1
          (survey info (s.addDie info d).1.lineTables rest) := by
        unfold ClaimsKept
        rw [hclaims, htypes]
        exact hkept
      rw [ih _ hcopies hkept', htypes]
    · rw [hl] at hcopies hkept ⊢
      have htypes := hsettled.types_eq hkept
      rw [ih _ hcopies.tail (hkept.step hcopies hclaims htypes), htypes]
      rfl

/-- Where entries are taken up to the end, every definition can be built or one at its site can, or
its site was claimed before. -/
theorem exists_definable_of_completed {dies : List Die} (h : (s.addDies info dies).2 = none)
    {e : Die × Option Site} (he : e ∈ survey info s.lineTables dies) :
    (∃ d, (d, e.2) ∈ survey info s.lineTables dies ∧ (e.2 = none → d = e.1) ∧ Definable info d) ∨
      ∃ x, e.2 = some x ∧ x ∈ s.claims.sites := by
  induction dies generalizing s with
  | nil => cases he
  | cons d rest ih =>
    have hstep := addDie_step info s d
    simp only [addDies] at h
    split at h
    · rename_i s' hpair
      rw [hpair] at hstep
      cases hstep with
      | ignored hd =>
        rw [survey_of_not_defines hd] at he ⊢
        exact ih h he
      | @skipped site tables hd hs hc =>
        rw [survey_of_site hd hs] at he ⊢
        rcases List.mem_cons.mp he with rfl | he
        · exact .inr ⟨site, rfl, hc⟩
        · refine (ih h he).imp_left ?_
          rintro ⟨d', hd', hrest⟩
          exact ⟨d', List.mem_cons_of_mem _ hd', hrest⟩
      | @registered site tables types hd hs hc ht =>
        have hdef : Definable info d := definable_iff.mpr ⟨types, ht⟩
        rw [survey_of_site hd hs] at he ⊢
        rcases List.mem_cons.mp he with rfl | he
        · exact .inl ⟨d, List.mem_cons_self, fun _ => rfl, hdef⟩
        · rcases ih h he with ⟨d', hd', hrest⟩ | ⟨x, hex, hx⟩
          · exact .inl ⟨d', List.mem_cons_of_mem _ hd', hrest⟩
          · -- the site was claimed by this very entry or before it
            rcases (Claims.mem_admit?_snd _ _ _).mp hx with hsite | hx
            · refine .inl ⟨d, ?_, by simp [hex], hdef⟩
              rw [hex, hsite]
              exact List.mem_cons_self
            · exact .inr ⟨x, hex, hx⟩
    · cases h

/-! ## Runs whose calls complete -/

/-- Every call of a run completes. -/
def Completes (info : DebugInfo) (s : Collector) : List Listing → Prop
  | [] => True
  | top :: units => (s.addUnit info top).2 = none ∧ Completes info (s.addUnit info top).1 units

instance decidableCompletes (info : DebugInfo) :
    (units : List Listing) → (s : Collector) → Decidable (Completes info s units)
  | [], _ => .isTrue trivial
  | top :: units, s =>
    have := decidableCompletes info units (s.addUnit info top).1
    inferInstanceAs (Decidable ((s.addUnit info top).2 = none ∧
      Completes info (s.addUnit info top).1 units))

/-- The top-level entries of units that define a type, in order. -/
def definitions (units : List Listing) : List Die := (units.flatMap Prod.fst).filter defines

theorem addDies_append {dies : List Die} (h : (s.addDies info dies).2 = none) (later : List Die) :
    s.addDies info (dies ++ later) = (s.addDies info dies).1.addDies info later := by
  induction dies generalizing s with
  | nil => rfl
  | cons d rest ih =>
    simp only [List.cons_append, addDies] at h ⊢
    split at h
    · exact ih h
    · cases h

/-- Calls that complete take up the entries of all units, as if they were those of one. -/
theorem Completes.all {units : List Listing} (h : Completes info s units) :
    s.reachedIn info units = units.flatMap Prod.fst ∧
      (s.addDies info (units.flatMap Prod.fst)).2 = none := by
  induction units generalizing s with
  | nil => exact ⟨rfl, rfl⟩
  | cons top units ih =>
    obtain ⟨hcall, hrest⟩ := h
    have hdies := addDies_of_addUnit hcall
    obtain ⟨hreached, hall⟩ := ih hrest
    have hsame : (s.addDies info top.1).1 = (s.addUnit info top).1 := by
      rw [addDies_eq_addAll, addUnit_eq_addAll]
    refine ⟨?_, ?_⟩
    · rw [reachedIn, reached_of_completed hdies, hreached, List.flatMap_cons]
    · rw [List.flatMap_cons, addDies_append hdies, hsame]
      exact hall

/-- **The claimed sites change nothing but the work.** Where the definitions found at one site are
copies of each other, a run collects what registering every definition collects, in the same
order; every definition is counted once, as processed if it has no complete site or is the first at
its site, and otherwise as skipped. If the calls complete, the definitions found are all that stand
at the top level of the units, and each of them can be built. -/
theorem collected_eq_registerEach (info : DebugInfo) (units : List Listing)
    (hcopies : Copies info (found info units)) :
    collected info units = registerEach info {} ((found info units).map Prod.fst) ∧
    (({} : Collector).addUnits info units).processed +
        (({} : Collector).addUnits info units).skipped = (found info units).length ∧
    (({} : Collector).addUnits info units).processed =
      (found info units).countP (·.2.isNone) +
        ((found info units).filterMap Prod.snd).eraseDups.length ∧
    (Completes info {} units →
      (found info units).map Prod.fst = definitions units ∧
        ∀ d ∈ definitions units, ∃ x, info.definition? d = some x) := by
  rw [collected, addUnits_eq_addAll]
  obtain ⟨hclaims, hsum, hprocessed⟩ :=
    @addAll_tally info {} (({} : Collector).reachedIn info units)
  refine ⟨?_, ?_, ?_, ?_⟩
  · -- no site is claimed at the start
    refine addAll_types_eq {} _ hcopies ?_
    intro e _ x _ hx
    cases hx
  · rw [hsum]
    simp [found]
  · have hsites := congrArg List.length (Claims.reverse_sites_admitAll {}
      ((found info units).map Prod.snd))
    have hid : id ∘ (Prod.snd : Die × Option Site → Option Site) = Prod.snd := rfl
    simp only [List.length_reverse, List.reverse_nil, List.removeAll_nil, List.nil_append,
      List.filterMap_map, hid] at hsites
    have hsize :
        (({} : Collector).addAll info (({} : Collector).reachedIn info units)).claims.size =
          ((found info units).filterMap Prod.snd).eraseDups.length := by
      rw [hclaims]
      exact hsites
    rw [hsize] at hprocessed
    simp only [found, Claims.size, List.length_nil] at hprocessed ⊢
    omega
  · intro hcompletes
    obtain ⟨hreached, hdies⟩ := hcompletes.all
    have hfound : found info units = survey info ({} : Collector).lineTables
        (units.flatMap Prod.fst) := by
      rw [found, hreached]
    have hall : (found info units).map Prod.fst = definitions units := by
      rw [hfound, survey_of_completed hdies, definitions]
    refine ⟨hall, ?_⟩
    intro d hd
    rw [← hall] at hd
    obtain ⟨e, he, rfl⟩ := List.mem_map.mp hd
    rcases exists_definable_of_completed hdies (hfound ▸ he) with
      ⟨d', hd', hnone, hdef⟩ | ⟨x, -, hx⟩
    · obtain ⟨y, hy⟩ := definable_iff_definition?.mp hdef
      cases hsite : e.2 with
      | none => exact ⟨y, hnone hsite ▸ hy⟩
      | some x =>
        have hcopy := hcopies (d', e.2) (hfound ▸ hd') e he (by simp [hsite]) rfl
        exact ⟨y, hcopy.2.symm.trans hy⟩
    · cases hx

end Collector

/-! ## A header that two units include -/

namespace Forest

open Collector

/-- A structure of the second unit alone, whose site is not given. -/
def unlocatedStructure : Die :=
  ⟨1, 256, 304, "DW_TAG_structure_type", [("DW_AT_name", ⟨"DW_FORM_string", .text "local"⟩),
    ("DW_AT_byte_size", ⟨"DW_FORM_data1", .number 4⟩)]⟩

/-- A unit with one structure of a header. -/
def pointUnit : MemoryUnit where
  lineTable := some ⟨4, [], [⟨.text "point.h", 0⟩]⟩
  top := [intType 0 0, .node (structureAt 0 0 16 "point" 5 4) [intMember 0 0 24 "x" 0]]

/-- A unit with a copy of that structure, and one of its own. -/
def localUnit : MemoryUnit where
  lineTable := some ⟨4, [], [⟨.text "point.h", 0⟩]⟩
  top := [intType 1 256, .node (structureAt 1 256 272 "point" 5 4) [intMember 1 256 280 "x" 0],
    .node unlocatedStructure [intMember 1 256 312 "y" 0]]

def repeatedHeader : Forest := ⟨true, [pointUnit, localUnit]⟩

/-- The second copy is passed over, and nothing comes of it. -/
theorem repeatedHeader_collected :
    Copies repeatedHeader.info (found repeatedHeader.info repeatedHeader.listings) ∧
      Completes repeatedHeader.info {} repeatedHeader.listings ∧
      (definitions repeatedHeader.listings).length = 3 ∧
      (({} : Collector).addUnits repeatedHeader.info repeatedHeader.listings).skipped = 1 ∧
      collected repeatedHeader.info repeatedHeader.listings =
        registerEach repeatedHeader.info {} (definitions repeatedHeader.listings) := by
  have hcopies :
      Copies repeatedHeader.info (found repeatedHeader.info repeatedHeader.listings) := by
    decide
  have hcompletes : Completes repeatedHeader.info {} repeatedHeader.listings := by decide
  obtain ⟨hcollected, _, _, hall⟩ :=
    collected_eq_registerEach repeatedHeader.info repeatedHeader.listings hcopies
  refine ⟨hcopies, hcompletes, rfl, rfl, ?_⟩
  rw [hcollected, (hall hcompletes).1]

end Forest
end Dwarf
end KernelProfile
