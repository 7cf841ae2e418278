import KernelProfile.Proofs.Dwarf.Anomaly
import KernelProfile.Proofs.Dwarf.SeenSet

/-! Units that are taken up again. A collector only ever gains: claimed sites stay claimed, line
tables stay as they were found, and definitions stay kept. An entry that was taken up is absorbed
from then on, by its claimed site or by the definition that is kept of it, and taking up absorbed
entries comes to nothing. A definition that fails stops the call on its unit. The next call stops
there as well, unless the site has been claimed for it: then the call passes over it and goes on. -/
namespace KernelProfile.Dwarf

/-- Line tables that are known stay known, whatever else becomes known. -/
def LineTables.Extends (known later : LineTables) : Prop :=
  ∀ offset table, known.lookup offset = some table → later.lookup offset = some table

namespace DebugInfo

variable {info : DebugInfo} {known known' later : LineTables} {d : Die}

theorem lineTableOf_eq_ok {table : Option LineTable}
    (h : info.lineTableOf known d = .ok (table, known')) :
    known'.lookup d.unitOffset = some table ∧ known.Extends known' := by
  unfold lineTableOf at h
  cases hk : known.lookup d.unitOffset with
  | some t =>
    rw [hk] at h
    cases h
    exact ⟨hk, fun _ _ h => h⟩
  | none =>
    rw [hk] at h
    obtain ⟨t, -, ht⟩ := bind_eq_ok.mp h
    cases ht
    refine ⟨by simp, ?_⟩
    intro offset t' ht'
    -- the new table is that of an offset that had none
    have hne : offset ≠ d.unitOffset := by
      intro he
      rw [he, hk] at ht'
      cases ht'
    simpa [List.lookup_cons, beq_eq_false_iff_ne.mpr hne] using ht'

theorem lineTableOf_of_lookup {table : Option LineTable}
    (h : later.lookup d.unitOffset = some table) :
    info.lineTableOf later d = .ok (table, later) := by
  simp only [lineTableOf, h]

theorem site_extends {site : Option Site} (h : info.site known d = .ok (site, known')) :
    known.Extends known' := by
  unfold DebugInfo.site at h
  split at h
  · obtain ⟨⟨table, known''⟩, ht, he⟩ := bind_eq_ok.mp h
    cases he
    exact (lineTableOf_eq_ok ht).2
  · cases h
    exact fun _ _ h => h

/-- The site of an entry is found again, and no table has to be looked up for it. -/
theorem site_again {site : Option Site} (h : info.site known d = .ok (site, known'))
    (hlater : known'.Extends later) : info.site later d = .ok (site, later) := by
  unfold DebugInfo.site at h ⊢
  split at h
  · obtain ⟨⟨table, known''⟩, ht, he⟩ := bind_eq_ok.mp h
    cases he
    have hagain := hlater _ _ (lineTableOf_eq_ok ht).1
    simp only [lineTableOf_of_lookup hagain]
    rfl
  · cases h
    rfl

end DebugInfo

namespace Collector

variable {info : DebugInfo} {s s' : Collector} {d : Die}

/-- What a later state of a collector has kept of an earlier one. -/
structure Extends (s s' : Collector) : Prop where
  claimed : ∀ x, x ∈ s.claims.sites → x ∈ s'.claims.sites
  lineTables : s.lineTables.Extends s'.lineTables
  kept : ∀ name x, s.types.Keeps name x → s'.types.Keeps name x

theorem Extends.refl (s : Collector) : s.Extends s := ⟨fun _ h => h, fun _ _ h => h, fun _ _ h => h⟩

theorem Extends.trans {t : Collector} (h : s.Extends s') (h' : s'.Extends t) : s.Extends t where
  claimed x hx := h'.claimed x (h.claimed x hx)
  lineTables offset table ht := h'.lineTables offset table (h.lineTables offset table ht)
  kept name x hx := h'.kept name x (h.kept name x hx)

/-- The step lemma: whatever comes of an entry, nothing is given up. -/
theorem Step.extends {o : Option CollectError} (h : Step info s d s' o) : s.Extends s' := by
  cases h with
  | ignored hd => exact .refl s
  | unlocated hd hs => exact .refl s
  | skipped hd hs hc =>
    exact ⟨fun _ h => h, DebugInfo.site_extends hs, fun _ _ h => h⟩
  | failed hd hs hc hdef =>
    exact ⟨fun x hx => (Claims.mem_admit?_snd _ _ x).mpr (.inr hx), DebugInfo.site_extends hs,
      fun _ _ h => h⟩
  | registered hd hs hc ht =>
    exact ⟨fun x hx => (Claims.mem_admit?_snd _ _ x).mpr (.inr hx), DebugInfo.site_extends hs,
      fun name x hx => (define_keeps ht name x).mpr (.inr hx)⟩

/-- The run lemma. -/
theorem addAll_extends (s : Collector) (dies : List Die) : s.Extends (s.addAll info dies) := by
  induction dies generalizing s with
  | nil => exact .refl s
  | cons d rest ih => exact (addDie_step info s d).extends.trans (ih _)

/-- Taking an entry up comes to nothing: its site is known and claimed, or it has no complete one
and its definition is kept. -/
def Absorbed (info : DebugInfo) (s : Collector) (d : Die) : Prop :=
  ∃ site, info.site s.lineTables d = .ok (site, s.lineTables) ∧
    ((∃ x, site = some x ∧ x ∈ s.claims.sites) ∨
      (site = none ∧ ∃ y, info.definition? d = some y ∧ s.types.Keeps d.typeName y))

theorem Absorbed.extends (h : Absorbed info s d) (he : s.Extends s') : Absorbed info s' d := by
  obtain ⟨site, hsite, habs⟩ := h
  refine ⟨site, DebugInfo.site_again hsite he.lineTables, ?_⟩
  rcases habs with ⟨x, hx, hc⟩ | ⟨hnone, y, hy, hk⟩
  · exact .inl ⟨x, hx, he.claimed x hc⟩
  · exact .inr ⟨hnone, y, hy, he.kept _ _ hk⟩

/-- A definition that was taken up without fault is absorbed. -/
theorem Step.absorbed (h : Step info s d s' none) (hd : defines d = true) : Absorbed info s' d := by
  cases h with
  | ignored hd' =>
    rw [hd] at hd'
    cases hd'
  | @skipped site tables _ hs hc =>
    exact ⟨some site, DebugInfo.site_again hs (fun _ _ h => h), .inl ⟨site, rfl, hc⟩⟩
  | @registered site tables types _ hs hc ht =>
    refine ⟨site, DebugInfo.site_again hs (fun _ _ h => h), ?_⟩
    cases site with
    | some x => exact .inl ⟨x, rfl, (Claims.mem_admit?_snd _ _ x).mpr (.inl rfl)⟩
    | none =>
      obtain ⟨y, hy, hreg⟩ := define_eq_ok.mp ht
      refine .inr ⟨rfl, y, hy, ?_⟩
      rw [← hreg]
      exact TypeCollection.keeps_register_self _ _ _

/-- Only the counts of a collector differ. -/
def SameButCounts (s s' : Collector) : Prop :=
  s'.types = s.types ∧ s'.claims = s.claims ∧ s'.lineTables = s.lineTables

theorem SameButCounts.extends (h : SameButCounts s s') : s.Extends s' := by
  obtain ⟨htypes, hclaims, htables⟩ := h
  refine ⟨?_, ?_, ?_⟩
  · rw [hclaims]
    exact fun _ h => h
  · rw [htables]
    exact fun _ _ h => h
  · rw [htypes]
    exact fun _ _ h => h

theorem SameButCounts.trans {t : Collector} (h : SameButCounts s s') (h' : SameButCounts s' t) :
    SameButCounts s t :=
  ⟨h'.1.trans h.1, h'.2.1.trans h.2.1, h'.2.2.trans h.2.2⟩

theorem addDie_of_absorbed (h : defines d = true → Absorbed info s d) :
    SameButCounts s (s.addDie info d).1 ∧ (s.addDie info d).2 = none := by
  unfold addDie
  cases hd : defines d with
  | false => exact ⟨⟨rfl, rfl, rfl⟩, rfl⟩
  | true =>
    obtain ⟨site, hsite, habs⟩ := h hd
    simp only [if_true, hsite]
    rcases habs with ⟨x, rfl, hx⟩ | ⟨rfl, y, hy, hk⟩
    · simp only [Claims.admit?_of_mem hx]
      exact ⟨⟨rfl, rfl, rfl⟩, rfl⟩
    · -- registered once more, under a name that keeps it already
      have hdef : ({ s with processed := s.processed + 1 } : Collector).define info d =
          .ok s.types := define_eq_ok.mpr ⟨y, hy, TypeCollection.register_of_keeps hk⟩
      simp only [Claims.admit?, if_true, hdef]
      exact ⟨⟨rfl, rfl, rfl⟩, trivial⟩

/-- Entries that are absorbed at the start are so all along. -/
theorem addDies_of_absorbed {dies : List Die}
    (h : ∀ d ∈ dies, defines d = true → Absorbed info s d) :
    SameButCounts s (s.addDies info dies).1 ∧ (s.addDies info dies).2 = none := by
  induction dies generalizing s with
  | nil => exact ⟨⟨rfl, rfl, rfl⟩, rfl⟩
  | cons d rest ih =>
    obtain ⟨hsame, hnone⟩ := addDie_of_absorbed (h d List.mem_cons_self)
    have hpair : s.addDie info d = ((s.addDie info d).1, none) := Prod.ext rfl hnone
    have hrest : ∀ e ∈ rest, defines e = true → Absorbed info (s.addDie info d).1 e :=
      fun e he hd => (h e (List.mem_cons_of_mem _ he) hd).extends hsame.extends
    obtain ⟨hsame', hnone'⟩ := ih hrest
    rw [addDies, hpair]
    exact ⟨hsame.trans hsame', hnone'⟩

/-- What a call that completes has taken up is absorbed. -/
theorem absorbed_of_completed {dies : List Die} (h : (s.addDies info dies).2 = none) :
    ∀ d ∈ dies, defines d = true → Absorbed info (s.addDies info dies).1 d := by
  induction dies generalizing s with
  | nil => simp
  | cons d rest ih =>
    have hstep := addDie_step info s d
    simp only [addDies] at h ⊢
    split at h
    · rename_i s' hpair
      rw [hpair] at hstep
      intro e he hd
      rcases List.mem_cons.mp he with rfl | he
      · rw [addDies_eq_addAll]
        exact (hstep.absorbed hd).extends (addAll_extends s' _)
      · exact ih h e he hd
    · cases h

/-! ## Calls that stop -/

/-- Whether a definition fails, and how, does not hang on what was collected. -/
theorem define_eq_error {t : Collector} {e : CollectError} (h : s.define info d = .error e) :
    t.define info d = .error e := by
  unfold define at h ⊢
  split at h
  all_goals
    obtain hdef | ⟨_, -, hdef⟩ := bind_eq_error.mp h
    · exact bind_eq_error.mpr (.inl hdef)
    · cases hdef

section Unlocated

variable {tables : LineTables} {e : CollectError}

/-- An entry without a complete site fails as its definition does. -/
theorem define_of_addDie_fails (hs : info.site s.lineTables d = .ok (none, tables))
    (h : (s.addDie info d).2 = some e) : defines d = true ∧ s.define info d = .error e := by
  unfold addDie at h
  cases hd : defines d with
  | false => simp [hd] at h
  | true =>
    simp only [hd, if_true, hs, Claims.admit?] at h
    refine ⟨rfl, ?_⟩
    cases hdef : s.define info d with
    | error e' =>
      rw [define_eq_error hdef] at h
      exact congrArg Except.error (Option.some.inj h)
    | ok types =>
      -- a definition that is built ends the step without fault
      have hsame : ({ s with lineTables := tables, processed := s.processed + 1 } :
          Collector).define info d = s.define info d := define_congr rfl
      rw [hsame, hdef] at h
      cases h

theorem addDie_of_define_fails (hd : defines d = true)
    (hs : info.site s.lineTables d = .ok (none, tables)) (hdef : s.define info d = .error e) :
    s.addDie info d =
      ({ s with lineTables := tables, processed := s.processed + 1 }, some e) := by
  simp only [addDie, hd, if_true, hs, Claims.admit?, define_eq_error hdef]

end Unlocated

/-- An entry whose site cannot be found changes nothing. -/
theorem addDie_of_site_error {e : ReadError} (hd : defines d = true)
    (hs : info.site s.lineTables d = .error e) : s.addDie info d = (s, some (.read e)) := by
  simp only [addDie, hd, if_true, hs]

theorem addDies_cons_of_fails {e : CollectError} (h : (s.addDie info d).2 = some e)
    (after : List Die) : s.addDies info (d :: after) = ((s.addDie info d).1, some e) := by
  have hpair : s.addDie info d = ((s.addDie info d).1, some e) := Prod.ext rfl h
  rw [addDies, hpair]

/-- A call stops at the first entry that fails. -/
theorem addUnit_of_fails {u : Listing} {before after : List Die} {e : CollectError}
    (hu : u.1 = before ++ d :: after) (hbefore : (s.addDies info before).2 = none)
    (h : ((s.addDies info before).1.addDie info d).2 = some e) :
    s.addUnit info u = (((s.addDies info before).1.addDie info d).1, some e) := by
  have hdies : s.addDies info u.1 = (((s.addDies info before).1.addDie info d).1, some e) := by
    rw [hu, addDies_append hbefore, addDies_cons_of_fails h]
  rw [addUnit, hdies]

/-- What a call on some entries came to, where another one in a later state comes to the same. -/
inductive Settles (info : DebugInfo) (s later : Collector) (dies : List Die) : Prop
  /-- It took up all entries. -/
  | completed (h : (s.addDies info dies).2 = none) : Settles info s later dies
  /-- It stopped at an entry that has no complete site. -/
  | unlocated {before after : List Die} {d : Die} {tables : LineTables} {e : CollectError}
      (hdies : dies = before ++ d :: after) (hbefore : (s.addDies info before).2 = none)
      (hfails : ((s.addDies info before).1.addDie info d).2 = some e)
      (hs : info.site (s.addDies info before).1.lineTables d = .ok (none, tables)) :
      Settles info s later dies
  /-- It stopped at an entry whose site could not be found, and still cannot. -/
  | unreadable {before after : List Die} {d : Die} {e : ReadError}
      (hdies : dies = before ++ d :: after) (hbefore : (s.addDies info before).2 = none)
      (hd : defines d = true) (hs : info.site (s.addDies info before).1.lineTables d = .error e)
      (hlater : info.site later.lineTables d = .error e) : Settles info s later dies

section Again

variable {t : Collector} {u : Listing}

/-- Entries that were all taken up are absorbed. -/
theorem addDies_again {dies : List Die} (h : (s.addDies info dies).2 = none)
    (ht : (s.addDies info dies).1.Extends t) :
    SameButCounts t (t.addDies info dies).1 ∧ (t.addDies info dies).2 = none :=
  addDies_of_absorbed fun d hd hdef => (absorbed_of_completed h d hd hdef).extends ht

/-- The next call stops where the earlier one did, if the entry there fails again and nothing comes
of it. -/
theorem addUnit_again_of_fails {before after : List Die} {e : CollectError}
    (hu : u.1 = before ++ d :: after) (hbefore : (s.addDies info before).2 = none)
    (h : ((s.addDies info before).1.addDie info d).2 = some e)
    (ht : (s.addUnit info u).1.Extends t)
    (hagain : ∀ t', SameButCounts t t' → (t'.addDie info d).2 = some e ∧
      (t'.addDie info d).1.types = t'.types ∧ (t'.addDie info d).1.claims = t'.claims) :
    (t.addUnit info u).2 = (s.addUnit info u).2 ∧ (t.addUnit info u).1.types = t.types ∧
      (t.addUnit info u).1.claims = t.claims := by
  rw [addUnit_of_fails hu hbefore h] at ht ⊢
  obtain ⟨hsame, hnone⟩ := addDies_again hbefore ((addDie_step info _ d).extends.trans ht)
  obtain ⟨hfails, htypes, hclaims⟩ := hagain _ hsame
  rw [addUnit_of_fails hu hnone hfails]
  exact ⟨rfl, htypes.trans hsame.1, hclaims.trans hsame.2.1⟩

theorem addUnit_again_of_settles (h : Settles info s t u.1) (ht : (s.addUnit info u).1.Extends t) :
    (t.addUnit info u).2 = (s.addUnit info u).2 ∧ (t.addUnit info u).1.types = t.types ∧
      (t.addUnit info u).1.claims = t.claims := by
  cases h with
  | completed hall =>
    rw [addUnit_of_addDies hall] at ht ⊢
    obtain ⟨⟨htypes, hclaims, -⟩, hnone⟩ := addDies_again hall ht
    rw [addUnit_of_addDies hnone]
    exact ⟨rfl, htypes, hclaims⟩
  | unlocated hu hbefore hfails hs =>
    obtain ⟨hd, hdef⟩ := define_of_addDie_fails hs hfails
    refine addUnit_again_of_fails hu hbefore hfails ht fun t' hsame => ?_
    rw [addUnit_of_fails hu hbefore hfails, addDie_of_define_fails hd hs hdef] at ht
    have hagain := addDie_of_define_fails hd
      (DebugInfo.site_again hs (ht.trans hsame.extends).lineTables) (define_eq_error hdef)
    rw [hagain]
    exact ⟨rfl, rfl, rfl⟩
  | unreadable hu hbefore hd hs hlater =>
    have hfails := congrArg Prod.snd (addDie_of_site_error hd hs)
    refine addUnit_again_of_fails hu hbefore hfails ht fun t' hsame => ?_
    rw [← hsame.2.2] at hlater
    rw [addDie_of_site_error hd hlater]
    exact ⟨rfl, rfl, rfl⟩

end Again

/-- **Taking a unit up again changes nothing**, unless the earlier call stopped at a definition with
a complete site. After any run in which the call on a unit took it up to the end, or stopped at a
definition for which no site was claimed, and whatever was taken up before and since, one more call
on it ends in the same way and leaves the definitions, their order and the claimed sites as they
are. -/
theorem addUnit_again (info : DebugInfo) (s : Collector) (earlier later : List Listing)
    (u : Listing)
    (h : Settles info (s.addUnits info earlier) (s.addUnits info (earlier ++ u :: later)) u.1) :
    ((s.addUnits info (earlier ++ u :: later)).addUnit info u).2 =
        ((s.addUnits info earlier).addUnit info u).2 ∧
      ((s.addUnits info (earlier ++ u :: later)).addUnit info u).1.types =
        (s.addUnits info (earlier ++ u :: later)).types ∧
      ((s.addUnits info (earlier ++ u :: later)).addUnit info u).1.claims =
        (s.addUnits info (earlier ++ u :: later)).claims := by
  refine addUnit_again_of_settles h ?_
  have hrun : s.addUnits info (earlier ++ u :: later) =
      ((s.addUnits info earlier).addUnit info u).1.addUnits info later := by
    simp [addUnits]
  rw [hrun, addUnits_eq_addAll _ later]
  exact addAll_extends _ _

end Collector

namespace Forest

open Collector

/-- A unit is taken up again after another one was: its structure without a site is kept, and the
site of its other one is claimed. -/
theorem localUnit_again :
    let first : Listing := (pointUnit.top.map Tree.die, none)
    let second : Listing := (localUnit.top.map Tree.die, none)
    let s := ({} : Collector).addUnits repeatedHeader.info [first, second, first]
    Settles repeatedHeader.info (({} : Collector).addUnits repeatedHeader.info [first]) s second.1 ∧
      s.types.structs.keys = ["point", "local"] ∧ s.claims.size = 1 ∧
      (s.addUnit repeatedHeader.info second).2 = none ∧
      (s.addUnit repeatedHeader.info second).1.types = s.types ∧
      (s.addUnit repeatedHeader.info second).1.claims = s.claims := by
  intro first second s
  have hsettles : Settles repeatedHeader.info
      (({} : Collector).addUnits repeatedHeader.info [first]) s second.1 := .completed rfl
  obtain ⟨hcall, htypes, hclaims⟩ :=
    addUnit_again repeatedHeader.info {} [first] [first] second hsettles
  exact ⟨hsettles, rfl, rfl, hcall, htypes, hclaims⟩

/-- An enumeration at line three of a header. -/
def limitsAtSite : Die :=
  ⟨0, 0, 32, "DW_TAG_enumeration_type", [("DW_AT_name", ⟨"DW_FORM_string", .text "limits"⟩),
    ("DW_AT_byte_size", ⟨"DW_FORM_data1", .number 8⟩),
    ("DW_AT_decl_file", ⟨"DW_FORM_data1", .number 1⟩),
    ("DW_AT_decl_line", ⟨"DW_FORM_data1", .number 3⟩),
    ("DW_AT_decl_column", ⟨"DW_FORM_data1", .number 1⟩)]⟩

/-- The enumeration with an enumerator that is too wide, and a structure behind it. -/
def stoppedUnit : MemoryUnit where
  lineTable := some ⟨4, [], [⟨.text "a.h", 0⟩]⟩
  top := [.node limitsAtSite
      [enumerator 40 "LOW" (.number 1), enumerator 48 "HIGH" (.number 18446744073709551616)],
    .node (structureAt 0 0 64 "task" 9 4) []]

/-- The first call stops at the enumeration, whose site it has claimed. The second one passes over
it and collects the structure. -/
theorem stoppedUnit_goes_on :
    let f : Forest := ⟨true, [stoppedUnit]⟩
    let u : Listing := ([limitsAtSite, structureAt 0 0 64 "task" 9 4], none)
    let first := ({} : Collector).addUnit f.info u
    let second := first.1.addUnit f.info u
    f.listings = [u] ∧
      first.2 = some (.variant (.outOfRange 18446744073709551616 .u64)) ∧
      first.1.types.structs.keys = [] ∧ first.1.claims.size = 1 ∧
      second.2 = none ∧ second.1.types.structs.keys = ["task"] ∧ second.1.claims.size = 2 ∧
      ¬ ∀ (info : DebugInfo) (s : Collector) (earlier later : List Listing) (v : Listing),
        ((s.addUnits info (earlier ++ v :: later)).addUnit info v).1.types =
            (s.addUnits info (earlier ++ v :: later)).types ∧
          ((s.addUnits info (earlier ++ v :: later)).addUnit info v).1.claims =
            (s.addUnits info (earlier ++ v :: later)).claims := by
  intro f u first second
  refine ⟨rfl, rfl, rfl, rfl, rfl, rfl, rfl, fun hall => ?_⟩
  obtain ⟨-, hclaims⟩ := hall f.info {} [] [] u
  have hsizes : second.1.claims.size = first.1.claims.size := congrArg Claims.size hclaims
  exact absurd hsizes (by decide)

end Forest
end KernelProfile.Dwarf
