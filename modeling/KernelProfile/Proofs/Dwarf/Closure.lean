import KernelProfile.Dwarf.Forest
import KernelProfile.Proofs.Dwarf.Run

/-! Which references of a collection resolve. A copy of a definition at a claimed site is passed
over, and what refers to the copy is left with the copy's own name: it resolves exactly if a
definition that was registered bears that name. Copies of a declared name do; a copy without one
is named after its own offset, and then nothing does. -/
namespace KernelProfile.Dwarf

namespace Collector

/-- The definitions that a run over units finds on its way, with their sites. -/
def found (info : DebugInfo) (units : List Listing) : List (Die × Option Site) :=
  survey info [] (({} : Collector).reachedIn info units)

/-- What a run over units has collected at its end. -/
def collected (info : DebugInfo) (units : List Listing) : TypeCollection :=
  (({} : Collector).addUnits info units).types

/-- A definition at the top level of a unit whose call completes. -/
def TopLevel (info : DebugInfo) (units : List Listing) (e : Die) : Prop :=
  defines e = true ∧ ∃ earlier top later, units = earlier ++ top :: later ∧ e ∈ top.1 ∧
    ((({} : Collector).addUnits info earlier).addUnit info top).2 = none

/-- An entry stands for another one: it is that entry, or both have one complete site. -/
def StandsFor (l : List (Die × Option Site)) (d e : Die) : Prop :=
  ∃ site, (e, site) ∈ l ∧ (d, site) ∈ l ∧ (site = none → d = e)

theorem exists_first_at {x : Site} {l : List (Die × Option Site)} {e : Die}
    (h : (e, some x) ∈ l) : ∃ before d after, l = before ++ (d, some x) :: after ∧
      ∀ b ∈ before, b.2 ≠ some x := by
  induction l with
  | nil => cases h
  | cons b rest ih =>
    by_cases hb : b.2 = some x
    · exact ⟨[], b.1, rest, by rw [← hb]; rfl, by simp⟩
    · have hrest : (e, some x) ∈ rest := by
        rcases List.mem_cons.mp h with rfl | h
        · exact absurd rfl hb
        · exact h
      obtain ⟨before, d, after, rfl, hfirst⟩ := ih hrest
      refine ⟨b :: before, d, after, rfl, fun c hc => ?_⟩
      rcases List.mem_cons.mp hc with rfl | hc
      · exact hb
      · exact hfirst c hc

/-- Of the entries that stand for a found one, one is registered, if all of them can be built. -/
theorem exists_registers {info : DebugInfo} {l : List (Die × Option Site)} {e : Die}
    {site : Option Site} (he : (e, site) ∈ l) (hdef : ∀ d, StandsFor l d e → Definable info d) :
    ∃ d, StandsFor l d e ∧ Registers info [] l d := by
  cases site with
  | none =>
    -- without a site the entry is always admitted
    have hself : StandsFor l e e := ⟨none, he, he, fun _ => rfl⟩
    obtain ⟨before, after, hl⟩ := List.append_of_mem he
    exact ⟨e, hself, before, none, after, hl, hdef e hself, nofun⟩
  | some x =>
    -- with one it is the first entry at the site that is
    obtain ⟨before, d, after, hl, hfirst⟩ := exists_first_at he
    have hd : StandsFor l d e := ⟨some x, he, by rw [hl]; simp, nofun⟩
    refine ⟨d, hd, before, some x, after, hl, hdef d hd, fun y hy => ⟨by simp, ?_⟩⟩
    cases hy
    exact hfirst

theorem mem_found_of_topLevel {info : DebugInfo} {units : List Listing} {e : Die}
    (h : TopLevel info units e) : ∃ site, (e, site) ∈ found info units := by
  obtain ⟨hd, earlier, top, later, rfl, he, hcall⟩ := h
  have hdies := addDies_of_addUnit hcall
  obtain ⟨site, hm⟩ := mem_survey_of_completed hdies he hd
  refine ⟨site, ?_⟩
  rw [found, reachedIn_append, reachedIn, reached_of_completed hdies]
  change _ ∈ survey info ({} : Collector).lineTables _
  rw [survey_append, survey_append, ← addUnits_eq_addAll]
  exact List.mem_append_right _ (List.mem_append_left _ hm)

/-- A reference that stands in what a run collected comes from a definition that a registered one
refers to. It resolves exactly if a registered definition has the same name and namespace. One to
a top-level definition therefore resolves whenever all that stand for that definition can be built
and have its name. -/
theorem mention_resolves_iff (info : DebugInfo) (units : List Listing) (r : Reference)
    (h : (collected info units).Mentions r) :
    ∃ d e, Registers info [] (found info units) d ∧ info.Mentions d e ∧
      e.reference? = some r ∧
      ((collected info units).Defines r ↔
        ∃ d', Registers info [] (found info units) d' ∧ d'.reference? = some r) ∧
      (TopLevel info units e →
        (∀ d', StandsFor (found info units) d' e →
          Definable info d' ∧ d'.reference? = some r) →
        (collected info units).Defines r) := by
  have hdefines : (collected info units).Defines r ↔
      ∃ d', Registers info [] (found info units) d' ∧ d'.reference? = some r := by
    rw [collected, addUnits_eq_addAll, addAll_defines]
    -- nothing resolves in the empty collection at the start
    refine or_iff_right ?_
    cases r with
    | enumeration name => simp [TypeCollection.Defines]
    | aggregate name => simp [TypeCollection.Defines]
  rw [collected, addUnits_eq_addAll] at h
  rcases addAll_mentions h with h | ⟨d, hd, e, hm, hr⟩
  · cases h with
    | subtype he => simp at he
    | field hs => simp at hs
  · refine ⟨d, e, hd, hm, hr, hdefines, fun htop hstands => hdefines.mpr ?_⟩
    obtain ⟨site, he⟩ := mem_found_of_topLevel htop
    obtain ⟨d', hd', hreg⟩ := exists_registers he fun d' hd' => (hstands d' hd').1
    exact ⟨d', hreg, (hstands d' hd').2⟩

end Collector

/-! ## Two copies of an unnamed structure -/

namespace Forest

/-- The top-level entries of the units of a forest. -/
def listings (f : Forest) : List Listing := f.units.map fun u => (u.top.map Tree.die, none)

/-- A structure without a name, declared in the one file of its unit. -/
def unnamedCopy (unit : Nat) (unitOffset offset : Int) : Die where
  unit
  unitOffset
  offset
  tag := "DW_TAG_structure_type"
  attributes := [("DW_AT_decl_file", ⟨"DW_FORM_data1", .number 1⟩),
    ("DW_AT_decl_line", ⟨"DW_FORM_data1", .number 7⟩),
    ("DW_AT_decl_column", ⟨"DW_FORM_data1", .number 9⟩),
    ("DW_AT_byte_size", ⟨"DW_FORM_data1", .number 4⟩)]

/-- A structure of the second unit, and its member of the unnamed type. -/
def holder : Tree :=
  .node ⟨1, 256, 288, "DW_TAG_structure_type",
      [("DW_AT_name", ⟨"DW_FORM_string", .text "holder"⟩)]⟩
    [.node ⟨1, 256, 304, "DW_TAG_member",
      [("DW_AT_name", ⟨"DW_FORM_string", .text "counter"⟩),
        ("DW_AT_type", ⟨"DW_FORM_ref4", .number 272⟩)]⟩ []]

/-- Two units that include one header with an unnamed structure, which the second one uses. -/
def twoCopies : Forest where
  littleEndian := true
  units :=
    let header : LineTable := ⟨4, [], [⟨.text "atomic.h", 0⟩]⟩
    [⟨some header, [.node (unnamedCopy 0 0 16) []]⟩,
      ⟨some header, [.node (unnamedCopy 1 256 272) [], holder]⟩]

def holderDef : StructDef :=
  ⟨.structType, 0, .ofList [("counter", ⟨0, .structRef "__unnamed_110"⟩)]⟩

/-- What is collected of the two units: the first copy, under its own name, and the holder. -/
def twoCopiesTypes : TypeCollection where
  structs := .ofList [("__unnamed_10", ⟨.structType, 4, .empty⟩), ("holder", holderDef)]

open Collector

theorem collected_twoCopies : collected twoCopies.info twoCopies.listings = twoCopiesTypes := by
  rfl

theorem holder_mentions : twoCopies.info.Mentions holder.die (unnamedCopy 1 256 272) := by
  refine .member (m := ⟨1, 256, 304, "DW_TAG_member",
    [("DW_AT_name", ⟨"DW_FORM_string", .text "counter"⟩),
      ("DW_AT_type", ⟨"DW_FORM_ref4", .number 272⟩)]⟩) rfl (by decide) rfl ?_
  exact ⟨rfl, unnamedCopy 1 256 272, rfl,
    .here (r := .aggregate "__unnamed_110") rfl⟩

theorem topLevel_copy :
    TopLevel twoCopies.info twoCopies.listings (unnamedCopy 1 256 272) := by
  refine ⟨rfl, twoCopies.listings.take 1,
    ([unnamedCopy 1 256 272, holder.die], none), [], rfl, by simp, rfl⟩

theorem copy_mentioned :
    (collected twoCopies.info twoCopies.listings).Mentions (.aggregate "__unnamed_110") := by
  rw [collected_twoCopies]
  have hs : ("holder", holderDef) ∈ twoCopiesTypes.structs.entries := by decide
  have hm : ("counter", ⟨0, .structRef "__unnamed_110"⟩) ∈ holderDef.fields.entries := by
    decide
  exact .field hs hm rfl

/-- No registered definition has the name that the holder refers to. -/
theorem unnamed_copy_not_registered :
    (collected twoCopies.info twoCopies.listings).Mentions (.aggregate "__unnamed_110") ∧
      ¬ ∃ d, Registers twoCopies.info [] (found twoCopies.info twoCopies.listings) d ∧
        d.reference? = some (.aggregate "__unnamed_110") := by
  obtain ⟨_, _, _, _, _, hiff, _⟩ := mention_resolves_iff _ _ _ copy_mentioned
  refine ⟨copy_mentioned, ?_⟩
  rw [← hiff, collected_twoCopies]
  decide

/-- All offsets differ and the second copy is a top-level definition, yet what refers to it
dangles. -/
theorem unnamed_copy_dangles :
    (twoCopies.entries.map fun x => x.1.offset).Nodup ∧
      (collected twoCopies.info twoCopies.listings).Mentions (.aggregate "__unnamed_110") ∧
      twoCopies.info.Mentions holder.die (unnamedCopy 1 256 272) ∧
      (unnamedCopy 1 256 272).reference? = some (.aggregate "__unnamed_110") ∧
      TopLevel twoCopies.info twoCopies.listings (unnamedCopy 1 256 272) ∧
      ¬ (collected twoCopies.info twoCopies.listings).Defines (.aggregate "__unnamed_110") := by
  refine ⟨by decide, copy_mentioned, holder_mentions, rfl, topLevel_copy, ?_⟩
  rw [collected_twoCopies]
  decide

end Forest
end KernelProfile.Dwarf
