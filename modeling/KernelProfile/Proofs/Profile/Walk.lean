import Mathlib.Logic.Relation
import KernelProfile.Proofs.Profile.FieldSearch

/-! Walks through embedded structures, which may come back to a structure as often as they like. The
search never enters a structure that is on the way already, and it ends for that reason alone: its
bound on the depth is never what stops it. It loses nothing by that, because a walk to a field can
be cut short wherever it comes back. -/
namespace KernelProfile

theorem length_unvisited_lt {α : Type} [DecidableEq α] {all visited : List α} {x : α}
    (hmem : x ∈ all) (hnew : x ∉ visited) :
    (all.filter fun y => y ∉ visited ++ [x]).length < (all.filter fun y => y ∉ visited).length := by
  have hsplit : (all.filter fun y => y ∉ visited ++ [x]) =
      (all.filter fun y => y ∉ visited).filter fun y => y ≠ x := by
    rw [List.filter_filter]
    apply List.filter_congr
    intro y _
    by_cases hy : y = x <;> simp [hy]
  rw [hsplit, List.length_filter_lt_length_iff_exists]
  exact ⟨x, by simp [hmem, hnew], by simp⟩

namespace Ty

/-- The enumeration whose size is that of the type, if it hangs on one. -/
def measuredBy? : Ty → Option String
  | .enumRef name => some name
  | .array element _ _ => element.measuredBy?
  | .bitfield underlying _ _ => underlying.measuredBy?
  | _ => none

end Ty

namespace Profile

variable {p : Profile} {field : String}

/-! ## Sizes -/

/-- What the size of a type comes to when enumerations are followed without a bound: a number, or
nothing where a definition is missing. A chain of enumerations that comes back on itself comes to
neither. -/
inductive Measures (p : Profile) : Ty → Option Int → Prop
  | base (kind : BaseKind) : Measures p (.base kind) (some kind.size)
  | structRef (name : String) :
    Measures p (.structRef name) ((p.findStruct? name).map StructDef.size)
  | missing {name : String} (hnone : p.findEnum? name = none) : Measures p (.enumRef name) none
  | enumRef {name : String} {e : EnumDef} {size : Option Int} (he : p.findEnum? name = some e)
    (h : Measures p e.subtype size) : Measures p (.enumRef name) size
  | array {element : Ty} {size : Option Int} (dims : List Int) (count : Int)
    (h : Measures p element size) : Measures p (.array element dims count) size
  | bitfield {underlying : Ty} {size : Option Int} (length position : Int)
    (h : Measures p underlying size) : Measures p (.bitfield underlying length position) size
  | pointer (target : Ty) : Measures p (.pointer target) (some p.pointerSize)
  | function : Measures p .function (some p.pointerSize)

/-- The size of one enumeration hangs on that of another one. -/
def MeasuredBy (p : Profile) (name other : String) : Prop :=
  ∃ e, p.findEnum? name = some e ∧ e.subtype.measuredBy? = some other

/-- No chain of enumerations comes back on itself. -/
def EnumsAcyclic (p : Profile) : Prop := ∀ name, ¬ Relation.TransGen p.MeasuredBy name name

theorem Measures.eq_of_sizeAfter {hops : Nat} {t : Ty} {n : Int} (h : p.SizeAfter hops t n)
    {size : Option Int} (h' : p.Measures t size) : size = some n := by
  induction h generalizing size with
  | base kind => cases h'; rfl
  | structRef hs => cases h'; simp [hs]
  | enumRef he _ ih =>
    cases h' with
    | missing hnone => simp [he] at hnone
    | enumRef he' h' =>
      rw [he] at he'
      cases he'
      exact ih h'
  | array dims count _ ih => cases h' with | array _ _ h' => exact ih h'
  | bitfield length position _ ih => cases h' with | bitfield _ _ h' => exact ih h'
  | pointer target => cases h'; rfl
  | function => cases h'; rfl

theorem exists_measures_of_measuredBy {t : Ty}
    (h : ∀ name, t.measuredBy? = some name → ∃ size, p.Measures (.enumRef name) size) :
    ∃ size, p.Measures t size := by
  induction t with
  | base kind => exact ⟨_, .base kind⟩
  | enumRef name => exact h name rfl
  | structRef name => exact ⟨_, .structRef name⟩
  | array element dims count ih =>
    obtain ⟨size, hsize⟩ := ih h
    exact ⟨size, .array dims count hsize⟩
  | pointer target => exact ⟨_, .pointer target⟩
  | bitfield underlying length position ih =>
    obtain ⟨size, hsize⟩ := ih h
    exact ⟨size, .bitfield length position hsize⟩
  | function => exact ⟨_, .function⟩

/-- The enumerations that lead to one are distinct and defined, so that there are not more of them
than definitions. -/
theorem EnumsAcyclic.exists_measures_enumRef (h : p.EnumsAcyclic) (rest : Nat) :
    ∀ (path : List String) (name : String), path.Nodup → path ⊆ p.types.enums.keys →
      (∀ other ∈ path, Relation.TransGen p.MeasuredBy other name) →
      p.types.enums.size < rest + path.length → ∃ size, p.Measures (.enumRef name) size := by
  induction rest with
  | zero =>
    intro path name hnd hsub _ hlen
    have hle : path.length ≤ p.types.enums.keys.length := hnd.length_le_of_subset hsub
    simp only [Table.keys, List.length_map] at hle
    simp only [Table.size] at hlen
    omega
  | succ rest ih =>
    intro path name hnd hsub hpath hlen
    cases he : p.findEnum? name with
    | none => exact ⟨none, .missing he⟩
    | some e =>
      have hnew : name ∉ path := fun hm => h name (hpath name hm)
      have hkey : name ∈ p.types.enums.keys := Table.mem_keys_iff.mpr ⟨e, he⟩
      obtain ⟨size, hsize⟩ : ∃ size, p.Measures e.subtype size := by
        refine exists_measures_of_measuredBy fun other hother => ?_
        have hstep : p.MeasuredBy name other := ⟨e, he, hother⟩
        refine ih (name :: path) other (List.nodup_cons.mpr ⟨hnew, hnd⟩)
          (List.cons_subset.mpr ⟨hkey, hsub⟩) ?_ (by simp only [List.length_cons]; omega)
        intro x hx
        rcases List.mem_cons.mp hx with rfl | hx
        · exact .single hstep
        · exact (hpath x hx).tail hstep
      exact ⟨size, .enumRef he hsize⟩

/-- A size that a type comes to is the one that it has. -/
theorem Measures.hasSize {t : Ty} {size : Option Int} (h : p.Measures t size) :
    ∀ n, size = some n → p.HasSize t n := by
  induction h with
  | base kind =>
    rintro n ⟨⟩
    exact ⟨0, .base kind⟩
  | structRef name =>
    intro n hn
    obtain ⟨s, hs, rfl⟩ := Option.map_eq_some_iff.mp hn
    exact ⟨0, .structRef hs⟩
  | missing hnone => nofun
  | enumRef he _ ih =>
    intro n hn
    obtain ⟨hops, hsize⟩ := ih n hn
    exact ⟨hops + 1, .enumRef he hsize⟩
  | array dims count _ ih =>
    intro n hn
    obtain ⟨hops, hsize⟩ := ih n hn
    exact ⟨hops, .array dims count hsize⟩
  | bitfield length position _ ih =>
    intro n hn
    obtain ⟨hops, hsize⟩ := ih n hn
    exact ⟨hops, .bitfield length position hsize⟩
  | pointer target =>
    rintro n ⟨⟩
    exact ⟨0, .pointer target⟩
  | function =>
    rintro n ⟨⟩
    exact ⟨0, .function⟩

theorem Measures.typeSize_eq {t : Ty} {size : Option Int} (h : p.Measures t size) :
    p.typeSize t = size := by
  cases hsize : p.typeSize t with
  | some n =>
    obtain ⟨hops, hafter⟩ := (typeSize_eq_some_iff p t n).mp hsize
    exact (h.eq_of_sizeAfter hafter).symm
  | none =>
    cases size with
    | none => rfl
    | some n =>
      rw [(typeSize_eq_some_iff p t n).mpr (h.hasSize n rfl)] at hsize
      cases hsize

/-- The bound on enumerations is never what ends the search for a size. -/
theorem EnumsAcyclic.measures_typeSize (h : p.EnumsAcyclic) (t : Ty) :
    p.Measures t (p.typeSize t) := by
  obtain ⟨size, hsize⟩ : ∃ size, p.Measures t size :=
    exists_measures_of_measuredBy fun name _ =>
      h.exists_measures_enumRef (p.types.enums.size + 1) [] name List.nodup_nil (by simp) (by simp)
        (by simp)
  rw [hsize.typeSize_eq]
  exact hsize

/-! ## The search without a bound -/

/-- The search with nothing but the path to end it: every structure that it enters is one of those
that are not on the path yet. -/
def seek (p : Profile) (field : String) (path : List String) (s : StructDef) :
    Option Descriptor :=
  match s.fields.get? field with
  | some m => p.describe m
  | none =>
    s.fields.entries.findSome? fun (_, m) =>
      match m.type with
      | .structRef name =>
        if _hnew : name ∈ path then none
        else
          match _hdef : p.findStruct? name with
          | none => none
          | some nested => (seek p field (path ++ [name]) nested).map (·.shift m.offset)
      | _ => none
termination_by (p.types.structs.keys.filter fun name => name ∉ path).length
decreasing_by exact length_unvisited_lt (Table.mem_keys_iff.mpr ⟨nested, _hdef⟩) _hnew

theorem seek_of_declared {path : List String} {s : StructDef} {m : Member}
    (hm : s.fields.get? field = some m) : p.seek field path s = p.describe m := by
  rw [seek, hm]

/-- The depth that is left makes up, with the path, for all structures; so it is never used up. -/
theorem search_eq_seek (p : Profile) (field : String) (depth : Nat) :
    ∀ (path : List String) (s : StructDef), path.Nodup → path ⊆ p.types.structs.keys →
      p.types.structs.size < depth + path.length →
      p.search field depth path s = p.seek field path s := by
  induction depth with
  | zero =>
    intro path s hnd hsub hlen
    have hle : path.length ≤ p.types.structs.keys.length := hnd.length_le_of_subset hsub
    simp only [Table.keys, List.length_map] at hle
    simp only [Table.size] at hlen
    omega
  | succ depth ih =>
    intro path s hnd hsub hlen
    cases hm : s.fields.get? field with
    | some m => rw [search_of_declared hm, seek_of_declared hm]
    | none =>
      rw [search_succ hm, seek]
      simp only [hm]
      congr 1
      funext entry
      obtain ⟨label, offset, type⟩ := entry
      cases type with
      | structRef name =>
        by_cases hnew : name ∈ path
        · simp [enter, hnew]
        · simp only [enter, hnew, if_false, dite_false]
          cases hdef : p.findStruct? name with
          | none => rfl
          | some nested =>
            have hlen' : p.types.structs.size < depth + (path ++ [name]).length := by
              simp only [List.length_append, List.length_singleton]
              omega
            simp only [ih _ nested (nodup_path_append hnd hnew) (path_append_subset hsub hdef)
              hlen']
      | _ => rfl

/-! ## Walks -/

/-- A walk from a structure to the declaration of a field, through defined structures none of which
declares the field before the last. Structures may come any number of times. -/
def Walk (p : Profile) (owner field : String) (links : List Link) (m : Member) : Prop :=
  ∃ s, p.findStruct? owner = some s ∧ p.Embeds field s links m

theorem walk_cons_iff {owner : String} {l : Link} {links : List Link} {m : Member} :
    p.Walk owner field (l :: links) m ↔
      (∃ s name, p.findStruct? owner = some s ∧ s.fields.get? field = none ∧
        s.fields.entries[l.position]? = some (name, ⟨l.offset, .structRef l.target⟩)) ∧
      p.Walk l.target field links m := by
  constructor
  · rintro ⟨s, hs, hnone, ⟨name, hentry⟩, nested, hnested, hrest⟩
    exact ⟨⟨s, name, hs, hnone, hentry⟩, nested, hnested, hrest⟩
  · rintro ⟨⟨s, name, hs, hnone, hentry⟩, nested, hnested, hrest⟩
    exact ⟨s, hs, hnone, ⟨name, hentry⟩, nested, hnested, hrest⟩

/-- A walk goes on from every structure that it comes through. -/
theorem Walk.exists_from {owner : String} {links : List Link} {m : Member}
    (h : p.Walk owner field links m) {target : String} (ht : target ∈ links.map Link.target) :
    ∃ later, p.Walk target field later m ∧
      (target :: later.map Link.target) <:+ links.map Link.target := by
  induction links generalizing owner with
  | nil => simp at ht
  | cons l links ih =>
    have hrest : p.Walk l.target field links m := (walk_cons_iff.mp h).2
    by_cases heq : target = l.target
    · subst heq
      exact ⟨links, hrest, List.suffix_rfl⟩
    · have hlater : target ∈ links.map Link.target := by simpa [heq] using ht
      obtain ⟨later, hwalk, hsuffix⟩ := ih hrest hlater
      exact ⟨later, hwalk, hsuffix.trans (List.suffix_cons _ _)⟩

/-- Where a walk comes back to a structure, the way round is left out. -/
theorem Walk.exists_nodup {owner : String} {links : List Link} {m : Member}
    (h : p.Walk owner field links m) :
    ∃ links', p.Walk owner field links' m ∧ (owner :: links'.map Link.target).Nodup := by
  induction links generalizing owner with
  | nil => exact ⟨[], h, by simp⟩
  | cons l links ih =>
    obtain ⟨hentry, hrest⟩ := walk_cons_iff.mp h
    obtain ⟨links', hwalk, hnd⟩ := ih hrest
    by_cases hback : owner ∈ (l :: links').map Link.target
    · have hfull : p.Walk owner field (l :: links') m := walk_cons_iff.mpr ⟨hentry, hwalk⟩
      obtain ⟨later, hlater, hsuffix⟩ := hfull.exists_from hback
      exact ⟨later, hlater, hnd.sublist hsuffix.sublist⟩
    · exact ⟨l :: links', walk_cons_iff.mpr ⟨hentry, hwalk⟩, List.nodup_cons.mpr ⟨hback, hnd⟩⟩

/-- There is a chain to a field exactly if there is a walk to one of a known size. -/
theorem exists_chain_iff_walk {owner : String} :
    (∃ links d, p.Chain owner field links d) ↔
      ∃ links m n, p.Walk owner field links m ∧ p.typeSize m.type = some n := by
  constructor
  · rintro ⟨links, d, s, hs, -, m, n, hemb, hsize, -⟩
    exact ⟨links, m, n, ⟨s, hs, hemb⟩, (typeSize_eq_some_iff p m.type n).mpr hsize⟩
  · rintro ⟨links, m, n, hwalk, hsize⟩
    obtain ⟨links', ⟨s, hs, hemb⟩, hnd⟩ := hwalk.exists_nodup
    have hsize' : p.HasSize m.type n := (typeSize_eq_some_iff p m.type n).mp hsize
    exact ⟨links', _, s, hs, hnd, m, n, hemb, hsize', rfl⟩

/-- **The search loses no field to its guard.** In a profile whose enumerations do not go round,
every size is what the definitions come to without a bound, and so is what the search for a field
comes to, with nothing but the path to end it. A field is found exactly if some walk leads to a
declaration of it that has a size, however often the walk comes back to a structure. -/
theorem fieldDescriptor_iff_walk (p : Profile) (h : p.EnumsAcyclic) (owner field : String) :
    (∀ t, p.Measures t (p.typeSize t)) ∧
    (∀ s, p.findStruct? owner = some s → p.fieldDescriptor owner field =
      (p.seek field [owner] s).elim (.error (.field owner field)) .ok) ∧
    ((∃ d, p.fieldDescriptor owner field = .ok d) ↔
      ∃ links m n, p.Walk owner field links m ∧ p.typeSize m.type = some n) := by
  refine ⟨h.measures_typeSize, ?_, ?_⟩
  · intro s hs
    have hsub : [owner] ⊆ p.types.structs.keys := by
      intro x hx
      rw [List.mem_singleton] at hx
      subst hx
      exact Table.mem_keys_iff.mpr ⟨s, hs⟩
    have hseek := search_eq_seek p field p.types.structs.size [owner] s (by simp) hsub (by simp)
    simp only [fieldDescriptor, hs, hseek]
    cases p.seek field [owner] s <;> rfl
  · rw [← exists_chain_iff_walk]
    rcases fieldDescriptor_cases p owner field with
      ⟨hs, hans⟩ | ⟨-, hans, hno⟩ | ⟨-, d, hans, hfirst⟩
    · rw [hans]
      constructor
      · rintro ⟨d, hd⟩
        cases hd
      · rintro ⟨links, d, s, hs', -⟩
        rw [hs] at hs'
        cases hs'
    · rw [hans]
      constructor
      · rintro ⟨d, hd⟩
        cases hd
      · rintro ⟨links, d, hc⟩
        exact absurd hc (hno links d)
    · exact ⟨fun _ => hfirst.exists_chain, fun _ => ⟨d, hans⟩⟩

/-- Two structures that embed each other, one of which also embeds itself and a third one. -/
def ringProfile : Profile where
  architecture := .amd64
  types :=
    { enums := .ofList [("_MODE", ⟨.base .u32, .empty⟩)]
      structs := .ofList [
        ("_RING", ⟨.structType, 24, .ofList [("Node", ⟨0, .structRef "_NODE"⟩)]⟩),
        ("_NODE", ⟨.structType, 16, .ofList [("Ring", ⟨0, .structRef "_RING"⟩),
          ("Self", ⟨0, .structRef "_NODE"⟩), ("Leaf", ⟨8, .structRef "_LEAF"⟩)]⟩),
        ("_LEAF", ⟨.structType, 8, .ofList [("Mode", ⟨4, .enumRef "_MODE"⟩)]⟩)] }

theorem enumsAcyclic_ringProfile : ringProfile.EnumsAcyclic := by
  intro name h
  obtain ⟨other, ⟨e, he, hother⟩, -⟩ := Relation.TransGen.head'_iff.mp h
  -- the only enumeration is over a number
  have hmem : (name, e) ∈ [("_MODE", (⟨.base .u32, .empty⟩ : EnumDef))] :=
    Table.get?_eq_some_iff.mp he
  rw [List.mem_singleton] at hmem
  cases hmem
  cases hother

/-- Twice round the ring, once into the node itself and on to the leaf. -/
theorem ringProfile_walk :
    ringProfile.EnumsAcyclic ∧
      ringProfile.Walk "_RING" "Mode" [⟨0, 0, "_NODE"⟩, ⟨0, 0, "_RING"⟩, ⟨0, 0, "_NODE"⟩,
        ⟨1, 0, "_NODE"⟩, ⟨2, 8, "_LEAF"⟩] ⟨4, .enumRef "_MODE"⟩ ∧
      ∃ d, ringProfile.fieldDescriptor "_RING" "Mode" = .ok d := by
  have hwalk : ringProfile.Walk "_RING" "Mode" [⟨0, 0, "_NODE"⟩, ⟨0, 0, "_RING"⟩, ⟨0, 0, "_NODE"⟩,
      ⟨1, 0, "_NODE"⟩, ⟨2, 8, "_LEAF"⟩] ⟨4, .enumRef "_MODE"⟩ :=
    ⟨_, rfl, rfl, ⟨_, rfl⟩, _, rfl, rfl, ⟨_, rfl⟩, _, rfl, rfl, ⟨_, rfl⟩, _, rfl,
      rfl, ⟨_, rfl⟩, _, rfl, rfl, ⟨_, rfl⟩, _, rfl, rfl⟩
  have hsize : ringProfile.typeSize (.enumRef "_MODE") = some 4 :=
    (typeSize_eq_some_iff _ _ _).mpr ⟨1, .enumRef rfl (.base .u32)⟩
  exact ⟨enumsAcyclic_ringProfile, hwalk,
    (fieldDescriptor_iff_walk ringProfile enumsAcyclic_ringProfile "_RING" "Mode").2.2.mpr
      ⟨_, _, 4, hwalk, hsize⟩⟩

end Profile
end KernelProfile
