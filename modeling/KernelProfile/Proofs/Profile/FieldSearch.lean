import Mathlib.Algebra.Ring.Int.Defs
import KernelProfile.Proofs.Profile.Size

/-! The search for a field against the chains of embedded structures that lead to it. A chain is
explicit: the positions of the embedding fields, with their offsets and the structures they hold.
The search finds the first chain in declaration order, and finds one whenever there is one. -/
namespace KernelProfile

/-- The place of a declared field, seen from a base in front of its own structure. -/
def Member.placed (m : Member) (base size : Int) : Descriptor :=
  match m.type with
  | .bitfield _ length position => .bits ⟨base + m.offset, size, position, length⟩
  | _ => .plain ⟨base + m.offset, size⟩

theorem Member.placed_shift (m : Member) (base size by' : Int) :
    (m.placed base size).shift by' = m.placed (by' + base) size := by
  have hsum : base + m.offset + by' = by' + base + m.offset := by omega
  unfold Member.placed
  split <;> simp only [Descriptor.shift, hsum]

namespace Profile

variable {p : Profile} {field : String}

theorem describe_eq (p : Profile) (m : Member) :
    p.describe m = (p.typeSize m.type).map (m.placed 0) := by
  obtain ⟨offset, t⟩ := m
  cases hsize : p.typeSize t with
  | none => cases t <;> simp [describe, hsize]
  | some n => cases t <;> simp [describe, hsize, Member.placed]

theorem describe_eq_some_iff {m : Member} {d : Descriptor} :
    p.describe m = some d ↔ ∃ n, p.HasSize m.type n ∧ d = m.placed 0 n := by
  simp only [describe_eq, Option.map_eq_some_iff, typeSize_eq_some_iff, eq_comm (a := d)]

/-! ## Chains -/

/-- One field that embeds a structure: its position among the fields around it, its offset, and
the structure it is of. -/
structure Link where
  position : Nat
  offset : Int
  target : String
  deriving DecidableEq, Repr

/-- The links lead from a structure to the declaration of a field. No structure before the last
declares the field itself, and every structure that a link enters is defined. -/
def Embeds (p : Profile) (field : String) : StructDef → List Link → Member → Prop
  | s, [], m => s.fields.get? field = some m
  | s, l :: links, m =>
    s.fields.get? field = none ∧
    (∃ name, s.fields.entries[l.position]? = some (name, ⟨l.offset, .structRef l.target⟩)) ∧
    ∃ nested, p.findStruct? l.target = some nested ∧ p.Embeds field nested links m

/-- A chain that goes on from a structure at the end of a path, with the place it gives the field:
no structure comes twice, the declaration at the end has a known size, and its place is moved by
the offsets of the embedding fields. -/
structure Continues (p : Profile) (field : String) (path : List String) (s : StructDef)
    (links : List Link) (d : Descriptor) : Prop where
  distinct : (path ++ links.map Link.target).Nodup
  declared : ∃ m n, p.Embeds field s links m ∧ p.HasSize m.type n ∧
    d = m.placed (links.map Link.offset).sum n

/-- An embedding chain from a structure to a field. -/
def Chain (p : Profile) (owner field : String) (links : List Link) (d : Descriptor) : Prop :=
  ∃ s, p.findStruct? owner = some s ∧ p.Continues field [owner] s links d

/-- The field positions that a chain takes. -/
def positions (links : List Link) : List Nat := links.map Link.position

/-- Sequences of positions in lexicographic order: the same, or one before the other. -/
def NoLater (xs ys : List Nat) : Prop := xs = ys ∨ List.Lex (· < ·) xs ys

theorem NoLater.cons_of_lt {x y : Nat} (h : x < y) (xs ys : List Nat) :
    NoLater (x :: xs) (y :: ys) := .inr (.rel h)

theorem NoLater.cons (x : Nat) {xs ys : List Nat} (h : NoLater xs ys) :
    NoLater (x :: xs) (x :: ys) := by
  rcases h with rfl | h
  · exact .inl rfl
  · exact .inr (.cons h)

theorem NoLater.antisymm {xs ys : List Nat} (h : NoLater xs ys) (h' : NoLater ys xs) :
    xs = ys := by
  rcases h with heq | hlex
  · exact heq
  rcases h' with heq | hlex'
  · exact heq.symm
  -- two sequences cannot come before each other
  exfalso
  induction hlex with
  | nil => cases hlex'
  | rel hlt =>
    cases hlex' with
    | rel hgt => omega
    | cons _ => omega
  | cons _ ih =>
    cases hlex' with
    | rel hlt => omega
    | cons hlex' => exact ih hlex'

/-- Where a structure declares the field itself, the only chain is the empty one. -/
theorem continues_declared_iff {path : List String} {s : StructDef} {m : Member}
    (hm : s.fields.get? field = some m) (hpath : path.Nodup) {links : List Link}
    {d : Descriptor} :
    p.Continues field path s links d ↔ links = [] ∧ p.describe m = some d := by
  rw [describe_eq_some_iff]
  constructor
  · rintro ⟨-, m', n, hemb, hsize, hd⟩
    cases links with
    | nil =>
      have heq : m = m' := Option.some.inj (hm.symm.trans hemb)
      subst heq
      exact ⟨rfl, n, hsize, hd⟩
    | cons l links => exact absurd (hm.symm.trans hemb.1) (by simp)
  · rintro ⟨rfl, n, hsize, hd⟩
    exact ⟨by simpa using hpath, m, n, hm, hsize, hd⟩

/-- Where it does not, a chain is one link followed by a chain of the structure it enters. -/
theorem continues_cons_iff {path : List String} {s : StructDef} {l : Link} {links : List Link}
    {d : Descriptor} (hnone : s.fields.get? field = none) :
    p.Continues field path s (l :: links) d ↔
      (∃ name, s.fields.entries[l.position]? = some (name, ⟨l.offset, .structRef l.target⟩)) ∧
      l.target ∉ path ∧
      ∃ nested d', p.findStruct? l.target = some nested ∧
        p.Continues field (path ++ [l.target]) nested links d' ∧ d = d'.shift l.offset := by
  have hpath : path ++ (l :: links).map Link.target
      = path ++ [l.target] ++ links.map Link.target := by simp
  constructor
  · rintro ⟨hd, m, n, ⟨-, hentry, nested, hnested, hemb⟩, hsize, rfl⟩
    rw [hpath] at hd
    have hnew : l.target ∉ path := by
      intro hmem
      have hpre : (path ++ [l.target]).Nodup := (List.nodup_append.mp hd).1
      exact (List.nodup_append.mp hpre).2.2 _ hmem _ List.mem_cons_self rfl
    refine ⟨hentry, hnew, nested, m.placed (links.map Link.offset).sum n, hnested,
      ⟨hd, m, n, hemb, hsize, rfl⟩, ?_⟩
    rw [Member.placed_shift, List.map_cons, List.sum_cons]
  · rintro ⟨hentry, -, nested, d', hnested, ⟨hd, m, n, hemb, hsize, rfl⟩, rfl⟩
    refine ⟨hpath ▸ hd, m, n, ⟨hnone, hentry, nested, hnested, hemb⟩, hsize, ?_⟩
    rw [Member.placed_shift, List.map_cons, List.sum_cons]

theorem not_continues_nil {path : List String} {s : StructDef} {d : Descriptor}
    (hnone : s.fields.get? field = none) : ¬ p.Continues field path s [] d := by
  rintro ⟨-, m, n, hemb, -, -⟩
  exact absurd (hnone.symm.trans hemb) (by simp)

/-- The positions of a chain decide its links and its place. -/
theorem Continues.eq_of_positions {path : List String} {s : StructDef} {ls ls' : List Link}
    {d d' : Descriptor} (h : p.Continues field path s ls d)
    (h' : p.Continues field path s ls' d') (hpos : positions ls = positions ls') :
    d = d' := by
  -- equal positions in one structure are the same field, so that both chains enter the same one
  induction ls generalizing path s ls' d d' with
  | nil =>
    have hnil : ls' = [] := by simpa [positions] using hpos.symm
    subst hnil
    obtain ⟨hd, m, n, hemb, -, -⟩ := id h
    have hm : s.fields.get? field = some m := hemb
    have hpath : path.Nodup := by simpa using hd
    have hdesc := ((continues_declared_iff hm hpath).mp h).2
    have hdesc' := ((continues_declared_iff hm hpath).mp h').2
    exact Option.some.inj (hdesc.symm.trans hdesc')
  | cons l ls ih =>
    cases ls' with
    | nil => simp [positions] at hpos
    | cons l' ls' =>
      simp only [positions, List.map_cons, List.cons.injEq] at hpos
      obtain ⟨-, m, n, ⟨hnone, -⟩, -⟩ := id h
      obtain ⟨⟨name, hentry⟩, -, nested, e, hnested, hrest, rfl⟩ :=
        (continues_cons_iff hnone).mp h
      obtain ⟨⟨name', hentry'⟩, -, nested', e', hnested', hrest', rfl⟩ :=
        (continues_cons_iff hnone).mp h'
      rw [hpos.1, hentry'] at hentry
      simp only [Option.some.injEq, Prod.mk.injEq, Member.mk.injEq, Ty.structRef.injEq] at hentry
      obtain ⟨-, hoffset, htarget⟩ := hentry
      rw [htarget] at hnested' hrest'
      have hsame : nested = nested' := Option.some.inj (hnested.symm.trans hnested')
      subst hsame
      rw [ih hrest hrest' hpos.2, hoffset]

/-! ## The search -/

/-- What the search answers at the end of a path: the place of a chain that no other chain comes
before, or nothing where there is no chain. -/
def Answers (p : Profile) (field : String) (path : List String) (s : StructDef) :
    Option Descriptor → Prop
  | some d => ∃ links, p.Continues field path s links d ∧
      ∀ links' d', p.Continues field path s links' d' → NoLater (positions links) (positions links')
  | none => ∀ links d, ¬ p.Continues field path s links d

/-- The search through one field of a structure that does not declare the name itself. -/
def enter (p : Profile) (field : String) (depth : Nat) (path : List String)
    (e : String × Member) : Option Descriptor :=
  match e.2.type with
  | .structRef name =>
    if name ∈ path then none
    else
      match p.findStruct? name with
      | none => none
      | some nested =>
        (p.search field depth (path ++ [name]) nested).map (·.shift e.2.offset)
  | _ => none

theorem search_of_declared {depth : Nat} {path : List String} {s : StructDef} {m : Member}
    (hm : s.fields.get? field = some m) : p.search field depth path s = p.describe m := by
  unfold search
  simp only [hm]

theorem search_succ {depth : Nat} {path : List String} {s : StructDef}
    (hnone : s.fields.get? field = none) :
    p.search field (depth + 1) path s = s.fields.entries.findSome? (p.enter field depth path) := by
  rw [search]
  simp only [hnone]
  rfl

/-- A field is entered when it is of a defined structure that is not on the path yet. -/
theorem enter_eq_some_iff {depth : Nat} {path : List String} {e : String × Member}
    {d : Descriptor} :
    p.enter field depth path e = some d ↔ ∃ target nested d', e.2.type = .structRef target ∧
      target ∉ path ∧ p.findStruct? target = some nested ∧
      p.search field depth (path ++ [target]) nested = some d' ∧ d = d'.shift e.2.offset := by
  unfold enter
  constructor
  · intro h
    split at h
    · rename_i name htype
      split at h
      · cases h
      · rename_i hnew
        split at h
        · cases h
        · rename_i nested hnested
          obtain ⟨d', hd', rfl⟩ := Option.map_eq_some_iff.mp h
          exact ⟨name, nested, d', htype, hnew, hnested, hd', rfl⟩
    · cases h
  · rintro ⟨target, nested, d', htype, hnew, hnested, hsearch, rfl⟩
    simp only [htype, hnew, if_false, hnested, hsearch, Option.map_some]

/-- The first chain through a list of fields, when each field is searched rightly. -/
theorem answers_findSome? {depth : Nat} {path : List String} {s : StructDef}
    (hnone : s.fields.get? field = none)
    (ih : ∀ target nested, target ∉ path → p.findStruct? target = some nested →
      p.Answers field (path ++ [target]) nested
        (p.search field depth (path ++ [target]) nested)) :
    p.Answers field path s (s.fields.entries.findSome? (p.enter field depth path)) := by
  -- a chain through a field makes that field succeed
  have hsome : ∀ l links d e, s.fields.entries[l.position]? = some e →
      p.Continues field path s (l :: links) d → (p.enter field depth path e).isSome := by
    intro l links d e hpos hc
    obtain ⟨⟨name, hentry⟩, hnew, nested, d', hnested, hrest, -⟩ :=
      (continues_cons_iff hnone).mp hc
    have he : e = (name, ⟨l.offset, .structRef l.target⟩) :=
      Option.some.inj (hpos.symm.trans hentry)
    have hans := ih l.target nested hnew hnested
    cases hsearch : p.search field depth (path ++ [l.target]) nested with
    | none =>
      rw [hsearch] at hans
      exact absurd hrest (hans links d')
    | some found =>
      rw [Option.isSome_iff_exists]
      exact ⟨found.shift l.offset, enter_eq_some_iff.mpr
        ⟨l.target, nested, found, by rw [he], hnew, hnested, hsearch, by rw [he]⟩⟩
  cases hfind : s.fields.entries.findSome? (p.enter field depth path) with
  | none =>
    intro links d hc
    cases links with
    | nil => exact not_continues_nil hnone hc
    | cons l links =>
      obtain ⟨⟨name, hentry⟩, -⟩ := (continues_cons_iff hnone).mp hc
      have hfail := List.findSome?_eq_none_iff.mp hfind _ (List.mem_of_getElem? hentry)
      have hok := hsome l links d _ hentry hc
      rw [hfail] at hok
      cases hok
  | some d =>
    obtain ⟨before, e, after, hsplit, hd, hbefore⟩ := List.findSome?_eq_some_iff.mp hfind
    obtain ⟨target, nested, found, htype, hnew, hnested, hsearch, rfl⟩ :=
      enter_eq_some_iff.mp hd
    have hpos : s.fields.entries[before.length]? = some e := by simp [hsplit]
    have hans := ih target nested hnew hnested
    rw [hsearch] at hans
    obtain ⟨links, hrest, hfirst⟩ := hans
    refine ⟨⟨before.length, e.2.offset, target⟩ :: links, ?_, ?_⟩
    · rw [continues_cons_iff hnone]
      refine ⟨⟨e.1, ?_⟩, hnew, nested, found, hnested, hrest, rfl⟩
      rw [hpos, ← htype]
    · intro links' d' hc
      cases links' with
      | nil => exact absurd hc (not_continues_nil hnone)
      | cons l links' =>
        obtain ⟨⟨name, hentry⟩, -, nested', found', hnested', hrest', -⟩ :=
          (continues_cons_iff hnone).mp hc
        simp only [positions, List.map_cons]
        rcases Nat.lt_trichotomy l.position before.length with hlt | heq | hgt
        · -- an earlier field failed, so no chain goes through it
          have hmem : (name, (⟨l.offset, .structRef l.target⟩ : Member)) ∈ before := by
            rw [hsplit, List.getElem?_append_left hlt] at hentry
            exact List.mem_of_getElem? hentry
          have hok := hsome l links' d' _ hentry hc
          rw [hbefore _ hmem] at hok
          cases hok
        · -- the same field: the nested search has found the first chain below it
          rw [heq, hpos] at hentry
          have he : e = (name, ⟨l.offset, .structRef l.target⟩) := Option.some.inj hentry
          have htarget : target = l.target := by
            rw [he] at htype
            exact (Ty.structRef.inj htype).symm
          subst htarget
          have hsame : nested = nested' := Option.some.inj (hnested.symm.trans hnested')
          subst hsame
          rw [heq]
          exact (hfirst links' found' hrest').cons before.length
        · -- a later field loses at its first position
          exact .cons_of_lt hgt _ _

theorem nodup_path_append {path : List String} {target : String} (hnd : path.Nodup)
    (hnew : target ∉ path) : (path ++ [target]).Nodup := by
  rw [List.nodup_append]
  refine ⟨hnd, by simp, ?_⟩
  rintro a ha b hb rfl
  rw [List.mem_singleton] at hb
  exact hnew (hb ▸ ha)

theorem path_append_subset {path : List String} {target : String} {nested : StructDef}
    (hsub : path ⊆ p.types.structs.keys) (hnested : p.findStruct? target = some nested) :
    path ++ [target] ⊆ p.types.structs.keys := by
  intro x hx
  rcases List.mem_append.mp hx with hx | hx
  · exact hsub hx
  · rw [List.mem_singleton] at hx
    subst hx
    exact Table.mem_keys_iff.mpr ⟨nested, hnested⟩

/-- The search is right at every path of distinct structures whose length makes up, with the depth
that is left, for all of them. -/
theorem search_answers (p : Profile) (field : String) (depth : Nat) :
    ∀ (path : List String) (s : StructDef), path.Nodup → path ⊆ p.types.structs.keys →
      p.types.structs.size < depth + path.length →
      p.Answers field path s (p.search field depth path s) := by
  induction depth with
  | zero =>
    intro path s hnd hsub hlen
    -- the path cannot be longer than the table
    have hle : path.length ≤ p.types.structs.keys.length := hnd.length_le_of_subset hsub
    simp only [Table.keys, List.length_map] at hle
    simp only [Table.size] at hlen
    omega
  | succ depth ih =>
    intro path s hnd hsub hlen
    cases hm : s.fields.get? field with
    | some m =>
      rw [search_of_declared hm]
      cases hd : p.describe m with
      | none =>
        -- a declaration without a size hides the fields below it all the same
        intro links d hc
        have hdesc := ((continues_declared_iff hm hnd).mp hc).2
        rw [hd] at hdesc
        cases hdesc
      | some d =>
        refine ⟨[], (continues_declared_iff hm hnd).mpr ⟨rfl, hd⟩, ?_⟩
        intro links' d' hc
        rw [((continues_declared_iff hm hnd).mp hc).1]
        exact .inl rfl
    | none =>
      rw [search_succ hm]
      apply answers_findSome? hm
      intro target nested hnew hnested
      refine ih _ _ (nodup_path_append hnd hnew) (path_append_subset hsub hnested) ?_
      simp only [List.length_append, List.length_singleton]
      omega

/-- The place of a field by a chain that no other chain comes before in declaration order. -/
def FirstPlace (p : Profile) (owner field : String) (d : Descriptor) : Prop :=
  ∃ links, p.Chain owner field links d ∧
    ∀ links' d', p.Chain owner field links' d' → NoLater (positions links) (positions links')

theorem FirstPlace.exists_chain {owner : String} {d : Descriptor}
    (h : p.FirstPlace owner field d) : ∃ links d, p.Chain owner field links d := by
  obtain ⟨links, hc, -⟩ := h
  exact ⟨links, d, hc⟩

theorem FirstPlace.unique {owner : String} {d d' : Descriptor}
    (h : p.FirstPlace owner field d) (h' : p.FirstPlace owner field d') : d = d' := by
  obtain ⟨links, ⟨s, hs, hc⟩, hfirst⟩ := h
  obtain ⟨links', ⟨s', hs', hc'⟩, hfirst'⟩ := h'
  have hpos : positions links = positions links' :=
    (hfirst links' d' ⟨s', hs', hc'⟩).antisymm (hfirst' links d ⟨s, hs, hc⟩)
  have hsame : s = s' := Option.some.inj (hs.symm.trans hs')
  subst hsame
  exact hc.eq_of_positions hc' hpos

/-- The three things that the question for a field can come to. -/
theorem fieldDescriptor_cases (p : Profile) (owner field : String) :
    (p.findStruct? owner = none ∧ p.fieldDescriptor owner field = .error (.type owner)) ∨
    ((p.findStruct? owner).isSome ∧ p.fieldDescriptor owner field = .error (.field owner field) ∧
      ∀ links d, ¬ p.Chain owner field links d) ∨
    ((p.findStruct? owner).isSome ∧ ∃ d, p.fieldDescriptor owner field = .ok d ∧
      p.FirstPlace owner field d) := by
  cases hs : p.findStruct? owner with
  | none => exact .inl ⟨rfl, by simp only [fieldDescriptor, hs]⟩
  | some s =>
    have hchain : ∀ {links d}, p.Chain owner field links d →
        p.Continues field [owner] s links d := by
      rintro links d ⟨s', hs', hc⟩
      rwa [Option.some.inj (hs.symm.trans hs')]
    have hsub : [owner] ⊆ p.types.structs.keys := by
      intro x hx
      rw [List.mem_singleton] at hx
      subst hx
      exact Table.mem_keys_iff.mpr ⟨s, hs⟩
    have hans := search_answers p field p.types.structs.size [owner] s (by simp) hsub (by simp)
    right
    cases hsearch : p.search field p.types.structs.size [owner] s with
    | none =>
      rw [hsearch] at hans
      refine .inl ⟨rfl, by simp only [fieldDescriptor, hs, hsearch], ?_⟩
      intro links d hc
      exact hans links d (hchain hc)
    | some d =>
      rw [hsearch] at hans
      obtain ⟨links, hc, hfirst⟩ := hans
      refine .inr ⟨rfl, d, by simp only [fieldDescriptor, hs, hsearch], links, ⟨s, hs, hc⟩, ?_⟩
      intro links' d' hc'
      exact hfirst links' d' (hchain hc')

/-- **Field lookup is the first embedding chain.** A place is answered exactly when it is that of
the first chain, and one is answered whenever there is a chain; a field is reported missing
exactly when its owner is defined and no chain leads to it, and the owner exactly when it is not
defined. There is no other answer. -/
theorem fieldDescriptor_first_chain (p : Profile) (owner field : String) :
    (∀ d, p.fieldDescriptor owner field = .ok d ↔ p.FirstPlace owner field d) ∧
    ((∃ d, p.fieldDescriptor owner field = .ok d) ↔ ∃ links d, p.Chain owner field links d) ∧
    (p.fieldDescriptor owner field = .error (.field owner field) ↔
      (p.findStruct? owner).isSome ∧ ¬ ∃ links d, p.Chain owner field links d) ∧
    (p.fieldDescriptor owner field = .error (.type owner) ↔ p.findStruct? owner = none) ∧
    ((∃ d, p.fieldDescriptor owner field = .ok d) ∨
      p.fieldDescriptor owner field = .error (.field owner field) ∨
      p.fieldDescriptor owner field = .error (.type owner)) := by
  rcases fieldDescriptor_cases p owner field with
    ⟨hs, hans⟩ | ⟨hs, hans, hno⟩ | ⟨hs, d, hans, hfirst⟩
  · have hno : ¬ ∃ links d, p.Chain owner field links d := by
      rintro ⟨links, d, s, hs', -⟩
      rw [hs] at hs'
      cases hs'
    have hnofirst : ∀ d, ¬ p.FirstPlace owner field d := fun d h => hno h.exists_chain
    simp [hans, hs, hno, hnofirst]
  · have hno' : ¬ ∃ links d, p.Chain owner field links d := by
      rintro ⟨links, d, hc⟩
      exact hno links d hc
    have hnofirst : ∀ d, ¬ p.FirstPlace owner field d := fun d h => hno' h.exists_chain
    have hdef : p.findStruct? owner ≠ none := Option.isSome_iff_ne_none.mp hs
    simp [hans, hs, hno', hnofirst, hdef]
  · have hex : ∃ links d, p.Chain owner field links d := hfirst.exists_chain
    have hdef : p.findStruct? owner ≠ none := Option.isSome_iff_ne_none.mp hs
    refine ⟨?_, ⟨fun _ => hex, fun _ => ⟨d, hans⟩⟩, ?_, ?_, .inl ⟨d, hans⟩⟩
    · intro d'
      rw [hans]
      constructor
      · intro h
        cases h
        exact hfirst
      · intro h
        rw [hfirst.unique h]
    · rw [hans]
      exact ⟨(by intro h; cases h), fun h => absurd hex h.2⟩
    · rw [hans]
      exact ⟨(by intro h; cases h), fun h => absurd h hdef⟩

end Profile
end KernelProfile
