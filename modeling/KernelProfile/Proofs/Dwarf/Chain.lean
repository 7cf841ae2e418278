import KernelProfile.Dwarf.Forest
import KernelProfile.Proofs.Dwarf.Translate

/-! Chains of type attributes. An entry refers to at most one other, so that the entries from one on
form a chain, which may be cyclic. Following it over a bounded number of links ends on every chain
and nests no deeper than the bound; on a chain that is no longer than the bound it gives what the
entries say without one. Typedefs and qualifiers leave no trace in that, so that two graphs which
are the same but for them have the same types. -/
namespace KernelProfile.Dwarf

/-- What the tag of an entry makes of its type. -/
inductive TypeShape where
  | base
  | enumeration
  | aggregate
  | array
  | pointer
  | function
  | wrapper
  | other
  deriving DecidableEq, Repr

/-- The type goes on in the entry that the type attribute refers to. -/
def TypeShape.isLink : TypeShape → Bool
  | array | pointer | wrapper => true
  | _ => false

namespace Die

def shape (d : Die) : TypeShape :=
  if d.tag = "DW_TAG_base_type" then .base
  else if d.tag = enumTag then .enumeration
  else if isAggregateTag d.tag then .aggregate
  else if d.tag = "DW_TAG_array_type" then .array
  else if isPointerTag d.tag then .pointer
  else if d.tag = "DW_TAG_subroutine_type" then .function
  else if isTransparentTag d.tag then .wrapper
  else .other

end Die

namespace DebugInfo

variable {info info' : DebugInfo} {d d' : Die} {x x' : Option Die} {T : Ty} {limit links : Nat}

/-- What the type attribute of an entry refers to: an entry, or nothing where there is none. -/
inductive Names (info : DebugInfo) (d : Die) : Option Die → Prop
  | absent (ha : d.has "DW_AT_type" = false) : Names info d none
  | entry {t : Die} (ha : d.has "DW_AT_type" = true) (ht : info.target d = .ok t) :
    Names info d (some t)

/-- The extents that an array has, one for each subrange below its entry. -/
def Extents (info : DebugInfo) (d : Die) (dims : List Int) : Prop :=
  ∃ below, info.children d = (below, none) ∧
    dims = (below.filter fun c => c.tag = "DW_TAG_subrange_type").map Die.extent

/-- The type that entries say, with nothing to cut the chain off. Typedefs and qualifiers are
erased, and where nothing is referred to the type is `void`. -/
inductive TypeIs (info : DebugInfo) : Option Die → Ty → Prop
  | absent : TypeIs info none .void
  | base {d : Die} (hd : d.shape = .base) : TypeIs info (some d) (.base d.baseKind)
  | enumeration {d : Die} (hd : d.shape = .enumeration) :
    TypeIs info (some d) (.enumRef d.typeName)
  | aggregate {d : Die} (hd : d.shape = .aggregate) : TypeIs info (some d) (.structRef d.typeName)
  | array {d : Die} {x : Option Die} {T : Ty} {dims : List Int} (hd : d.shape = .array)
    (hdims : info.Extents d dims) (hn : info.Names d x) (h : TypeIs info x T) :
    TypeIs info (some d) (.array T dims (dims.headD 0))
  | pointer {d : Die} {x : Option Die} {T : Ty} (hd : d.shape = .pointer) (hn : info.Names d x)
    (h : TypeIs info x T) : TypeIs info (some d) (.pointer T)
  | function {d : Die} (hd : d.shape = .function) : TypeIs info (some d) .function
  | wrapper {d : Die} {x : Option Die} {T : Ty} (hd : d.shape = .wrapper) (hn : info.Names d x)
    (h : TypeIs info x T) : TypeIs info (some d) T
  | other {d : Die} (hd : d.shape = .other) : TypeIs info (some d) .void

/-- So many links lead from one entry to another, each of them one that a type goes on over. -/
inductive Linked (info : DebugInfo) : Nat → Die → Die → Prop
  | refl (d : Die) : Linked info 0 d d
  | step {n : Nat} {d t e : Die} (hd : d.shape.isLink = true) (hn : info.Names d (some t))
    (h : Linked info n t e) : Linked info (n + 1) d e

/-- Every chain from an entry, if there is one, has at most so many links. -/
def ChainsWithin (info : DebugInfo) (limit : Nat) (x : Option Die) : Prop :=
  ∀ d, x = some d → ∀ n e, info.Linked n d e → n ≤ limit

theorem ChainsWithin.next {t : Die} (h : info.ChainsWithin limit (some d))
    (hd : d.shape.isLink = true) (hn : info.Names d (some t)) :
    ∃ rest, limit = rest + 1 ∧ info.ChainsWithin rest (some t) := by
  have hpos : 1 ≤ limit := h d rfl 1 t (.step hd hn (.refl t))
  refine ⟨limit - 1, by omega, fun u hu n e hlinked => ?_⟩
  cases hu
  have hle : n + 1 ≤ limit := h d rfl (n + 1) e (.step hd hn hlinked)
  omega

/-! ## Types within the bound -/

/-- The type of what is referred to, if anything is. -/
def namedWithin (info : DebugInfo) (links : Nat) : Option Die → Except ReadError Ty
  | none => .ok .void
  | some d => info.typeWithin links d

theorem Names.under_eq (hn : info.Names d x) (links : Nat) :
    info.under links d = info.namedWithin links x := by
  cases hn with
  | absent ha => simp [under, namedWithin, ha]
  | entry ha ht => simp [under, namedWithin, ha, ht]

/-- The step lemma: what the shape of an entry makes of the type that it refers to. -/
theorem typeWithin_shape (links : Nat) (d : Die) : info.typeWithin (links + 1) d =
    match d.shape with
    | .base => .ok (.base d.baseKind)
    | .enumeration => .ok (.enumRef d.typeName)
    | .aggregate => .ok (.structRef d.typeName)
    | .array => do
      let element ← info.under links d
      let below ← whole (info.children d)
      let dims := (below.filter fun c => c.tag = "DW_TAG_subrange_type").map Die.extent
      return .array element dims (dims.headD 0)
    | .pointer => (info.under links d).map .pointer
    | .function => .ok .function
    | .wrapper => info.under links d
    | .other => .ok .void := by
  rw [typeWithin_succ, Die.shape]
  split
  · rfl
  split
  · rfl
  split
  · rfl
  split
  · cases info.under links d with
    | error e => rfl
    | ok element => cases whole (info.children d) <;> rfl
  split
  · rfl
  split
  · rfl
  split
  · rfl
  · rfl

/-- What an entry refers to is followed within the links that are left. -/
theorem ChainsWithin.under_eq (h : info.ChainsWithin links (some d)) (hd : d.shape.isLink = true)
    (hn : info.Names d x)
    (hrest : ∀ rest, info.ChainsWithin rest x → info.namedWithin (rest + 1) x = .ok T) :
    info.under links d = .ok T := by
  rw [hn.under_eq]
  cases x with
  | none => exact hrest 0 nofun
  | some t =>
    obtain ⟨rest, rfl, hshort⟩ := h.next hd hn
    exact hrest rest hshort

/-- Over more links than the chain has, a type is what the entries say. -/
theorem TypeIs.namedWithin_eq (h : info.TypeIs x T) (hshort : info.ChainsWithin links x) :
    info.namedWithin (links + 1) x = .ok T := by
  induction h generalizing links with
  | absent => rfl
  | base hd | enumeration hd | aggregate hd | function hd | other hd =>
    rw [namedWithin, typeWithin_shape, hd]
  | array hd hdims hn _ ih =>
    obtain ⟨below, hbelow, rfl⟩ := hdims
    have hunder := hshort.under_eq (by rw [hd]; rfl) hn fun rest => ih
    rw [namedWithin, typeWithin_shape, hd]
    simp only [hunder, hbelow]
    rfl
  | pointer hd hn _ ih =>
    have hunder := hshort.under_eq (by rw [hd]; rfl) hn fun rest => ih
    rw [namedWithin, typeWithin_shape, hd]
    simp only [hunder]
    rfl
  | wrapper hd hn _ ih =>
    rw [namedWithin, typeWithin_shape, hd]
    exact hshort.under_eq (by rw [hd]; rfl) hn fun rest => ih

/-! ## Chains that end -/

section Graph

variable {G : Die → Prop}

theorem ReadableIn.exists_names (h : info.ReadableIn G) (hd : G d) :
    ∃ x, info.Names d x ∧ ∀ t, x = some t → G t := by
  cases ha : d.has "DW_AT_type" with
  | false => exact ⟨none, .absent ha, nofun⟩
  | true =>
    obtain ⟨t, ht, hin⟩ := h.target d hd ha
    exact ⟨some t, .entry ha ht, fun _ hx => Option.some.inj hx ▸ hin⟩

/-- A chain that ends has a type at its start. -/
theorem ChainsWithin.exists_typeIs (h : info.ChainsWithin limit (some d)) (hG : info.ReadableIn G)
    (hd : G d) : ∃ T, info.TypeIs (some d) T := by
  induction limit using Nat.strongRecOn generalizing d with
  | ind limit ih =>
    have hnext : d.shape.isLink = true → ∃ x T, info.Names d x ∧ info.TypeIs x T := by
      intro hlink
      obtain ⟨x, hn, hx⟩ := hG.exists_names hd
      cases x with
      | none => exact ⟨none, .void, hn, .absent⟩
      | some t =>
        obtain ⟨rest, rfl, hrest⟩ := h.next hlink hn
        obtain ⟨T, hT⟩ := ih rest (Nat.lt_succ_self rest) hrest (hx t rfl)
        exact ⟨some t, T, hn, hT⟩
    cases hshape : d.shape with
    | base => exact ⟨_, .base hshape⟩
    | enumeration => exact ⟨_, .enumeration hshape⟩
    | aggregate => exact ⟨_, .aggregate hshape⟩
    | function => exact ⟨_, .function hshape⟩
    | other => exact ⟨_, .other hshape⟩
    | array =>
      obtain ⟨x, T, hn, hT⟩ := hnext (by rw [hshape]; rfl)
      exact ⟨_, .array hshape ⟨_, hG.children_eq hd, rfl⟩ hn hT⟩
    | pointer =>
      obtain ⟨x, T, hn, hT⟩ := hnext (by rw [hshape]; rfl)
      exact ⟨_, .pointer hshape hn hT⟩
    | wrapper =>
      obtain ⟨x, T, hn, hT⟩ := hnext (by rw [hshape]; rfl)
      exact ⟨_, .wrapper hshape hn hT⟩

theorem ChainsWithin.translate_eq (h : info.ChainsWithin chainLimit (some d))
    (hT : info.TypeIs (some d) T) : info.translate d = .ok T :=
  hT.namedWithin_eq h

end Graph

/-! ## Nesting -/

/-- Every constructor of a type has cost a link, whatever the entries refer to. -/
theorem nesting_typeWithin_le (h : info.typeWithin links d = .ok T) : T.nesting ≤ links := by
  induction links generalizing d T with
  | zero =>
    cases h
    exact Nat.le_refl 0
  | succ links ih =>
    have hunder : ∀ {U}, info.under links d = .ok U → U.nesting ≤ links := by
      intro U hU
      rcases under_eq_ok hU with ⟨-, t, -, ht⟩ | rfl
      · exact ih ht
      · exact Nat.zero_le _
    rw [typeWithin_shape] at h
    cases hshape : d.shape with
    | array =>
      simp only [hshape] at h
      obtain ⟨element, helement, h⟩ := bind_eq_ok.mp h
      obtain ⟨below, -, h⟩ := bind_eq_ok.mp h
      cases h
      exact Nat.succ_le_succ (hunder helement)
    | pointer =>
      simp only [hshape] at h
      cases hu : info.under links d with
      | error e => rw [hu] at h; cases h
      | ok U =>
        rw [hu] at h
        cases h
        exact Nat.succ_le_succ (hunder hu)
    | wrapper =>
      simp only [hshape] at h
      exact Nat.le_succ_of_le (hunder h)
    | _ =>
      simp only [hshape] at h
      cases h
      exact Nat.zero_le _

/-! ## Wrappers -/

/-- Typedefs and qualifiers lead from one place of a chain to another. -/
inductive Through (info : DebugInfo) : Option Die → Option Die → Prop
  | refl (x : Option Die) : Through info x x
  | wrapper {d : Die} {x y : Option Die} (hd : d.shape = .wrapper) (hn : info.Names d x)
    (h : Through info x y) : Through info (some d) y

/-- Two places, neither of them a typedef or qualifier, say the same, up to what they refer to. -/
inductive Alike (info info' : DebugInfo) (R : Option Die → Option Die → Prop) :
    Option Die → Option Die → Prop
  | absent : Alike info info' R none none
  | ending {d d' : Die} (hd : d.shape.isLink = false) (hshape : d'.shape = d.shape)
    (hname : d'.typeName = d.typeName) (hkind : d'.baseKind = d.baseKind) :
    Alike info info' R (some d) (some d')
  | pointer {d d' : Die} {x x' : Option Die} (hd : d.shape = .pointer) (hd' : d'.shape = .pointer)
    (hn : info.Names d x) (hn' : info'.Names d' x') (h : R x x') :
    Alike info info' R (some d) (some d')
  | array {d d' : Die} {x x' : Option Die} {dims : List Int} (hd : d.shape = .array)
    (hd' : d'.shape = .array) (hdims : info.Extents d dims) (hdims' : info'.Extents d' dims)
    (hn : info.Names d x) (hn' : info'.Names d' x') (h : R x x') :
    Alike info info' R (some d) (some d')

/-- Two graphs are the same but for typedefs and qualifiers: a relation pairs their places so that
behind the typedefs and qualifiers at both places of a pair stands the same, again with paired
references. Nothing is said of how many there are of them, and chains may be cyclic. -/
def Rewraps (info info' : DebugInfo) (R : Option Die → Option Die → Prop) : Prop :=
  ∀ x x', R x x' → ∃ e e', info.Through x e ∧ info'.Through x' e' ∧ Alike info info' R e e'

theorem Names.unique {y : Option Die} (h : info.Names d x) (h' : info.Names d y) : x = y := by
  cases h with
  | absent ha =>
    cases h' with
    | absent _ => rfl
    | entry ha' _ => rw [ha] at ha'; cases ha'
  | entry ha ht =>
    cases h' with
    | absent ha' => rw [ha] at ha'; cases ha'
    | entry _ ht' => rw [Except.ok.inj (ht.symm.trans ht')]

theorem Extents.unique {dims dims' : List Int} (h : info.Extents d dims)
    (h' : info.Extents d dims') : dims = dims' := by
  obtain ⟨below, hbelow, rfl⟩ := h
  obtain ⟨below', hbelow', rfl⟩ := h'
  rw [(Prod.mk.inj (hbelow.symm.trans hbelow')).1]

theorem Through.typeIs {e : Option Die} (h : info.Through x e) (hT : info.TypeIs e T) :
    info.TypeIs x T := by
  induction h with
  | refl x => exact hT
  | wrapper hd hn _ ih => exact .wrapper hd hn (ih hT)

/-- Only a typedef or qualifier leads on to another place. -/
theorem Through.eq_of_shape {e : Option Die} (h : info.Through (some d) e)
    (hd : d.shape ≠ .wrapper) : e = some d := by
  cases h with
  | refl => rfl
  | wrapper hw => exact absurd hw hd

/-- Where a chain ends, what says the same has the same type. -/
theorem Alike.typeIs {R : Option Die → Option Die → Prop} (h : Alike info info' R (some d) x')
    (hd : d.shape.isLink = false) (hT : info.TypeIs (some d) T) : info'.TypeIs x' T := by
  cases h with
  | pointer hp => simp [hp, TypeShape.isLink] at hd
  | array ha => simp [ha, TypeShape.isLink] at hd
  | ending _ hshape hname hkind =>
    cases hT with
    | base hd => exact hkind ▸ .base (hshape.trans hd)
    | enumeration hd => exact hname ▸ .enumeration (hshape.trans hd)
    | aggregate hd => exact hname ▸ .aggregate (hshape.trans hd)
    | function hd => exact .function (hshape.trans hd)
    | other hd => exact .other (hshape.trans hd)
    | array h | pointer h | wrapper h => simp [h, TypeShape.isLink] at hd

/-- The types of paired places are the same. The induction is on what the entries of the first
graph say; the place that the pair has in common stays where it is while the wrappers in front of
it are passed. -/
theorem Rewraps.typeIs {R : Option Die → Option Die → Prop} (hR : Rewraps info info' R)
    (hT : info.TypeIs x T) {e e' : Option Die} (hx : info.Through x e)
    (he : Alike info info' R e e') : info'.TypeIs e' T := by
  induction hT generalizing e e' with
  | absent =>
    cases hx
    cases he
    exact .absent
  | base hd =>
    cases hx.eq_of_shape (by rw [hd]; nofun)
    exact he.typeIs (by rw [hd]; rfl) (.base hd)
  | enumeration hd =>
    cases hx.eq_of_shape (by rw [hd]; nofun)
    exact he.typeIs (by rw [hd]; rfl) (.enumeration hd)
  | aggregate hd =>
    cases hx.eq_of_shape (by rw [hd]; nofun)
    exact he.typeIs (by rw [hd]; rfl) (.aggregate hd)
  | function hd =>
    cases hx.eq_of_shape (by rw [hd]; nofun)
    exact he.typeIs (by rw [hd]; rfl) (.function hd)
  | other hd =>
    cases hx.eq_of_shape (by rw [hd]; nofun)
    exact he.typeIs (by rw [hd]; rfl) (.other hd)
  | array hd hdims hn _ ih =>
    cases hx.eq_of_shape (by rw [hd]; nofun)
    cases he with
    | ending hlink => simp [hd, TypeShape.isLink] at hlink
    | pointer hd' => simp [hd] at hd'
    | array _ hd' hdims' hdims'' hn' hn'' hpair =>
      obtain ⟨e, e', hx, hx', he⟩ := hR _ _ hpair
      cases hn.unique hn'
      cases hdims.unique hdims'
      exact .array hd' hdims'' hn'' (hx'.typeIs (ih hx he))
  | pointer hd hn _ ih =>
    cases hx.eq_of_shape (by rw [hd]; nofun)
    cases he with
    | ending hlink => simp [hd, TypeShape.isLink] at hlink
    | array hd' => simp [hd] at hd'
    | pointer _ hd' hn' hn'' hpair =>
      obtain ⟨e, e', hx, hx', he⟩ := hR _ _ hpair
      cases hn.unique hn'
      exact .pointer hd' hn'' (hx'.typeIs (ih hx he))
  | wrapper hd hn _ ih =>
    cases hx with
    | refl =>
      cases he with
      | ending hlink => simp [hd, TypeShape.isLink] at hlink
      | pointer hd' => simp [hd] at hd'
      | array hd' => simp [hd] at hd'
    | wrapper _ hn' hx =>
      cases hn.unique hn'
      exact ih hx he

/-- **Wrappers leave no trace on short chains.** Whatever the entries of a graph refer to, an entry
has a type, with at most 65 pointers and arrays one inside the other. Where no chain from it has
more than 64 links, the type is exactly what the entries say without a bound, and it is that of
every entry of another graph which is the same but for typedefs and qualifiers, if no chain from
that one has more links either. -/
theorem translate_unwraps {G : Die → Prop} (hG : info.ReadableIn G) (hd : G d) :
    ∃ T, info.translate d = .ok T ∧ T.nesting ≤ 65 ∧
      (info.ChainsWithin 64 (some d) →
        (∀ U, info.TypeIs (some d) U ↔ U = T) ∧
        ∀ (info' : DebugInfo) (R : Option Die → Option Die → Prop) (d' : Die),
          Rewraps info info' R → R (some d) (some d') → info'.ChainsWithin 64 (some d') →
            info'.translate d' = .ok T) := by
  obtain ⟨T, hT⟩ := hG.exists_typeWithin (chainLimit + 1) hd
  refine ⟨T, hT, nesting_typeWithin_le hT, fun hshort => ?_⟩
  have hunique : ∀ {U}, info.TypeIs (some d) U → U = T := by
    intro U hU
    exact Except.ok.inj ((hshort.translate_eq hU).symm.trans hT)
  obtain ⟨U, hU⟩ := hshort.exists_typeIs hG hd
  cases hunique hU
  refine ⟨fun V => ⟨hunique, fun hV => hV ▸ hU⟩, fun info' R d' hR hpair hshort' => ?_⟩
  obtain ⟨e, e', hx, hx', he⟩ := hR _ _ hpair
  exact hshort'.translate_eq (hx'.typeIs (hR.typeIs hU hx he))

/-- The entry that the type of another goes on in. -/
def next? (info : DebugInfo) (d : Die) : Option Die :=
  if d.shape.isLink && d.has "DW_AT_type" then (info.target d).toOption else none

/-- Whether the chain from an entry ends within so many links. -/
def endsWithin (info : DebugInfo) : Nat → Die → Bool
  | 0, d => (info.next? d).isNone
  | limit + 1, d =>
    match info.next? d with
    | none => true
    | some t => endsWithin info limit t

theorem chainsWithin_of_endsWithin (h : info.endsWithin limit d = true) :
    info.ChainsWithin limit (some d) := by
  rintro _ ⟨⟩ n e hlinked
  induction hlinked generalizing limit with
  | refl d => exact Nat.zero_le _
  | @step n d t e hd hn _ ih =>
    have hnext : info.next? d = some t := by
      cases hn with
      | entry ha ht => simp [next?, hd, ha, ht, Except.toOption]
    cases limit with
    | zero => simp [endsWithin, hnext] at h
    | succ limit =>
      simp only [endsWithin, hnext] at h
      exact Nat.succ_le_succ (ih h)

end DebugInfo

namespace Forest

/-- The entries of a forest at any depth. -/
def dies (f : Forest) : List Die := f.entries.map Prod.fst

/-- Entries of a forest lead to entries of it. -/
theorem target_mem_dies {f : Forest} {d t : Die} (h : f.info.target d = .ok t) : t ∈ f.dies := by
  simp only [info] at h
  split at h
  · split at h
    · rename_i target hat
      cases h
      obtain ⟨e, he, rfl⟩ := Option.map_eq_some_iff.mp hat
      exact List.mem_map_of_mem (List.mem_of_find?_eq_some he)
    · cases h
  · cases h

theorem readableIn {f : Forest}
    (h : ∀ d ∈ f.dies, d.has "DW_AT_type" = true → (f.info.target d).isOk = true) :
    f.info.ReadableIn (· ∈ f.dies) where
  children d _ := by
    simp only [info]
    split <;> rfl
  target d hd ha := by
    cases ht : f.info.target d with
    | ok t => exact ⟨t, rfl, target_mem_dies ht⟩
    | error e =>
      have hok := h d hd ha
      rw [ht] at hok
      cases hok

/-- An entry that refers to the one at an offset. -/
def linkAt (offset : Int) (tag : String) (target : Int) : Die :=
  ⟨0, 0, offset, tag, [("DW_AT_type", ⟨"DW_FORM_ref4", .number target⟩)]⟩

def byteType : Die :=
  ⟨0, 0, 16, "DW_TAG_base_type", [("DW_AT_byte_size", ⟨"DW_FORM_data1", .number 1⟩),
    ("DW_AT_encoding", ⟨"DW_FORM_data1", .number 8⟩)]⟩

/-- Three rows of four elements of the type at an offset. -/
def rowsOf (element : Int) : Tree :=
  .node (linkAt 48 "DW_TAG_array_type" element)
    [.node ⟨0, 0, 56, "DW_TAG_subrange_type", [("DW_AT_count", ⟨"DW_FORM_data1", .number 3⟩)]⟩ [],
      .node ⟨0, 0, 60, "DW_TAG_subrange_type",
        [("DW_AT_upper_bound", ⟨"DW_FORM_data1", .number 3⟩)]⟩ []]

/-- A pointer to rows of bytes, and one to itself. -/
def plainRows : Forest where
  littleEndian := true
  units := [⟨none, [.node byteType [], rowsOf 16, .node (linkAt 80 "DW_TAG_pointer_type" 48) [],
    .node (linkAt 112 "DW_TAG_pointer_type" 112) []]⟩]

/-- The same with a typedef in front, the rows volatile and their bytes constant. -/
def wrappedRows : Forest where
  littleEndian := true
  units := [⟨none, [.node byteType [], .node (linkAt 32 "DW_TAG_const_type" 16) [], rowsOf 32,
    .node (linkAt 64 "DW_TAG_volatile_type" 48) [], .node (linkAt 80 "DW_TAG_pointer_type" 64) [],
    .node (linkAt 96 "DW_TAG_typedef" 80) []]⟩]

/-- The places of the two forests that say the same. -/
def samePlaces : List (Die × Die) :=
  [(linkAt 80 "DW_TAG_pointer_type" 48, linkAt 96 "DW_TAG_typedef" 80),
    (linkAt 48 "DW_TAG_array_type" 16, linkAt 64 "DW_TAG_volatile_type" 48),
    (byteType, linkAt 32 "DW_TAG_const_type" 16)]

theorem samePlaces_rewraps : DebugInfo.Rewraps plainRows.info wrappedRows.info
    fun x x' => ∃ d d', x = some d ∧ x' = some d' ∧ (d, d') ∈ samePlaces := by
  rintro _ _ ⟨d, d', rfl, rfl, h⟩
  simp only [samePlaces, List.mem_cons, Prod.mk.injEq, List.not_mem_nil, or_false] at h
  rcases h with ⟨rfl, rfl⟩ | ⟨rfl, rfl⟩ | ⟨rfl, rfl⟩
  · refine ⟨_, some (linkAt 80 "DW_TAG_pointer_type" 64), .refl _,
      .wrapper rfl (.entry rfl rfl) (.refl _), ?_⟩
    exact .pointer rfl rfl (.entry rfl rfl) (.entry rfl rfl) ⟨_, _, rfl, rfl, by simp [samePlaces]⟩
  · refine ⟨_, some (linkAt 48 "DW_TAG_array_type" 32), .refl _,
      .wrapper rfl (.entry rfl rfl) (.refl _), ?_⟩
    exact .array rfl rfl ⟨_, rfl, rfl⟩ ⟨_, rfl, rfl⟩ (.entry rfl rfl) (.entry rfl rfl)
      ⟨_, _, rfl, rfl, by simp [samePlaces]⟩
  · exact ⟨_, some byteType, .refl _, .wrapper rfl (.entry rfl rfl) (.refl _),
      .ending rfl rfl rfl rfl⟩

/-- The pointer with and without its wrappers, and the one that never ends. -/
theorem wrappedRows_plain :
    (∃ T, plainRows.info.translate (linkAt 112 "DW_TAG_pointer_type" 112) = .ok T ∧
      T.nesting ≤ 65) ∧
    (∀ U, plainRows.info.TypeIs (some (linkAt 80 "DW_TAG_pointer_type" 48)) U ↔
      U = .pointer (.array (.base .u8) [3, 4] 3)) ∧
    wrappedRows.info.translate (linkAt 96 "DW_TAG_typedef" 80) =
      .ok (.pointer (.array (.base .u8) [3, 4] 3)) := by
  have hread : plainRows.info.ReadableIn (· ∈ plainRows.dies) := readableIn (by decide)
  have hplain : plainRows.info.ChainsWithin 64 (some (linkAt 80 "DW_TAG_pointer_type" 48)) :=
    DebugInfo.chainsWithin_of_endsWithin (by decide)
  have hwrapped : wrappedRows.info.ChainsWithin 64 (some (linkAt 96 "DW_TAG_typedef" 80)) :=
    DebugInfo.chainsWithin_of_endsWithin (by decide)
  obtain ⟨T, hT, hnested, -⟩ := DebugInfo.translate_unwraps hread
    (show linkAt 112 "DW_TAG_pointer_type" 112 ∈ plainRows.dies by decide)
  obtain ⟨U, hU, -, hshort⟩ := DebugInfo.translate_unwraps hread
    (show linkAt 80 "DW_TAG_pointer_type" 48 ∈ plainRows.dies by decide)
  obtain ⟨htype, hrewrapped⟩ := hshort hplain
  have heq : plainRows.info.translate (linkAt 80 "DW_TAG_pointer_type" 48) =
      .ok (.pointer (.array (.base .u8) [3, 4] 3)) := by with_unfolding_all rfl
  cases hU.symm.trans heq
  exact ⟨⟨T, hT, hnested⟩, htype, hrewrapped _ _ _ samePlaces_rewraps
    ⟨_, _, rfl, rfl, by simp [samePlaces]⟩ hwrapped⟩

/-- A function without a result. -/
def callback : Die := ⟨0, 0, 16, "DW_TAG_subroutine_type", []⟩

/-- An entry that is no typedef, qualifier, pointer, reference, aggregate, enumeration, base type or
array need not be `void`. -/
theorem callback_function :
    let f : Forest := ⟨true, [⟨none, [.node callback []]⟩]⟩
    isTransparentTag callback.tag = false ∧ isPointerTag callback.tag = false ∧
      isAggregateTag callback.tag = false ∧
      callback.tag ∉ [enumTag, "DW_TAG_base_type", "DW_TAG_array_type"] ∧
      f.info.ChainsWithin 64 (some callback) ∧ f.info.translate callback = .ok .function ∧
      Ty.function ≠ .void := by
  refine ⟨by decide, by decide, by decide, by decide, ?_, rfl, nofun⟩
  exact DebugInfo.chainsWithin_of_endsWithin (by decide)

end Forest
end KernelProfile.Dwarf
