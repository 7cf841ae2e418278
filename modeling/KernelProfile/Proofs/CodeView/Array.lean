import KernelProfile.Proofs.CodeView.Definitions

/-! Types of arrays. An array is written by how it is nested in other ones, by the innermost array,
and by what its elements are. Modifiers cost links and change nothing else, so that within the
limit on links the type is told by the nesting, the extent of the innermost array and the type of
its elements. -/
namespace KernelProfile.CodeView

/-- As many elements of a size as go into the bytes, 0 when the size is not known. -/
def countOf (byteSize size : Int) : Int := if size = 0 then 0 else byteSize.fdiv size

/-- The arrays around an innermost one, from the outside in, each with its byte size. Where one is
around the next one directly, both are dimensions of one type; modifiers set them apart. -/
inductive Nesting where
  | innermost
  | direct (byteSize : Int) (inner : Nesting)
  | apart (byteSize : Int) (inner : Nesting)

/-- The array type of extents and an element type. -/
def arrayOf (layout : List Int × Ty) : Ty :=
  .array layout.2 layout.1 (layout.1.foldl (· * ·) 1)

theorem arrayOf_inj {a b : List Int × Ty} : arrayOf a = arrayOf b ↔ a = b := by
  constructor
  · intro h
    injection h with helement hdims hcount
    exact Prod.ext hdims helement
  · rintro rfl
    rfl

theorem arrayOf_single (count : Int) (element : Ty) :
    arrayOf ([count], element) = .array element [count] count := by
  simp [arrayOf]

namespace Nesting

/-- The byte size of the outermost array, with that of the innermost one given. -/
def outerSize (byteSize : Int) : Nesting → Int
  | innermost => byteSize
  | direct outer _ => outer
  | apart outer _ => outer

/-- The dimensions of the outermost type and its element type, with byte size, extent and element
type of the innermost array given. -/
def layout (byteSize count : Int) (element : Ty) : Nesting → List Int × Ty
  | innermost => ([count], element)
  | direct outer inner =>
    (countOf outer (inner.outerSize byteSize) :: (layout byteSize count element inner).1,
      (layout byteSize count element inner).2)
  | apart outer inner =>
    ([countOf outer (inner.outerSize byteSize)], arrayOf (layout byteSize count element inner))

/-- Types of one nesting differ where the extents of the innermost arrays do. -/
theorem layout_inj {shape : Nesting} {byteSize count count' : Int} {element : Ty} :
    shape.layout byteSize count element = shape.layout byteSize count' element ↔
      count = count' := by
  induction shape with
  | innermost => simp [layout]
  | direct outer inner ih =>
    simp only [layout, Prod.mk.injEq, List.cons.injEq, true_and]
    rw [← Prod.ext_iff, ih]
  | apart outer inner ih =>
    simp only [layout, Prod.mk.injEq, true_and]
    rw [arrayOf_inj, ih]

end Nesting

namespace Context

variable {c : Context} {x : ArrayRecord} {i j f : Int} {m n : Nat} {shape : Nesting}

theorem extent_eq (c : Context) (x : ArrayRecord) :
    c.extent x = countOf x.byteSize (c.recordSize x.element) := rfl

/-! ## Modifiers -/

/-- A type over so many modifiers. -/
inductive Modifies (c : Context) : Nat → Int → Int → Prop where
  | refl (i : Int) : Modifies c 0 i i
  | step {n : Nat} {i j k attributes : Int} :
      c.record? i = some (.modifier j attributes) → Modifies c n j k → Modifies c (n + 1) i k

theorem Modifies.typeWithin_eq (h : c.Modifies n i j) (links : Nat) :
    c.typeWithin (links + n) i = c.typeWithin links j := by
  induction h with
  | refl i => rfl
  | step hr _ ih =>
    rw [← Nat.add_assoc, typeWithin, hr]
    exact ih

theorem Modifies.sizeWithin_eq (h : c.Modifies n i j) (links : Nat) :
    c.sizeWithin (links + n) i = c.sizeWithin links j := by
  induction h with
  | refl i => rfl
  | step hr _ ih =>
    rw [← Nat.add_assoc, sizeWithin, hr]
    exact ih

/-- What modifiers are around is an array only if there are none. -/
theorem Modifies.record?_ne_array (h : c.Modifies n i j)
    (hj : ∀ r, c.record? j ≠ some (.array r)) (r : ArrayRecord) :
    c.record? i ≠ some (.array r) := by
  cases h with
  | refl i => exact hj r
  | step hr _ =>
    rw [hr]
    intro h
    cases h

/-! ## Arrays -/

/-- A type is an array in a nesting around an innermost record, over so many links: one for each
array and one for each modifier. -/
inductive ArrayAt (c : Context) (x : ArrayRecord) : Nesting → Nat → Int → Prop where
  | innermost {i : Int} : c.record? i = some (.array x) → ArrayAt c x .innermost 1 i
  | modifier {shape : Nesting} {m : Nat} {i j attributes : Int} :
      c.record? i = some (.modifier j attributes) → ArrayAt c x shape m j →
      ArrayAt c x shape (m + 1) i
  | direct {shape : Nesting} {m : Nat} {i : Int} {r inner : ArrayRecord} :
      c.record? i = some (.array r) → c.record? r.element = some (.array inner) →
      ArrayAt c x shape m r.element → ArrayAt c x (.direct r.byteSize shape) (m + 1) i
  | apart {shape : Nesting} {m : Nat} {i j attributes : Int} {r : ArrayRecord} :
      c.record? i = some (.array r) → c.record? r.element = some (.modifier j attributes) →
      ArrayAt c x shape m r.element → ArrayAt c x (.apart r.byteSize shape) (m + 1) i

theorem ArrayAt.pos (h : c.ArrayAt x shape m i) : 0 < m := by
  cases h <;> omega

theorem sizeWithin_array {r : ArrayRecord} (hr : c.record? i = some (.array r)) {links : Nat}
    (hpos : 0 < links) : c.sizeWithin links i = r.byteSize := by
  obtain ⟨links, rfl⟩ := Nat.exists_eq_add_of_lt hpos
  rw [Nat.zero_add, sizeWithin, hr]

theorem ArrayAt.sizeWithin_eq (h : c.ArrayAt x shape m i) {links : Nat} (hle : m ≤ links) :
    c.sizeWithin links i = shape.outerSize x.byteSize := by
  induction h generalizing links with
  | innermost hr => exact sizeWithin_array hr (by omega)
  | @modifier shape m i j attributes hr _ ih =>
    obtain ⟨links, rfl⟩ := Nat.exists_eq_add_of_le' hle
    rw [← Nat.add_assoc, sizeWithin, hr]
    exact ih (by omega)
  | direct hr _ _ _ => exact sizeWithin_array hr (by omega)
  | apart hr _ _ _ => exact sizeWithin_array hr (by omega)

/-- An array counts as many of the next one's size as go into its own. -/
theorem ArrayAt.extent_around {r : ArrayRecord} (h : c.ArrayAt x shape m r.element)
    (hle : m ≤ chainLimit) :
    c.extent r = countOf r.byteSize (shape.outerSize x.byteSize) := by
  rw [extent_eq, recordSize, h.sizeWithin_eq (by omega)]

theorem innerExtents_array {r : ArrayRecord} (hr : c.record? i = some (.array r)) (levels : Nat) :
    c.innerExtents (levels + 1) i =
      (c.extent r :: (c.innerExtents levels r.element).1,
        (c.innerExtents levels r.element).2) := by
  rw [innerExtents, hr]

theorem innerExtents_other (h : ∀ r, c.record? i ≠ some (.array r)) (levels : Nat) :
    c.innerExtents levels i = ([], i) := by
  cases levels with
  | zero => rfl
  | succ levels =>
    rw [innerExtents]
    split
    · rename_i r hr
      exact absurd hr (h r)
    · rfl

/-- The type of an array is made of all the extents from it on. -/
theorem typeWithin_array {r : ArrayRecord} (hr : c.record? i = some (.array r)) {dims : List Int}
    {element : Int} (h : c.innerExtents (chainLimit + 1) i = (dims, element)) (links : Nat) :
    c.typeWithin (links + 1) i =
      arrayOf (dims, c.typeWithin (links + 1 - dims.length) element) := by
  rw [innerExtents_array hr] at h
  cases h
  rw [typeWithin, hr, List.length_cons, Nat.add_sub_add_right]
  rfl

/-- The elements of an array are of a type, and there is no array among what stands for it. -/
structure Elements (c : Context) (x : ArrayRecord) (n : Nat) (T : Ty) : Prop where
  not_array : ∀ r, c.record? x.element ≠ some (.array r)
  type_eq : ∀ links, n < links → c.typeWithin links x.element = T

/-- What is read of an array: its dimensions and, over the links that they leave, its element
type. -/
def ReadsAs (c : Context) (m n : Nat) (layout : List Int × Ty) (i : Int) : Prop :=
  ∀ levels, m ≤ levels → ∃ element, c.innerExtents levels i = (layout.1, element) ∧
    ∀ links, m + n < links → c.typeWithin (links - layout.1.length) element = layout.2

theorem ReadsAs.typeWithin_eq {layout : List Int × Ty} (h : c.ReadsAs m n layout i)
    {r : ArrayRecord} (hr : c.record? i = some (.array r)) (hle : m ≤ chainLimit) {links : Nat}
    (hlt : m + n < links) : c.typeWithin links i = arrayOf layout := by
  obtain ⟨element, hextents, htype⟩ := h (chainLimit + 1) (by omega)
  obtain ⟨links, rfl⟩ := Nat.exists_eq_add_of_lt hlt
  rw [typeWithin_array hr hextents, htype _ hlt]

/-- An array around something that is not directly an array has one dimension. -/
theorem readsAs_single {r : ArrayRecord} (hr : c.record? i = some (.array r))
    (hnot : ∀ r', c.record? r.element ≠ some (.array r')) {T : Ty}
    (htype : ∀ links, m + n < links → c.typeWithin links r.element = T) :
    c.ReadsAs (m + 1) n ([c.extent r], T) i := by
  intro levels hlevels
  obtain ⟨levels, rfl⟩ := Nat.exists_eq_add_of_le' hlevels
  refine ⟨r.element, ?_, fun links hlt => htype _ (by simp only [List.length_singleton]; omega)⟩
  rw [← Nat.add_assoc, innerExtents_array hr, innerExtents_other hnot]

/-- An array around an array has one dimension more. -/
theorem ReadsAs.around {layout : List Int × Ty} {r : ArrayRecord}
    (h : c.ReadsAs m n layout r.element) (hr : c.record? i = some (.array r)) :
    c.ReadsAs (m + 1) n (c.extent r :: layout.1, layout.2) i := by
  intro levels hlevels
  obtain ⟨levels, rfl⟩ := Nat.exists_eq_add_of_le' hlevels
  obtain ⟨element, hextents, htype⟩ := h (levels + m) (by omega)
  refine ⟨element, ?_, fun links hlt => ?_⟩
  · rw [← Nat.add_assoc, innerExtents_array hr, hextents]
  · rw [List.length_cons, Nat.add_comm, ← Nat.sub_sub]
    exact htype _ (by omega)

/-- The type of an array is told by its nesting, by induction on it. The second part is what an
array around it needs. -/
theorem ArrayAt.type_eq {T : Ty} (hx : c.Elements x n T) (h : c.ArrayAt x shape m i)
    (hle : m ≤ chainLimit) :
    (∀ links, m + n < links →
      c.typeWithin links i = arrayOf (shape.layout x.byteSize (c.extent x) T)) ∧
    ∀ r, c.record? i = some (.array r) →
      c.ReadsAs m n (shape.layout x.byteSize (c.extent x) T) i := by
  induction h with
  | @innermost i hr =>
    have hreads : c.ReadsAs (0 + 1) n ([c.extent x], T) i :=
      readsAs_single hr hx.not_array fun links hlt => hx.type_eq links (by omega)
    exact ⟨fun links hlt => hreads.typeWithin_eq hr hle hlt, fun _ _ => hreads⟩
  | @modifier shape m i j attributes hr _ ih =>
    refine ⟨fun links hlt => ?_, fun r hr' => ?_⟩
    · obtain ⟨links, rfl⟩ := Nat.exists_eq_add_of_lt hlt
      rw [typeWithin, hr]
      exact (ih (by omega)).1 _ (by omega)
    · rw [hr] at hr'
      cases hr'
  | @direct shape m i r inner hr hinner hat ih =>
    have hreads := ((ih (by omega)).2 inner hinner).around hr
    rw [hat.extent_around (by omega)] at hreads
    exact ⟨fun links hlt => hreads.typeWithin_eq hr hle hlt, fun _ _ => hreads⟩
  | @apart shape m i j attributes r hr hmodifier hat ih =>
    have hnot : ∀ r', c.record? r.element ≠ some (.array r') := by
      intro r' hr'
      rw [hmodifier] at hr'
      cases hr'
    have hreads := readsAs_single hr hnot (ih (by omega)).1
    rw [hat.extent_around (by omega)] at hreads
    exact ⟨fun links hlt => hreads.typeWithin_eq hr hle hlt, fun _ _ => hreads⟩

/-! ## Arrays of named types -/

/-- A type is an array in a nesting around an innermost record whose elements are of another type,
modifiers apart, over no more links than a chain of types may have. -/
def ArrayOf (c : Context) (shape : Nesting) (x : ArrayRecord) (i f : Int) : Prop :=
  ∃ m n, c.ArrayAt x shape m i ∧ c.Modifies n x.element f ∧ m + n ≤ chainLimit

theorem ArrayOf.translate_eq (h : c.ArrayOf shape x i f) {T : Ty}
    (htype : ∀ links, c.typeWithin (links + 1) f = T)
    (hnot : ∀ r, c.record? f ≠ some (.array r)) :
    c.translate i = arrayOf (shape.layout x.byteSize (c.extent x) T) := by
  obtain ⟨m, n, hat, hmodifies, hle⟩ := h
  have helements : c.Elements x n T := by
    refine ⟨hmodifies.record?_ne_array hnot, fun links hlt => ?_⟩
    obtain ⟨links, rfl⟩ := Nat.exists_eq_add_of_lt hlt
    rw [Nat.add_comm n, Nat.add_right_comm, hmodifies.typeWithin_eq, htype]
  exact (hat.type_eq helements (by omega)).1 _ (by omega)

/-- The elements of an array have at least two links left. -/
theorem ArrayOf.extent_eq (h : c.ArrayOf shape x i f) {size : Int}
    (hsize : ∀ links, c.sizeWithin (links + 2) f = size) :
    c.extent x = countOf x.byteSize size := by
  obtain ⟨m, n, hat, hmodifies, hle⟩ := h
  have hpos := hat.pos
  obtain ⟨links, hlinks⟩ : ∃ links, chainLimit + 1 = links + 2 + n :=
    ⟨chainLimit + 1 - 2 - n, by omega⟩
  rw [Context.extent_eq, recordSize, hlinks, hmodifies.sizeWithin_eq, hsize]

theorem typeWithin_aggregate {r : AggregateRecord} (hr : c.record? i = some (.aggregate r))
    (links : Nat) : c.typeWithin (links + 1) i = .structRef (profileName r.name i) := by
  rw [typeWithin, hr]

theorem typeWithin_enumeration {r : EnumRecord} (hr : c.record? i = some (.enumeration r))
    (links : Nat) : c.typeWithin (links + 1) i = .enumRef (profileName r.name i) := by
  rw [typeWithin, hr]

end Context
end KernelProfile.CodeView
