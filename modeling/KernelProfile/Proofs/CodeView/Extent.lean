import KernelProfile.Architecture
import KernelProfile.Proofs.CodeView.Array

/-! Extents of arrays and the bytes they account for. An array directly around another one counts
its bytes in sizes of that one, so that the extents of nested arrays multiply up to no more elements
than go into the outermost array, and to as many as do where no level leaves a rest. -/
namespace KernelProfile.CodeView

/-! ## Counting in a size -/

/-- An extent counts elements of a size in so many bytes: as many as go into them, and none where
the elements have no size. -/
def Counts (byteSize size extent : Int) : Prop :=
  (size = 0 ∧ extent = 0) ∨
    (0 < size ∧ extent * size ≤ byteSize ∧ byteSize < (extent + 1) * size)

variable {byteSize size : Int}

theorem countOf_zero (byteSize : Int) : countOf byteSize 0 = 0 := if_pos rfl

theorem countOf_pos (hsize : 0 < size) : countOf byteSize size = byteSize / size := by
  have hne : size ≠ 0 := by omega
  rw [countOf, if_neg hne, Int.fdiv_eq_ediv_of_nonneg byteSize (Int.le_of_lt hsize)]

theorem counts_countOf (hsize : 0 ≤ size) : Counts byteSize size (countOf byteSize size) := by
  rcases Int.lt_or_eq_of_le hsize with hpos | hzero
  · rw [countOf_pos hpos]
    exact .inr ⟨hpos, Int.ediv_mul_le byteSize (by omega),
      Int.lt_ediv_add_one_mul_self byteSize hpos⟩
  · rw [← hzero, countOf_zero]
    exact .inl ⟨rfl, rfl⟩

theorem Counts.mul_le {extent : Int} (h : Counts byteSize size extent) (hbytes : 0 ≤ byteSize) :
    extent * size ≤ byteSize := by
  rcases h with ⟨rfl, rfl⟩ | ⟨-, hle, -⟩
  · simpa using hbytes
  · exact hle

theorem countOf_nonneg (hbytes : 0 ≤ byteSize) (hsize : 0 ≤ size) : 0 ≤ countOf byteSize size := by
  rcases Int.lt_or_eq_of_le hsize with hpos | hzero
  · rw [countOf_pos hpos]
    exact Int.ediv_nonneg hbytes hsize
  · have hcount : countOf byteSize size = 0 := by rw [← hzero, countOf_zero]
    exact Int.le_of_eq hcount.symm

/-- Where the size goes into the bytes without a rest, the elements take all of them. -/
theorem countOf_mul_of_dvd (hne : size ≠ 0) (hdvd : size ∣ byteSize) :
    countOf byteSize size * size = byteSize := by
  rw [countOf, if_neg hne, Int.fdiv_eq_ediv_of_dvd hdvd, Int.ediv_mul_cancel hdvd]

/-- The product of extents. -/
def product : List Int → Int
  | [] => 1
  | d :: ds => d * product ds

theorem foldl_mul (ds : List Int) (n : Int) : ds.foldl (· * ·) n = n * product ds := by
  induction ds generalizing n with
  | nil => simp [product]
  | cons d ds ih => rw [List.foldl_cons, ih, product, Int.mul_assoc]

theorem product_eq_zero {ds : List Int} (h : 0 ∈ ds) : product ds = 0 := by
  induction ds with
  | nil => cases h
  | cons d ds ih =>
    rw [product]
    rcases List.mem_cons.mp h with hd | hds
    · rw [← hd, Int.zero_mul]
    · rw [ih hds, Int.mul_zero]

/-! ## Sizes that are not negative -/

/-- A record that states a byte size states one that is not negative. -/
def TypeRecord.SizeNonneg : TypeRecord → Prop
  | .array r => 0 ≤ r.byteSize
  | .aggregate r => 0 ≤ r.size
  | _ => True

theorem pointerSizeOf_nonneg (attributes : Int) : 0 ≤ pointerSizeOf attributes :=
  Int.emod_nonneg _ (by decide)

/-- No readable record of a table states a negative byte size. -/
def RecordTable.SizesNonneg (t : RecordTable) : Prop :=
  ∀ index record, t.get index = .ok record → record.SizeNonneg

theorem RecordTable.sizesNonneg_of_rows {t : RecordTable}
    (h : ∀ row ∈ t.rows, ∀ record, row.2 = .ok record → record.SizeNonneg) : t.SizesNonneg := by
  intro index record hget
  unfold RecordTable.get at hget
  split at hget
  · cases hget
    trivial
  · split at hget
    · rename_i row hlookup
      obtain ⟨before, behind, hrows, -⟩ := List.lookup_eq_some_iff.mp hlookup
      exact h (index, row) (by simp [hrows]) record hget
    · cases hget

namespace Context

variable {c : Context} {i j : Int} {r : ArrayRecord} {levels : List ArrayRecord}

/-- None of the sizes that types are translated against is negative. -/
structure Sized (c : Context) : Prop where
  record : ∀ index record, c.record? index = some record → record.SizeNonneg
  pointer : 0 ≤ c.pointerSize
  noted : ∀ name size, c.sizes.get? name = some size → 0 ≤ size

/-- With records of a table in view, and whichever of them have been noted for their sizes. -/
theorem sized_of_noted {t : RecordTable} (ht : t.SizesNonneg) (a : Architecture)
    {noted : List (Int × TypeRecord)} (hnoted : ∀ e ∈ noted, t.get e.1 = .ok e.2) :
    Sized ⟨t, a.pointerSize, definedSizes noted⟩ := by
  refine ⟨fun index record hr => ht index record (record?_eq_some.mp hr), Int.natCast_nonneg _, ?_⟩
  intro name size hsize
  rw [get?_definedSizes, Option.map_eq_some_iff] at hsize
  obtain ⟨⟨index, r⟩, hfirst, rfl⟩ := hsize
  obtain ⟨hmem, -, -⟩ := mem_definitions.mp (List.mem_of_mem_head? hfirst)
  exact ht index (.aggregate r) (hnoted _ hmem)

theorem Sized.sizeWithin_nonneg (h : c.Sized) (links : Nat) (i : Int) :
    0 ≤ c.sizeWithin links i := by
  induction links generalizing i with
  | zero => exact Int.le_refl 0
  | succ links ih =>
    have hpointer := h.pointer
    rw [sizeWithin]
    cases hr : c.record? i with
    | none => exact Int.le_refl 0
    | some record =>
      have hrecord := h.record i record hr
      cases record with
      | primitive index =>
        dsimp only
        split
        · exact Int.natCast_nonneg _
        · exact hpointer
      | aggregate r =>
        dsimp only
        split
        · cases hsize : c.sizes.get? r.name with
          | none => exact Int.le_refl 0
          | some size => exact h.noted r.name size hsize
        · exact hrecord
      | array r => exact hrecord
      | pointer underlying attributes =>
        dsimp only
        split
        · exact hpointer
        · exact pointerSizeOf_nonneg attributes
      | enumeration r => exact ih r.underlying
      | modifier underlying attributes => exact ih underlying
      | bitfield underlying length position => exact ih underlying
      | _ => exact Int.le_refl 0

theorem Sized.recordSize_nonneg (h : c.Sized) (i : Int) : 0 ≤ c.recordSize i :=
  h.sizeWithin_nonneg _ i

theorem Sized.counts (h : c.Sized) (r : ArrayRecord) :
    Counts r.byteSize (c.recordSize r.element) (c.extent r) :=
  counts_countOf (h.recordSize_nonneg r.element)

/-! ## Levels of nesting -/

/-- The arrays that are one directly inside the other from a type on, the outermost first, and the
type inside the last of them. -/
inductive Levels (c : Context) : Int → List ArrayRecord → Int → Prop
  | inside (i : Int) : Levels c i [] i
  | level {i j : Int} {r : ArrayRecord} {inner : List ArrayRecord}
    (hr : c.record? i = some (.array r)) (h : Levels c r.element inner j) :
    Levels c i (r :: inner) j

theorem recordSize_array (hr : c.record? i = some (.array r)) : c.recordSize i = r.byteSize :=
  sizeWithin_array hr (by decide)

/-- The extents that are read off nested arrays are those of their levels. -/
theorem innerExtents_levels (c : Context) (limit : Nat) (i : Int) :
    ∃ levels, c.Levels i levels (c.innerExtents limit i).2 ∧
      (c.innerExtents limit i).1 = levels.map c.extent ∧
      (levels.length = limit ∨
        ∀ r, c.record? (c.innerExtents limit i).2 ≠ some (.array r)) := by
  induction limit generalizing i with
  | zero => exact ⟨[], .inside i, rfl, .inl rfl⟩
  | succ limit ih =>
    by_cases harray : ∃ r, c.record? i = some (.array r)
    · obtain ⟨r, hr⟩ := harray
      obtain ⟨levels, hlevels, hdims, hends⟩ := ih r.element
      rw [innerExtents_array hr]
      refine ⟨r :: levels, .level hr hlevels, by rw [hdims, List.map_cons], ?_⟩
      rw [List.length_cons, Nat.add_right_cancel_iff]
      exact hends
    · have hother : ∀ r, c.record? i ≠ some (.array r) := not_exists.mp harray
      rw [innerExtents_other hother]
      exact ⟨[], .inside i, rfl, .inr hother⟩

/-- The bound telescopes: each level's extent times the size of the next level is at most the size
of its own. -/
theorem Levels.product_mul_le (h : c.Levels i levels j) (hc : c.Sized) :
    product (levels.map c.extent) * c.recordSize j ≤ c.recordSize i := by
  induction h with
  | inside i => simp [product]
  | @level i j r inner hr _ ih =>
    have hbytes : 0 ≤ r.byteSize := hc.record i (.array r) hr
    have hextent : 0 ≤ c.extent r := countOf_nonneg hbytes (hc.recordSize_nonneg r.element)
    calc product ((r :: inner).map c.extent) * c.recordSize j
        = c.extent r * (product (inner.map c.extent) * c.recordSize j) := Int.mul_assoc _ _ _
      _ ≤ c.extent r * c.recordSize r.element := Int.mul_le_mul_of_nonneg_left ih hextent
      _ ≤ r.byteSize := (hc.counts r).mul_le hbytes
      _ = c.recordSize i := (recordSize_array hr).symm

/-- No level leaves a rest: its elements have a size, and that goes into its bytes. -/
def Divides (c : Context) (levels : List ArrayRecord) : Prop :=
  ∀ r ∈ levels, c.recordSize r.element ≠ 0 ∧ c.recordSize r.element ∣ r.byteSize

theorem Levels.product_mul_eq (h : c.Levels i levels j) (hdivides : c.Divides levels) :
    product (levels.map c.extent) * c.recordSize j = c.recordSize i := by
  induction h with
  | inside i => simp [product]
  | @level i j r inner hr _ ih =>
    obtain ⟨hne, hdvd⟩ := hdivides r List.mem_cons_self
    calc product ((r :: inner).map c.extent) * c.recordSize j
        = c.extent r * (product (inner.map c.extent) * c.recordSize j) := Int.mul_assoc _ _ _
      _ = c.extent r * c.recordSize r.element := by
        rw [ih fun r' hr' => hdivides r' (List.mem_cons_of_mem _ hr')]
      _ = r.byteSize := countOf_mul_of_dvd hne hdvd
      _ = c.recordSize i := (recordSize_array hr).symm

theorem product_eq_zero_of_unsized (hr : r ∈ levels) (hsize : c.recordSize r.element = 0) :
    product (levels.map c.extent) = 0 := by
  have hzero : c.extent r = 0 := by rw [extent_eq, hsize, countOf_zero]
  exact product_eq_zero (hzero ▸ List.mem_map_of_mem hr)

/-- **Extents account for the bytes.** Where no record of a table states a negative size, an array
has one extent for each of the arrays that are directly nested from it on, up to sixty-five, and in
total their product. Together the elements take no more bytes than the array has, and all of them
where no level leaves a rest. Each extent is as many elements as go into the level's bytes; elements
without a size are not counted, and then the total is 0 as well. The aggregates whose sizes are
known may be any of the table's, and the array's type may be asked for over any number of links. -/
theorem typeWithin_array_accounts {t : RecordTable} (ht : t.SizesNonneg) (a : Architecture)
    {noted : List (Int × TypeRecord)} (hnoted : ∀ e ∈ noted, t.get e.1 = .ok e.2)
    {c : Context} (hc : c = ⟨t, a.pointerSize, definedSizes noted⟩)
    (hr : c.record? i = some (.array r)) (links : Nat) :
    ∃ inner element T dims total,
      c.Levels i (r :: inner) element ∧
      (inner.length = 64 ∨ ∀ r', c.record? element ≠ some (.array r')) ∧
      c.typeWithin (links + 1) i = .array T dims total ∧
      dims = (r :: inner).map c.extent ∧
      total = product dims ∧
      total * c.recordSize element ≤ r.byteSize ∧
      (c.Divides (r :: inner) → total * c.recordSize element = r.byteSize) ∧
      ∀ level ∈ r :: inner,
        Counts level.byteSize (c.recordSize level.element) (c.extent level) ∧
          (c.recordSize level.element = 0 → total = 0) := by
  have hsized : c.Sized := hc ▸ sized_of_noted ht a hnoted
  obtain ⟨inner, hinner, hdims, hends⟩ := c.innerExtents_levels chainLimit r.element
  have hlevels : c.Levels i (r :: inner) (c.innerExtents chainLimit r.element).2 :=
    .level hr hinner
  have htype := typeWithin_array hr (innerExtents_array hr chainLimit) links
  rw [hdims, ← List.map_cons, arrayOf, foldl_mul, Int.one_mul] at htype
  have hsize : c.recordSize i = r.byteSize := recordSize_array hr
  refine ⟨inner, _, _, _, _, hlevels, hends, htype, rfl, rfl, ?_, ?_, ?_⟩
  · rw [← hsize]
    exact hlevels.product_mul_le hsized
  · intro hdivides
    rw [← hsize]
    exact hlevels.product_mul_eq hdivides
  · intro level hlevel
    exact ⟨hsized.counts level, product_eq_zero_of_unsized hlevel⟩

end Context

/-- A record of an entry of ten bytes, which other records may refer to ahead of it. -/
def sizedEntry : AggregateRecord := ⟨0x1505, 0, 0, 0, 10, "_ENTRY"⟩

/-- Records of 150 bytes of rows of 48 bytes of entries; both leave a rest. -/
def paddedTable : RecordTable where
  rows := [(0x1000, .ok (.aggregate ⟨0x1505, 0, 0x80, 0, 0, "_ENTRY"⟩)),
    (0x1001, .ok (.array ⟨0x1000, 0x23, 48, ""⟩)),
    (0x1002, .ok (.array ⟨0x1001, 0x23, 150, ""⟩)),
    (0x1003, .ok (.aggregate sizedEntry))]

def paddedContext : Context :=
  ⟨paddedTable, Architecture.amd64.pointerSize, definedSizes [(0x1003, .aggregate sizedEntry)]⟩

/-- Three rows of four entries are 120 of the 150 bytes. -/
theorem paddedTable_rows :
    paddedTable.SizesNonneg ∧
      paddedTable.get 0x1003 = .ok (.aggregate sizedEntry) ∧
      paddedContext.record? 0x1002 = some (.array ⟨0x1001, 0x23, 150, ""⟩) ∧
      ∃ inner element,
        paddedContext.Levels 0x1002 (⟨0x1001, 0x23, 150, ""⟩ :: inner) element ∧
        paddedContext.translate 0x1002 = .array (.structRef "_ENTRY") [3, 4] 12 ∧
        12 * paddedContext.recordSize element ≤ 150 := by
  have hsizes : paddedTable.SizesNonneg := by
    apply RecordTable.sizesNonneg_of_rows
    simp [paddedTable, sizedEntry, TypeRecord.SizeNonneg]
  have hentry : paddedTable.get 0x1003 = .ok (.aggregate sizedEntry) := rfl
  have harray : paddedContext.record? 0x1002 = some (.array ⟨0x1001, 0x23, 150, ""⟩) := rfl
  have htranslate : paddedContext.translate 0x1002 =
      .array (.structRef "_ENTRY") [3, 4] 12 := by with_unfolding_all rfl
  obtain ⟨inner, element, T, dims, total, hlevels, -, htype, -, -, hfits, -⟩ :=
    Context.typeWithin_array_accounts hsizes .amd64 (by simpa using hentry) rfl harray chainLimit
  have hsame := htype.symm.trans htranslate
  cases hsame
  exact ⟨hsizes, hentry, harray, inner, element, hlevels, htranslate, hfits⟩

end KernelProfile.CodeView
