import KernelProfile.Proofs.CodeView.Array

/-! Arrays of forward declarations. An aggregate that is declared ahead is counted with the size of
its definition, so that it does not matter which of the two records an array refers to. An
enumeration that is declared ahead is counted with the underlying type that this record has itself,
and usually it has none. -/
namespace KernelProfile.CodeView

namespace Context

variable {c : Context} {x : ArrayRecord} {shape : Nesting} {i f index : Int}

theorem record?_builtin (c : Context) (h : index < firstRecordIndex) :
    c.record? index = some (.primitive index) := by
  rw [record?, RecordTable.get, if_pos h]
  rfl

/-- A built-in type has its size over any number of links. -/
theorem sizeWithin_builtin (c : Context) (h : index < firstRecordIndex) (links : Nat) :
    c.sizeWithin (links + 1) index = c.recordSize index := by
  rw [recordSize, sizeWithin, sizeWithin, record?_builtin c h]

/-- No type is the one without a size. -/
theorem recordSize_zero (c : Context) : c.recordSize 0 = 0 := by
  rw [recordSize, sizeWithin, record?_builtin c (by decide)]
  rfl

theorem ArrayOf.translate_aggregate (h : c.ArrayOf shape x i f) {r : AggregateRecord}
    (hr : c.record? f = some (.aggregate r)) :
    c.translate i =
      arrayOf (shape.layout x.byteSize (c.extent x) (.structRef (profileName r.name f))) := by
  refine h.translate_eq (typeWithin_aggregate hr) fun x' hx' => ?_
  rw [hr] at hx'
  cases hx'

theorem ArrayOf.translate_enumeration (h : c.ArrayOf shape x i f) {r : EnumRecord}
    (hr : c.record? f = some (.enumeration r)) :
    c.translate i =
      arrayOf (shape.layout x.byteSize (c.extent x) (.enumRef (profileName r.name f))) := by
  refine h.translate_eq (typeWithin_enumeration hr) fun x' hx' => ?_
  rw [hr] at hx'
  cases hx'

/-- An enumeration over a built-in type is counted with the size of that type. -/
theorem ArrayOf.extent_enumeration (h : c.ArrayOf shape x i f) {r : EnumRecord}
    (hr : c.record? f = some (.enumeration r)) (hbuiltin : r.underlying < firstRecordIndex) :
    c.extent x = countOf x.byteSize (c.recordSize r.underlying) := by
  refine h.extent_eq fun links => ?_
  rw [sizeWithin, hr]
  exact sizeWithin_builtin c hbuiltin links

end Context

variable {t : RecordTable} {pointerSize : Int} {c : Context} {shape : Nesting} {i f : Int}

/-- A forward declaration is counted with the size of the first definition of its name, and as
nothing where there is no definition. -/
theorem Context.ArrayOf.extent_forward {x : ArrayRecord} (h : c.ArrayOf shape x i f)
    (hc : t.context pointerSize = .ok c) {r : AggregateRecord}
    (hr : c.record? f = some (.aggregate r)) (hforward : r.isForward = true) :
    c.extent x = countOf x.byteSize
      (((definitions r.name t.listing.1).head?.map (·.2.size)).getD 0) :=
  h.extent_eq fun links => RecordTable.sizeWithin_forward hc hr hforward (links + 1)

/-- **Arrays of one byte size around one type.** Let two arrays be nested alike, modifiers apart,
one around a declaration of a name and the other around its only definition. For an aggregate both
are the same type, whose innermost extent is counted with the size of the definition. For an
enumeration they are the same type exactly if the two records lead to the same extent: always if
both have the same built-in type under them, and only where nothing is counted if the declaration
has none. -/
theorem translate_around_declaration {t : RecordTable} {pointerSize : Int} {c : Context}
    (hc : t.context pointerSize = .ok c) {name : String} (hname : isMadeUp name = false)
    {shape : Nesting} {x y : ArrayRecord} {i j f g : Int} (hx : c.ArrayOf shape x i f)
    (hy : c.ArrayOf shape y j g) (hsize : x.byteSize = y.byteSize) :
    (∀ r d, c.record? f = some (.aggregate r) → r.isForward = true → r.name = name →
      definitions name t.listing.1 = [(g, d)] →
        c.translate i = c.translate j ∧
          c.translate j =
            arrayOf (shape.layout y.byteSize (countOf y.byteSize d.size) (.structRef name))) ∧
    ∀ r d, c.record? f = some (.enumeration r) → r.name = name →
      c.record? g = some (.enumeration d) → d.name = name →
        (c.translate i = c.translate j ↔ c.extent x = c.extent y) ∧
          (r.underlying = d.underlying → r.underlying < firstRecordIndex →
            c.translate i = c.translate j) ∧
          (r.underlying = 0 → (c.translate i = c.translate j ↔ c.extent y = 0)) := by
  constructor
  · intro r d hr hforward hrname honly
    obtain ⟨hlisted, hdefines, hdname⟩ : (g, .aggregate d) ∈ t.listing.1 ∧ d.isForward = false ∧
        d.name = name := mem_definitions.mp (by rw [honly]; exact List.mem_singleton_self _)
    have hd : c.record? g = some (.aggregate d) := RecordTable.record?_of_listed hc hlisted
    -- both extents are counted with the size of the definition
    have hextentx : c.extent x = countOf x.byteSize d.size := by
      rw [hx.extent_forward hc hr hforward, hrname, honly]
      rfl
    have hextenty : c.extent y = countOf y.byteSize d.size :=
      hy.extent_eq fun links => c.sizeWithin_definition hd hdefines (links + 1)
    rw [hx.translate_aggregate hr, hy.translate_aggregate hd, hextentx, hextenty, hrname, hdname,
      profileName_declared hname, profileName_declared hname, hsize]
    exact ⟨rfl, rfl⟩
  · intro r d hr hrname hd hdname
    have hiff : c.translate i = c.translate j ↔ c.extent x = c.extent y := by
      rw [hx.translate_enumeration hr, hy.translate_enumeration hd, hrname, hdname,
        profileName_declared hname, profileName_declared hname, hsize, arrayOf_inj,
        Nesting.layout_inj]
    refine ⟨hiff, fun hsame hbuiltin => ?_, fun hnone => ?_⟩
    · rw [hiff, hx.extent_enumeration hr hbuiltin,
        hy.extent_enumeration hd (hsame ▸ hbuiltin), hsame, hsize]
    · have hzero : c.extent x = 0 := by
        rw [hx.extent_enumeration hr (by rw [hnone]; decide), hnone, c.recordSize_zero]
        rfl
      rw [hiff, hzero]
      exact eq_comm

/-- Records of a list's links and of an enumeration, each with a forward declaration and a
definition, and of arrays around all four. -/
def poolTable : RecordTable where
  rows := [
    (0x1000, .ok (.aggregate ⟨0x1505, 0, 0x80, 0, 0, "_LIST_ENTRY"⟩)),
    (0x1001, .ok (.fieldList ⟨[.member 3 0x603 0 "Flink", .member 3 0x603 8 "Blink"], none⟩)),
    (0x1002, .ok (.aggregate ⟨0x1505, 2, 0, 0x1001, 16, "_LIST_ENTRY"⟩)),
    (0x1003, .ok (.modifier 0x1000 1)),
    (0x1004, .ok (.array ⟨0x1003, 0x23, 64, ""⟩)),
    (0x1005, .ok (.array ⟨0x1004, 0x23, 128, ""⟩)),
    (0x1006, .ok (.array ⟨0x1002, 0x23, 64, ""⟩)),
    (0x1007, .ok (.array ⟨0x1006, 0x23, 128, ""⟩)),
    (0x1008, .ok (.enumeration ⟨0, 0x80, 0, 0, "_POOL_TYPE"⟩)),
    (0x1009, .ok (.fieldList ⟨[.enumerator 3 0 "u16" "NonPagedPool"], none⟩)),
    (0x100A, .ok (.enumeration ⟨1, 0, 0x74, 0x1009, "_POOL_TYPE"⟩)),
    (0x100B, .ok (.array ⟨0x1008, 0x23, 16, ""⟩)),
    (0x100C, .ok (.array ⟨0x100A, 0x23, 16, ""⟩))]

def poolContext : Context := ⟨poolTable, 8, .ofList [("_LIST_ENTRY", 16)]⟩

theorem context_poolTable : poolTable.context 8 = .ok poolContext := by
  with_unfolding_all rfl

/-- The array around the declared enumeration. -/
theorem arrayOf_declaredEnumeration :
    poolContext.ArrayOf .innermost ⟨0x1008, 0x23, 16, ""⟩ 0x100B 0x1008 :=
  ⟨1, 0, .innermost rfl, .refl _, by decide⟩

theorem arrayOf_definedEnumeration :
    poolContext.ArrayOf .innermost ⟨0x100A, 0x23, 16, ""⟩ 0x100C 0x100A :=
  ⟨1, 0, .innermost rfl, .refl _, by decide⟩

/-- The arrays of two times four links are one type, over a modifier to the declaration as directly
of the definition; the arrays of the enumeration would be if the defined one had no elements. -/
theorem poolTable_arrays :
    poolTable.context 8 = .ok poolContext ∧
      poolContext.translate 0x1005 = poolContext.translate 0x1007 ∧
      (poolContext.translate 0x100B = poolContext.translate 0x100C ↔
        poolContext.extent ⟨0x100A, 0x23, 16, ""⟩ = 0) := by
  have hdeclared : poolContext.ArrayOf (.direct 128 .innermost) ⟨0x1003, 0x23, 64, ""⟩
      0x1005 0x1000 :=
    ⟨2, 1, .direct (r := ⟨0x1004, 0x23, 128, ""⟩) rfl rfl (.innermost rfl), .step rfl (.refl _),
      by decide⟩
  have hdefined : poolContext.ArrayOf (.direct 128 .innermost) ⟨0x1002, 0x23, 64, ""⟩
      0x1007 0x1002 :=
    ⟨2, 0, .direct (r := ⟨0x1006, 0x23, 128, ""⟩) rfl rfl (.innermost rfl), .refl _, by decide⟩
  have haggregate := (translate_around_declaration context_poolTable
    (show isMadeUp "_LIST_ENTRY" = false by decide) hdeclared hdefined rfl).1
    ⟨0x1505, 0, 0x80, 0, 0, "_LIST_ENTRY"⟩ ⟨0x1505, 2, 0, 0x1001, 16, "_LIST_ENTRY"⟩ rfl rfl rfl
    (by decide)
  have henumeration := (translate_around_declaration context_poolTable
    (show isMadeUp "_POOL_TYPE" = false by decide) arrayOf_declaredEnumeration
    arrayOf_definedEnumeration rfl).2
    ⟨0, 0x80, 0, 0, "_POOL_TYPE"⟩ ⟨1, 0, 0x74, 0x1009, "_POOL_TYPE"⟩ rfl rfl rfl rfl
  exact ⟨context_poolTable, haggregate.1, henumeration.2.2 rfl⟩

/-- Four elements of the defined enumeration are none of the declared one. -/
theorem declared_enumeration_not_counted :
    poolTable.context 8 = .ok poolContext ∧ isMadeUp "_POOL_TYPE" = false ∧
      poolContext.ArrayOf .innermost ⟨0x1008, 0x23, 16, ""⟩ 0x100B 0x1008 ∧
      poolContext.ArrayOf .innermost ⟨0x100A, 0x23, 16, ""⟩ 0x100C 0x100A ∧
      poolContext.record? 0x1008 = some (.enumeration ⟨0, 0x80, 0, 0, "_POOL_TYPE"⟩) ∧
      (poolTable.listing.1.filter fun e =>
        match e.2 with
        | .enumeration r => !r.isForward && r.name == "_POOL_TYPE"
        | _ => false) = [(0x100A, .enumeration ⟨1, 0, 0x74, 0x1009, "_POOL_TYPE"⟩)] ∧
      poolContext.translate 0x100B = .array (.enumRef "_POOL_TYPE") [0] 0 ∧
      poolContext.translate 0x100C = .array (.enumRef "_POOL_TYPE") [4] 4 ∧
      poolContext.translate 0x100B ≠ poolContext.translate 0x100C := by
  have hdeclared : poolContext.translate 0x100B = .array (.enumRef "_POOL_TYPE") [0] 0 := by
    with_unfolding_all rfl
  have hdefined : poolContext.translate 0x100C = .array (.enumRef "_POOL_TYPE") [4] 4 := by
    with_unfolding_all rfl
  refine ⟨context_poolTable, by decide, arrayOf_declaredEnumeration, arrayOf_definedEnumeration,
    rfl, by decide, hdeclared, hdefined, ?_⟩
  rw [hdeclared, hdefined]
  decide

end KernelProfile.CodeView
