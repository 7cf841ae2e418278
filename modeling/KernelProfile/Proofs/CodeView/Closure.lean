import KernelProfile.Proofs.CodeView.Chain
import KernelProfile.Proofs.Reference

/-! Which references of the collected types resolve. A type is referred to by the name of a record,
be it the declaration or the definition of the type, and only definitions are collected, under the
same names. So a reference resolves exactly if some definition bears its name, wherever in the table
that stands, and a declaration leaves nothing behind but the references to it. -/
namespace KernelProfile.CodeView

/-- The reference to the type that a record stands for. -/
def TypeRecord.reference? (index : Int) : TypeRecord → Option Reference
  | .aggregate r => some (.aggregate (profileName r.name index))
  | .enumeration r => some (.enumeration (profileName r.name index))
  | _ => none

/-- Records stand in the order of their indices. -/
def RecordTable.Ordered (t : RecordTable) : Prop := (t.rows.map Prod.fst).Pairwise (· < ·)

/-- The enumerations that are no forward declarations, each with its index. -/
def enumerations (records : List (Int × TypeRecord)) : List (Int × EnumRecord) :=
  records.filterMap fun e =>
    match e.2 with
    | .enumeration r => if r.isForward then none else some (e.1, r)
    | _ => none

/-- The definitions of enumerations that are collected under a name. -/
def enumerationsUnder (name : String) (records : List (Int × TypeRecord)) :
    List (Int × EnumRecord) :=
  (enumerations records).filter fun e => profileName e.2.name e.1 = name

variable {records : List (Int × TypeRecord)} {t : RecordTable} {pointerSize : Int} {c : Context}
  {s : Collected}

theorem mem_enumerations {index : Int} {r : EnumRecord} :
    (index, r) ∈ enumerations records ↔
      (index, .enumeration r) ∈ records ∧ r.isForward = false := by
  simp only [enumerations, List.mem_filterMap]
  constructor
  · rintro ⟨⟨i, record⟩, hmem, h⟩
    cases record with
    | enumeration d =>
      dsimp only at h
      split at h
      · cases h
      · rename_i hforward
        cases h
        exact ⟨hmem, by simpa using hforward⟩
    | _ => cases h
  · rintro ⟨hmem, hforward⟩
    exact ⟨_, hmem, by simp [hforward]⟩

/-! ## Enumerations that are collected -/

namespace Context

/-- The fields of an enumeration's definition, none where a value is no variant. -/
def variantsOf (c : Context) (r : EnumRecord) : Table Variant :=
  ((c.fieldEntries r.fields).foldlM addEnumerator .empty).toOption.getD .empty

/-- The definition of an enumeration. -/
def enumerationOf (c : Context) (r : EnumRecord) : EnumDef :=
  ⟨c.translate r.underlying, c.variantsOf r⟩

theorem enumDef_eq_ok {d : EnumDef} {r : EnumRecord} (h : c.enumDef r = .ok d) :
    d = c.enumerationOf r := by
  obtain ⟨fields, hfields, hd⟩ := bind_eq_ok.mp h
  cases hd
  rw [enumerationOf, variantsOf, hfields]
  rfl

/-- The definition of an enumeration under its name. -/
def enumerationCall (c : Context) (e : Int × EnumRecord) : String × EnumDef :=
  (profileName e.2.name e.1, c.enumerationOf e.2)

end Context

/-- The step lemma: a record registers the definition that it is, if it is one of an enumeration. -/
theorem Collected.enums_add {s' : Collected} {index : Int} {record : TypeRecord}
    (h : s.add c index record = .ok s') :
    s'.types.enums = s.types.enums.registerAll (·.fields.size)
      ((enumerations [(index, record)]).map c.enumerationCall) := by
  rcases Collected.add_cases h with ⟨hpassed, rfl⟩ | ⟨r, d, rfl, -, -, rfl⟩ |
    ⟨r, d, rfl, hforward, hdef, rfl⟩
  · have hnone : enumerations [(index, record)] = [] := by
      cases record with
      | enumeration r => simpa [enumerations, TypeRecord.defines] using hpassed
      | _ => rfl
    rw [hnone]
    rfl
  · rfl
  · simp [enumerations, hforward, Table.registerAll, Context.enumerationCall,
      Context.enumDef_eq_ok hdef]

namespace RecordTable

/-- The enumerations are registered in the order of the records. -/
theorem enums_collect (hc : t.context pointerSize = .ok c) (hs : t.collect pointerSize = .ok s) :
    s.types.enums = Table.empty.registerAll (·.fields.size)
      ((enumerations t.listing.1).map c.enumerationCall) :=
  Collected.foldlM_registerAll (fun _ _ _ h => Collected.enums_add h) (collect_eq_ok hc hs)

/-- Under a name the first enumeration with the most fields is collected. -/
theorem get?_enums_collect (hc : t.context pointerSize = .ok c)
    (hs : t.collect pointerSize = .ok s) (name : String) (d : EnumDef) :
    s.types.enums.get? name = some d ↔
      ∃ e, Table.FirstLargest (fun e => (c.variantsOf e.2).size)
        (enumerationsUnder name t.listing.1) e ∧ c.enumerationOf e.2 = d := by
  rw [enums_collect hc hs]
  exact Table.get?_registerAll_map _ _ _ _

/-! ## Definitions of the records -/

/-- No record of a table whose types were collected has failed. -/
theorem exists_add (hc : t.context pointerSize = .ok c) (hs : t.collect pointerSize = .ok s)
    {e : Int × TypeRecord} (he : e ∈ t.listing.1) :
    ∃ s₁ s₂ : Collected, s₁.add c e.1 e.2 = .ok s₂ :=
  exists_step_of_foldlM (collect_eq_ok hc hs) he

theorem structDef_collect (hc : t.context pointerSize = .ok c)
    (hs : t.collect pointerSize = .ok s) {e : Int × AggregateRecord}
    (he : e ∈ aggregates t.listing.1) : c.structDef e.2 = .ok (c.definitionOf e.2) := by
  obtain ⟨hlisted, hforward⟩ := mem_aggregates.mp he
  obtain ⟨s₁, s₂, hadd⟩ := exists_add hc hs hlisted
  rcases Collected.add_cases hadd with ⟨hpassed, -⟩ | ⟨r, d, hr, -, hdef, -⟩ | ⟨r, d, hr, -⟩
  · simp [TypeRecord.defines, hforward] at hpassed
  · cases hr
    rw [hdef, Context.structDef_eq_ok hdef]
  · cases hr

theorem enumDef_collect (hc : t.context pointerSize = .ok c)
    (hs : t.collect pointerSize = .ok s) {e : Int × EnumRecord}
    (he : e ∈ enumerations t.listing.1) : c.enumDef e.2 = .ok (c.enumerationOf e.2) := by
  obtain ⟨hlisted, hforward⟩ := mem_enumerations.mp he
  obtain ⟨s₁, s₂, hadd⟩ := exists_add hc hs hlisted
  rcases Collected.add_cases hadd with ⟨hpassed, -⟩ | ⟨r, d, hr, -⟩ | ⟨r, d, hr, -, hdef, -⟩
  · simp [TypeRecord.defines, hforward] at hpassed
  · cases hr
  · cases hr
    rw [hdef, Context.enumDef_eq_ok hdef]

end RecordTable

/-! ## References -/

namespace Context

variable {ref : Reference} {i : Int}

/-- The elements behind directly nested arrays are led to by one link for each array. -/
theorem leads_innerExtents (c : Context) (levels : Nat) (i : Int) :
    ∃ n, c.Leads n i (c.innerExtents levels i).2 := by
  induction levels generalizing i with
  | zero => exact ⟨0, .refl i⟩
  | succ levels ih =>
    rw [innerExtents]
    split
    · rename_i r hr
      obtain ⟨n, hleads⟩ := ih r.element
      exact ⟨n + 1, .step hr rfl hleads⟩
    · exact ⟨0, .refl i⟩

/-- A type refers to what its links lead to: the reference in it is that of a record on its
chain. -/
theorem exists_reference {links : Nat} (h : (c.typeWithin links i).reference? = some ref) :
    ∃ n j record, c.Leads n i j ∧ c.record? j = some record ∧ record.reference? j = some ref := by
  fun_induction typeWithin c links i with
  | case4 links index r hr => exact ⟨0, index, _, .refl index, hr, h⟩
  | case5 links index r hr => exact ⟨0, index, _, .refl index, hr, h⟩
  | case6 links index r hr inner dims ih =>
    obtain ⟨n, j, record, hleads, hfound⟩ := ih h
    obtain ⟨m, hinner⟩ := c.leads_innerExtents chainLimit r.element
    exact ⟨m + n + 1, j, record, .step hr rfl (hinner.trans hleads), hfound⟩
  | case7 links index underlying attributes hr ih =>
    obtain ⟨n, j, record, hleads, hfound⟩ := ih h
    exact ⟨n + 1, j, record, .step hr rfl hleads, hfound⟩
  | case8 links index underlying length position hr ih =>
    obtain ⟨n, j, record, hleads, hfound⟩ := ih h
    exact ⟨n + 1, j, record, .step hr rfl hleads, hfound⟩
  | case9 links index underlying attributes hr ih =>
    obtain ⟨n, j, record, hleads, hfound⟩ := ih h
    exact ⟨n + 1, j, record, .step hr rfl hleads, hfound⟩
  | _ => cases h

/-- Moving a bit-field to its byte leaves what it refers to. -/
theorem reference?_memberAt (c : Context) (type offset : Int) :
    (c.memberAt type offset).type.reference? = (c.translate type).reference? := by
  unfold memberAt
  split
  · rename_i htype
    rw [htype]
    split <;> rfl
  · rfl

/-- The type of a member has the reference of a type that an entry of the field list names. -/
theorem exists_translate_of_field {entries : List FieldEntry} {fields : Table Member}
    (hfields : ∀ e ∈ fields.entries, ∃ j, e.2.type.reference? = (c.translate j).reference?) :
    ∀ e ∈ (entries.foldl c.addMember fields).entries,
      ∃ j, e.2.type.reference? = (c.translate j).reference? := by
  induction entries generalizing fields with
  | nil => exact hfields
  | cons entry entries ih =>
    refine ih ?_
    intro e he
    cases entry with
    | member attributes type offset name =>
      rcases Table.mem_entries_insert he with rfl | he
      · exact ⟨type, c.reference?_memberAt type offset⟩
      · exact hfields e he
    | _ => exact hfields e he

end Context

theorem RecordTable.exists_listed (hc : t.context pointerSize = .ok c) {ref : Reference} {j : Int}
    (h : (c.translate j).reference? = some ref) :
    ∃ e ∈ t.listing.1, e.2.reference? e.1 = some ref := by
  obtain ⟨hall, rfl⟩ := context_eq_ok hc
  obtain ⟨-, i, record, -, hrecord, href⟩ := Context.exists_reference h
  have hget : t.get i = .ok record := Context.record?_eq_some.mp hrecord
  have hrow : i ∈ t.rows.map Prod.fst := by
    refine mem_rows_of_get hget fun k hk => ?_
    rw [hk] at href
    cases href
  exact ⟨(i, record), mem_listing (congrArg Prod.snd (all_eq_ok.mp hall)) hrow hget, href⟩

/-! ## The order of the records -/

namespace RecordTable

theorem listing_sublist (t : RecordTable) :
    (t.listing.1.map Prod.fst).Sublist (t.rows.map Prod.fst) := by
  have hgo : ∀ rows, ((listing.go t rows).1.map Prod.fst).Sublist (rows.map Prod.fst) := by
    intro rows
    induction rows with
    | nil => exact .slnil
    | cons row rows ih =>
      rw [listing.go]
      split
      · exact List.nil_sublist _
      · exact ih.cons_cons row.1
  exact hgo t.rows

/-- A record is put where its index belongs. -/
theorem ordered_place {rows : List (Int × Except RecordError TypeRecord)}
    (h : (rows.map Prod.fst).Pairwise (· < ·)) (index : Int) (record : TypeRecord) :
    ((place index record rows).map Prod.fst).Pairwise (· < ·) ∧
      ∀ i ∈ (place index record rows).map Prod.fst, i = index ∨ i ∈ rows.map Prod.fst := by
  induction rows with
  | nil => simp [place]
  | cons row rows ih =>
    obtain ⟨i, r⟩ := row
    obtain ⟨hfirst, hrest⟩ := List.pairwise_cons.mp h
    obtain ⟨hplaced, hkeys⟩ := ih hrest
    rw [place]
    split
    · rename_i hlt
      refine ⟨List.pairwise_cons.mpr ⟨?_, h⟩, by simp⟩
      intro j hj
      rcases List.mem_cons.mp hj with rfl | hj
      · exact hlt
      · exact Int.lt_trans hlt (hfirst j hj)
    · split
      · rename_i hsame
        subst hsame
        exact ⟨h, fun j hj => .inr hj⟩
      · rename_i hle hne
        refine ⟨List.pairwise_cons.mpr ⟨?_, hplaced⟩, ?_⟩
        · intro j hj
          rcases hkeys j hj with rfl | hj
          · dsimp only
            omega
          · exact hfirst j hj
        · intro j hj
          rcases List.mem_cons.mp hj with rfl | hj
          · exact .inr List.mem_cons_self
          · exact (hkeys j hj).imp_right (List.mem_cons_of_mem _)

theorem ofRecords_ordered (records : List (Int × TypeRecord)) : (ofRecords records).Ordered := by
  have hfold : ∀ rows : List (Int × Except RecordError TypeRecord),
      (rows.map Prod.fst).Pairwise (· < ·) →
      ((records.foldl (fun rows e => place e.1 e.2 rows) rows).map Prod.fst).Pairwise (· < ·) := by
    induction records with
    | nil => exact fun _ h => h
    | cons e records ih => exact fun rows h => ih _ (ordered_place h e.1 e.2).1
  exact hfold [] .nil

end RecordTable

/-- The records of a stream are numbered in their order. -/
theorem TypeStream.table_ordered (s : TypeStream) : s.table.Ordered := by
  rw [RecordTable.Ordered, List.pairwise_iff_getElem]
  intro i j hi hj hlt
  simp only [TypeStream.table, List.getElem_map, List.getElem_mapIdx]
  omega

/-! ## Closure -/

theorem mem_names_aggregates {name : String} :
    name ∈ (aggregates records).map (fun e => profileName e.2.name e.1) ↔
      ∃ e ∈ records, e.2.reference? e.1 = some (.aggregate name) ∧ e.2.defines = true := by
  rw [List.mem_map]
  constructor
  · rintro ⟨⟨i, r⟩, he, rfl⟩
    obtain ⟨hmem, hforward⟩ := mem_aggregates.mp he
    exact ⟨_, hmem, rfl, by simp [TypeRecord.defines, hforward]⟩
  · rintro ⟨⟨i, record⟩, hmem, href, hdefines⟩
    cases record with
    | aggregate r =>
      cases href
      exact ⟨(i, r), mem_aggregates.mpr ⟨hmem, by simpa [TypeRecord.defines] using hdefines⟩, rfl⟩
    | _ => cases href

theorem mem_names_enumerations {name : String} :
    name ∈ (enumerations records).map (fun e => profileName e.2.name e.1) ↔
      ∃ e ∈ records, e.2.reference? e.1 = some (.enumeration name) ∧ e.2.defines = true := by
  rw [List.mem_map]
  constructor
  · rintro ⟨⟨i, r⟩, he, rfl⟩
    obtain ⟨hmem, hforward⟩ := mem_enumerations.mp he
    exact ⟨_, hmem, rfl, by simp [TypeRecord.defines, hforward]⟩
  · rintro ⟨⟨i, record⟩, hmem, href, hdefines⟩
    cases record with
    | enumeration r =>
      cases href
      exact ⟨(i, r), mem_enumerations.mpr ⟨hmem, by simpa [TypeRecord.defines] using hdefines⟩,
        rfl⟩
    | _ => cases href

namespace RecordTable

/-- **What is collected is closed.** Where all records can be read, the collected structures are
those that some definition among the records names, in the order of their first definitions, each as
the first of its definitions with the most fields says; and so for the enumerations. What a type
refers to is named by some record, and it is collected exactly if some definition has that name,
before or behind the reference. The first definition is the one with the lowest index where records
stand in the order of their indices. -/
theorem collect_closed (hs : t.collect pointerSize = .ok s) :
    ∃ c, t.context pointerSize = .ok c ∧ t.all = .ok t.listing.1 ∧
      s.types.structs.keys =
        ((aggregates t.listing.1).map fun e => profileName e.2.name e.1).eraseDups ∧
      (∀ name d, s.types.structs.get? name = some d ↔
        ∃ e, Table.FirstLargest (fun e => (c.fieldsOf e.2).size)
          (collectedUnder name t.listing.1) e ∧ c.structDef e.2 = .ok d) ∧
      s.types.enums.keys =
        ((enumerations t.listing.1).map fun e => profileName e.2.name e.1).eraseDups ∧
      (∀ name d, s.types.enums.get? name = some d ↔
        ∃ e, Table.FirstLargest (fun e => (c.variantsOf e.2).size)
          (enumerationsUnder name t.listing.1) e ∧ c.enumDef e.2 = .ok d) ∧
      (∀ ref, s.types.Mentions ref → ∃ e ∈ t.listing.1, e.2.reference? e.1 = some ref) ∧
      (∀ ref, s.types.Defines ref ↔
        ∃ e ∈ t.listing.1, e.2.reference? e.1 = some ref ∧ e.2.defines = true) ∧
      (t.Ordered → (t.listing.1.map Prod.fst).Pairwise (· < ·)) := by
  obtain ⟨c, hc, -⟩ := bind_eq_ok.mp hs
  have hstructs : ∀ name d, s.types.structs.get? name = some d ↔
      ∃ e, Table.FirstLargest (fun e => (c.fieldsOf e.2).size)
        (collectedUnder name t.listing.1) e ∧ c.structDef e.2 = .ok d := by
    intro name d
    rw [get?_collect hc hs]
    refine exists_congr fun e => and_congr_right fun he => ?_
    rw [structDef_collect hc hs (List.mem_filter.mp he.largest.1 |>.1), Except.ok.injEq]
  have henums : ∀ name d, s.types.enums.get? name = some d ↔
      ∃ e, Table.FirstLargest (fun e => (c.variantsOf e.2).size)
        (enumerationsUnder name t.listing.1) e ∧ c.enumDef e.2 = .ok d := by
    intro name d
    rw [get?_enums_collect hc hs]
    refine exists_congr fun e => and_congr_right fun he => ?_
    rw [enumDef_collect hc hs (List.mem_filter.mp he.largest.1 |>.1), Except.ok.injEq]
  have hstructKeys : s.types.structs.keys =
      ((aggregates t.listing.1).map fun e => profileName e.2.name e.1).eraseDups := by
    rw [structs_collect hc hs, Table.keys_registerAll, List.map_map]
    simp only [Table.keys_empty, List.nil_append, List.removeAll_nil]
    rfl
  have henumKeys : s.types.enums.keys =
      ((enumerations t.listing.1).map fun e => profileName e.2.name e.1).eraseDups := by
    rw [enums_collect hc hs, Table.keys_registerAll, List.map_map]
    simp only [Table.keys_empty, List.nil_append, List.removeAll_nil]
    rfl
  refine ⟨c, hc, (context_eq_ok hc).1, hstructKeys, hstructs, henumKeys, henums, ?_, ?_, ?_⟩
  · intro ref hmention
    cases hmention with
    | subtype he href =>
      obtain ⟨e, -, hdef⟩ := (henums _ _).mp (Table.get?_eq_some_iff.mpr he)
      rw [Context.enumDef_eq_ok hdef] at href
      exact exists_listed hc href
    | field hd hm href =>
      obtain ⟨e, -, hdef⟩ := (hstructs _ _).mp (Table.get?_eq_some_iff.mpr hd)
      rw [Context.structDef_eq_ok hdef] at hm
      obtain ⟨j, hj⟩ := Context.exists_translate_of_field (by simp) _ hm
      exact exists_listed hc (hj ▸ href)
  · intro ref
    cases ref with
    | aggregate name =>
      rw [TypeCollection.Defines, hstructKeys, List.mem_eraseDups, mem_names_aggregates]
    | enumeration name =>
      rw [TypeCollection.Defines, henumKeys, List.mem_eraseDups, mem_names_enumerations]
  · exact fun hordered => hordered.sublist t.listing_sublist

end RecordTable

/-- Records of a node that is declared before it is defined, first without fields and then with
them, of its state, of an owner that is declared only, and of a union without a name. -/
def nodeTable : RecordTable where
  rows := [
    (0x1000, .ok (.aggregate ⟨0x1505, 0, 0x80, 0, 0, "_NODE"⟩)),
    (0x1001, .ok (.pointer 0x1000 0)),
    (0x1002, .ok (.aggregate ⟨0x1505, 0, 0x80, 0, 0, "_OWNER"⟩)),
    (0x1003, .ok (.pointer 0x1002 0)),
    (0x1004, .ok (.enumeration ⟨0, 0x80, 0, 0, "_STATE"⟩)),
    (0x1005, .ok (.fieldList ⟨[.member 3 0x1001 0 "Next", .member 3 0x1003 8 "Owner",
      .member 3 0x1004 16 "State"], none⟩)),
    (0x1006, .ok (.aggregate ⟨0x1505, 0, 0, 0, 24, "_NODE"⟩)),
    (0x1007, .ok (.aggregate ⟨0x1506, 0, 0, 0, 8, "<unnamed-tag>"⟩)),
    (0x1008, .ok (.aggregate ⟨0x1505, 3, 0, 0x1005, 24, "_NODE"⟩)),
    (0x1009, .ok (.fieldList ⟨[.enumerator 3 0 "u16" "Free", .enumerator 3 1 "u16" "Busy"], none⟩)),
    (0x100A, .ok (.enumeration ⟨2, 0, 0x74, 0x1009, "_STATE"⟩))]

def nodeDef : StructDef :=
  ⟨.structType, 24, .ofList [("Next", ⟨0, .pointer (.structRef "_NODE")⟩),
    ("Owner", ⟨8, .pointer (.structRef "_OWNER")⟩), ("State", ⟨16, .enumRef "_STATE"⟩)]⟩

def nodeTypes : Collected where
  types := {
    enums := .ofList [("_STATE", ⟨.base .i32,
      .ofList [("Free", ⟨.u16, 0, by decide⟩), ("Busy", ⟨.u16, 1, by decide⟩)]⟩)]
    structs := .ofList [("_NODE", nodeDef), ("__anonymous_1007", ⟨.unionType, 8, .empty⟩)] }
  count := 4

theorem collect_nodeTable : nodeTable.collect 8 = .ok nodeTypes := by
  with_unfolding_all rfl

/-- The node refers to itself and to its owner. The one resolves, though the definition stands
behind the reference, and the other does not. -/
theorem nodeTable_references :
    nodeTable.collect 8 = .ok nodeTypes ∧
      nodeTypes.types.structs.keys = ["_NODE", "__anonymous_1007"] ∧
      nodeTypes.types.Defines (.aggregate "_NODE") ∧
      (∃ e ∈ nodeTable.listing.1, e.2.reference? e.1 = some (.aggregate "_OWNER")) ∧
      ¬ nodeTypes.types.Defines (.aggregate "_OWNER") := by
  obtain ⟨c, -, -, hkeys, -, -, -, hmention, hdefines, -⟩ :=
    RecordTable.collect_closed collect_nodeTable
  have hnode : ("_NODE", nodeDef) ∈ nodeTypes.types.structs.entries := by decide
  have howner : ("Owner", ⟨8, .pointer (.structRef "_OWNER")⟩) ∈ nodeDef.fields.entries := by
    decide
  refine ⟨collect_nodeTable, ?_, ?_, ?_, ?_⟩
  · rw [hkeys]
    decide
  · rw [hdefines]
    decide
  · exact hmention _ (.field hnode howner rfl)
  · rw [hdefines]
    decide

end KernelProfile.CodeView
