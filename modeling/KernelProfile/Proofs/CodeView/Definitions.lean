import KernelProfile.Proofs.CodeView.Collect
import KernelProfile.Proofs.Merge
import KernelProfile.Proofs.Table

/-! Definitions of one name. A table of records may define a name more than once. The size that a
forward declaration of the name stands for is the first definition's, while what is collected under
the name is the first definition with the most fields. -/
namespace KernelProfile.CodeView

/-- The aggregates that are no forward declarations, each with its index. -/
def aggregates (records : List (Int × TypeRecord)) : List (Int × AggregateRecord) :=
  records.filterMap fun e =>
    match e.2 with
    | .aggregate r => if r.isForward then none else some (e.1, r)
    | _ => none

/-- The definitions of a declared name. -/
def definitions (name : String) (records : List (Int × TypeRecord)) :
    List (Int × AggregateRecord) :=
  (aggregates records).filter fun e => e.2.name = name

/-- The definitions that are collected under a name, whether they declare it or it is made for
them. -/
def collectedUnder (name : String) (records : List (Int × TypeRecord)) :
    List (Int × AggregateRecord) :=
  (aggregates records).filter fun e => profileName e.2.name e.1 = name

variable {records : List (Int × TypeRecord)} {name : String} {index : Int} {r : AggregateRecord}

/-- A declared name is the profile's. -/
theorem profileName_declared (h : isMadeUp name = false) (index : Int) :
    profileName name index = name := by
  rw [profileName, h]
  rfl

theorem mem_aggregates :
    (index, r) ∈ aggregates records ↔ (index, .aggregate r) ∈ records ∧ r.isForward = false := by
  simp only [aggregates, List.mem_filterMap]
  constructor
  · rintro ⟨⟨i, record⟩, hmem, h⟩
    cases record with
    | aggregate d =>
      dsimp only at h
      split at h
      · cases h
      · rename_i hforward
        cases h
        exact ⟨hmem, by simpa using hforward⟩
    | _ => cases h
  · rintro ⟨hmem, hforward⟩
    exact ⟨_, hmem, by simp [hforward]⟩

theorem mem_definitions :
    (index, r) ∈ definitions name records ↔
      (index, .aggregate r) ∈ records ∧ r.isForward = false ∧ r.name = name := by
  simp only [definitions, List.mem_filter, mem_aggregates, decide_eq_true_eq, and_assoc]

/-- The definitions of a declared name are collected under it. -/
theorem definitions_subset_collectedUnder (h : isMadeUp name = false) :
    definitions name records ⊆ collectedUnder name records := by
  intro e he
  simp only [definitions, collectedUnder, List.mem_filter, decide_eq_true_eq] at he ⊢
  obtain ⟨hmem, rfl⟩ := he
  exact ⟨hmem, profileName_declared h e.1⟩

theorem aggregates_cons (e : Int × TypeRecord) (rest : List (Int × TypeRecord)) :
    aggregates (e :: rest) = aggregates [e] ++ aggregates rest := by
  rw [aggregates, aggregates, aggregates, ← List.filterMap_append]
  rfl

/-! ## Sizes of forward declarations -/

/-- The sizes known with one more record. -/
def noteSize (sizes : Table Int) (e : Int × TypeRecord) : Table Int :=
  match e.2 with
  | .aggregate r =>
    if r.isForward || sizes.contains r.name then sizes else sizes.insert r.name r.size
  | _ => sizes

/-- The step lemma: a size that is known stays. -/
theorem get?_noteSize (sizes : Table Int) (e : Int × TypeRecord) :
    (noteSize sizes e).get? name =
      (sizes.get? name).or ((definitions name [e]).head?.map (·.2.size)) := by
  obtain ⟨i, record⟩ := e
  cases record with
  | aggregate d =>
    by_cases hforward : d.isForward
    · simp [noteSize, definitions, aggregates, hforward]
    · by_cases hname : d.name = name
      · subst hname
        cases hsize : sizes.get? d.name with
        | none => simp [noteSize, definitions, aggregates, hforward, Table.contains, hsize,
            Table.get?_insert]
        | some size => simp [noteSize, definitions, aggregates, hforward, Table.contains, hsize]
      · have hother : name ≠ d.name := Ne.symm hname
        have hkeep : (noteSize sizes (i, .aggregate d)).get? name = sizes.get? name := by
          dsimp only [noteSize]
          split
          · rfl
          · rw [Table.get?_insert, if_neg hother]
        rw [hkeep]
        simp [definitions, aggregates, hforward, hname]
  | _ => simp [noteSize, definitions, aggregates]

/-- The run lemma: the first definition's size is the one that counts. -/
theorem get?_foldl_noteSize (sizes : Table Int) :
    (records.foldl noteSize sizes).get? name =
      (sizes.get? name).or ((definitions name records).head?.map (·.2.size)) := by
  induction records generalizing sizes with
  | nil => simp [definitions, aggregates]
  | cons e rest ih =>
    rw [List.foldl_cons, ih, get?_noteSize, Option.or_assoc]
    congr 1
    rw [definitions, definitions, definitions, aggregates_cons e rest, List.filter_append,
      List.head?_append]
    cases (List.filter _ (aggregates [e])).head? <;> rfl

theorem get?_definedSizes (records : List (Int × TypeRecord)) (name : String) :
    (definedSizes records).get? name = (definitions name records).head?.map (·.2.size) :=
  get?_foldl_noteSize .empty

/-! ## Tables of records -/

namespace RecordTable

variable {t : RecordTable} {pointerSize : Int} {c : Context}

theorem record?_of_listed (h : t.context pointerSize = .ok c) {e : Int × TypeRecord}
    (he : e ∈ t.listing.1) : c.record? e.1 = some e.2 := by
  obtain ⟨-, rfl⟩ := context_eq_ok h
  rw [Context.record?, get_of_mem_listing he]
  rfl

/-- A forward declaration stands for the size of the first definition of its name. -/
theorem sizeWithin_forward (h : t.context pointerSize = .ok c)
    (hr : c.record? index = some (.aggregate r)) (hforward : r.isForward = true) (links : Nat) :
    c.sizeWithin (links + 1) index =
      ((definitions r.name t.listing.1).head?.map (·.2.size)).getD 0 := by
  obtain ⟨-, rfl⟩ := context_eq_ok h
  rw [← get?_definedSizes]
  simp [Context.sizeWithin, hr, hforward]

end RecordTable

theorem Context.sizeWithin_definition {c : Context} (hr : c.record? index = some (.aggregate r))
    (hdefines : r.isForward = false) (links : Nat) : c.sizeWithin (links + 1) index = r.size := by
  simp [sizeWithin, hr, hdefines]

/-! ## What is collected -/

namespace Context

/-- The fields of an aggregate's definition. -/
def fieldsOf (c : Context) (r : AggregateRecord) : Table Member :=
  (c.fieldEntries r.fields).foldl c.addMember .empty

/-- The definition of an aggregate, a structure's where its leaf is not that of an aggregate. -/
def definitionOf (c : Context) (r : AggregateRecord) : StructDef :=
  ⟨(structKind? r.leaf).getD .structType, r.size, c.fieldsOf r⟩

theorem structDef_eq_ok {c : Context} {d : StructDef} (h : c.structDef r = .ok d) :
    d = c.definitionOf r := by
  unfold structDef at h
  split at h
  · cases h
  · rename_i kind hkind
    cases h
    rw [definitionOf, hkind]
    rfl

/-- The definition of an aggregate under its name. -/
def callOf (c : Context) (e : Int × AggregateRecord) : String × StructDef :=
  (profileName e.2.name e.1, c.definitionOf e.2)

end Context

/-- A record that is more than the declaration of a type. -/
def TypeRecord.defines : TypeRecord → Bool
  | .aggregate r => !r.isForward
  | .enumeration r => !r.isForward
  | _ => false

variable {c : Context}

/-- A record is passed over, or it is registered as what it defines. -/
theorem Collected.add_cases {s s' : Collected} {record : TypeRecord}
    (h : s.add c index record = .ok s') :
    (record.defines = false ∧ s' = s) ∨
    (∃ r d, record = .aggregate r ∧ r.isForward = false ∧ c.structDef r = .ok d ∧
      s' = ⟨{ s.types with
        structs := (s.types.structs.register (·.fields.size) (profileName r.name index) d).1 },
        s.count + 1⟩) ∨
    (∃ r d, record = .enumeration r ∧ r.isForward = false ∧ c.enumDef r = .ok d ∧
      s' = ⟨{ s.types with
        enums := (s.types.enums.register (·.fields.size) (profileName r.name index) d).1 },
        s.count + 1⟩) := by
  cases record with
  | aggregate r =>
    dsimp only [Collected.add] at h
    by_cases hforward : r.isForward
    · rw [if_pos hforward] at h
      cases h
      exact .inl ⟨by simp [TypeRecord.defines, hforward], rfl⟩
    · rw [if_neg hforward] at h
      obtain ⟨d, hdef, hrest⟩ := bind_eq_ok.mp h
      cases hrest
      exact .inr (.inl ⟨r, d, rfl, by simpa using hforward, hdef, rfl⟩)
  | enumeration r =>
    dsimp only [Collected.add] at h
    by_cases hforward : r.isForward
    · rw [if_pos hforward] at h
      cases h
      exact .inl ⟨by simp [TypeRecord.defines, hforward], rfl⟩
    · rw [if_neg hforward] at h
      obtain ⟨d, hdef, hrest⟩ := bind_eq_ok.mp h
      cases hrest
      exact .inr (.inr ⟨r, d, rfl, by simpa using hforward, hdef, rfl⟩)
  | _ =>
    cases h
    exact .inl ⟨rfl, rfl⟩

/-- The step lemma: a record registers the definition that it is, if it is one of an aggregate. -/
theorem Collected.structs_add {s s' : Collected} {record : TypeRecord}
    (h : s.add c index record = .ok s') :
    s'.types.structs = s.types.structs.registerAll (·.fields.size)
      ((aggregates [(index, record)]).map c.callOf) := by
  rcases Collected.add_cases h with ⟨hpassed, rfl⟩ | ⟨r, d, rfl, hforward, hdef, rfl⟩ |
    ⟨r, d, rfl, -, -, rfl⟩
  · have hnone : aggregates [(index, record)] = [] := by
      cases record with
      | aggregate r => simpa [aggregates, TypeRecord.defines] using hpassed
      | _ => rfl
    rw [hnone]
    rfl
  · simp [aggregates, hforward, Table.registerAll, Context.callOf, Context.structDef_eq_ok hdef]
  · rfl

/-- The run lemma for either kind of definition: what the records define is registered in their
order. -/
theorem Collected.foldlM_registerAll {α β : Type} {fieldCount : α → Nat}
    {table : TypeCollection → Table α} {pick : Int × TypeRecord → Option β}
    {call : β → String × α}
    (hstep : ∀ (s s' : Collected) (e : Int × TypeRecord), s.add c e.1 e.2 = .ok s' →
      table s'.types = (table s.types).registerAll fieldCount (([e].filterMap pick).map call))
    {s s' : Collected}
    (h : records.foldlM (fun (s : Collected) e => s.add c e.1 e.2) s = .ok s') :
    table s'.types =
      (table s.types).registerAll fieldCount ((records.filterMap pick).map call) := by
  induction records generalizing s with
  | nil =>
    cases h
    rfl
  | cons e rest ih =>
    rw [List.foldlM_cons] at h
    obtain ⟨mid, hmid, hrest⟩ := bind_eq_ok.mp h
    have hsplit : (e :: rest).filterMap pick = [e].filterMap pick ++ rest.filterMap pick := by
      rw [← List.filterMap_append]
      rfl
    rw [ih hrest, hstep s mid e hmid, hsplit, List.map_append, Table.registerAll,
      Table.registerAll, Table.registerAll, List.foldl_append]

/-- What is collected comes from a run over all records of the table. -/
theorem RecordTable.collect_eq_ok {t : RecordTable} {pointerSize : Int} {s : Collected}
    (hc : t.context pointerSize = .ok c) (hs : t.collect pointerSize = .ok s) :
    t.listing.1.foldlM (fun (s : Collected) e => s.add c e.1 e.2) {} = .ok s := by
  obtain ⟨hall, -⟩ := context_eq_ok hc
  rw [RecordTable.collect, hc, hall] at hs
  exact hs

/-- The structures are registered in the order of the records. -/
theorem RecordTable.structs_collect {t : RecordTable} {pointerSize : Int} {s : Collected}
    (hc : t.context pointerSize = .ok c) (hs : t.collect pointerSize = .ok s) :
    s.types.structs = Table.empty.registerAll (·.fields.size)
      ((aggregates t.listing.1).map c.callOf) :=
  Collected.foldlM_registerAll (fun _ _ _ h => Collected.structs_add h) (collect_eq_ok hc hs)

/-- Under a name the first definition with the most fields is collected. -/
theorem RecordTable.get?_collect {t : RecordTable} {pointerSize : Int} {s : Collected}
    (hc : t.context pointerSize = .ok c) (hs : t.collect pointerSize = .ok s) (name : String)
    (d : StructDef) :
    s.types.structs.get? name = some d ↔
      ∃ e, Table.FirstLargest (fun e => (c.fieldsOf e.2).size)
        (collectedUnder name t.listing.1) e ∧ c.definitionOf e.2 = d := by
  rw [structs_collect hc hs]
  exact Table.get?_registerAll_map _ _ _ _

end KernelProfile.CodeView
