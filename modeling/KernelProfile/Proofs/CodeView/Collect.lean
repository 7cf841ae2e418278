import KernelProfile.Proofs.CodeView.Decode

/-! Collecting definitions from decoded records. A table of sound records gives all its definitions
or the fault of a record that cannot be read; no aggregate is without a kind and no enumerator
without a variant. -/
namespace KernelProfile.CodeView

/-- Every record of a table that can be read is sound. -/
def RecordTable.Sound (t : RecordTable) : Prop :=
  ∀ row ∈ t.rows, ∀ r, row.2 = .ok r → r.Sound

namespace RecordTable

variable {t : RecordTable}

theorem all_eq_ok {records : List (Int × TypeRecord)} :
    t.all = .ok records ↔ t.listing = (records, none) := by
  unfold RecordTable.all
  split
  · rename_i rs hrs
    rw [hrs]
    constructor
    · intro h
      cases h
      rfl
    · intro h
      cases h
      rfl
  · rename_i rs e hrs
    rw [hrs]
    constructor <;> intro h <;> cases h

/-- The listing keeps to the rows: it visits them in order with what is looked up under their
indices, all of them or up to one whose index has a fault. -/
theorem listing_go (rows : List (Int × Except RecordError TypeRecord)) :
    (∀ (k : Nat) e, (listing.go t rows).1[k]? = some e →
      (rows.map Prod.fst)[k]? = some e.1 ∧ t.get e.1 = .ok e.2) ∧
    ((listing.go t rows).2 = none → (listing.go t rows).1.length = rows.length) ∧
    ∀ e, (listing.go t rows).2 = some e → ∃ index,
      (rows.map Prod.fst)[(listing.go t rows).1.length]? = some index ∧ t.get index = .error e := by
  induction rows with
  | nil => simp [listing.go]
  | cons row rows ih =>
    obtain ⟨index, unread⟩ := row
    obtain ⟨hvisited, hwhole, hfault⟩ := ih
    rw [listing.go]
    cases hget : t.get index with
    | error e => simpa using hget
    | ok record =>
      refine ⟨?_, fun hnone => congrArg (· + 1) (hwhole hnone), hfault⟩
      rintro (_ | k) e he
      · cases he
        exact ⟨rfl, hget⟩
      · exact hvisited k e he

/-- What is listed under an index is the record of the index. -/
theorem get_of_mem_listing {e : Int × TypeRecord} (h : e ∈ t.listing.1) : t.get e.1 = .ok e.2 := by
  obtain ⟨k, hk⟩ := List.mem_iff_getElem?.mp h
  exact ((listing_go t.rows).1 k e hk).2

/-- Where all records can be read, the listing has every row. -/
theorem mem_listing (hall : t.listing.2 = none) {index : Int} {record : TypeRecord}
    (hrow : index ∈ t.rows.map Prod.fst) (hget : t.get index = .ok record) :
    (index, record) ∈ t.listing.1 := by
  obtain ⟨hvisited, hwhole, -⟩ := listing_go (t := t) t.rows
  obtain ⟨k, hk⟩ := List.mem_iff_getElem?.mp hrow
  have hlt : k < t.listing.1.length := by
    have hrows := (List.getElem?_eq_some_iff.mp hk).1
    rw [List.length_map, ← hwhole hall] at hrows
    exact hrows
  obtain ⟨hindex, hrecord⟩ := hvisited k t.listing.1[k] (List.getElem?_eq_getElem hlt)
  rw [hk, Option.some.injEq] at hindex
  rw [hindex, hrecord, Except.ok.injEq] at hget
  rw [hindex, ← hget]
  exact List.getElem_mem hlt

/-- A record that stands for no built-in type has a row. -/
theorem mem_rows_of_get {index : Int} {record : TypeRecord} (h : t.get index = .ok record)
    (hother : ∀ i, record ≠ .primitive i) : index ∈ t.rows.map Prod.fst := by
  unfold RecordTable.get at h
  split at h
  · cases h
    exact absurd rfl (hother index)
  · split at h
    · rename_i row hlookup
      obtain ⟨before, behind, hrows, -⟩ := List.lookup_eq_some_iff.mp hlookup
      rw [hrows]
      simp
    · cases h

/-- There is a context where every record is listed, and it is that of the listing. -/
theorem context_eq_ok {pointerSize : Int} {c : Context} (h : t.context pointerSize = .ok c) :
    t.all = .ok t.listing.1 ∧ c = ⟨t, pointerSize, definedSizes t.listing.1⟩ := by
  obtain ⟨records, hall, hc⟩ := bind_eq_ok.mp h
  have hlisting : t.listing.1 = records := congrArg Prod.fst (all_eq_ok.mp hall)
  cases hc
  rw [hlisting]
  exact ⟨hall, rfl⟩

theorem Sound.get (ht : t.Sound) {index : Int} {r : TypeRecord} (h : t.get index = .ok r) :
    r.Sound := by
  unfold RecordTable.get at h
  split at h
  · cases h
    trivial
  · split at h
    · rename_i record hlookup
      obtain ⟨before, behind, hrows, -⟩ := List.lookup_eq_some_iff.mp hlookup
      exact ht (index, record) (by simp [hrows]) r h
    · cases h

theorem Sound.listing (ht : t.Sound) : ∀ e ∈ t.listing.1, TypeRecord.Sound e.2 :=
  fun _ he => ht.get (get_of_mem_listing he)

theorem Sound.all (ht : t.Sound) {records : List (Int × TypeRecord)}
    (h : t.all = .ok records) : ∀ e ∈ records, e.2.Sound := by
  have hlist := ht.listing
  rw [all_eq_ok.mp h] at hlist
  exact hlist

end RecordTable

/-- The records of a stream are sound, whatever its bytes are. -/
theorem TypeStream.table_sound (s : TypeStream) : s.table.Sound := by
  intro row hrow r hr
  simp only [TypeStream.table, List.mem_mapIdx] at hrow
  obtain ⟨i, hi, rfl⟩ := hrow
  exact decodeRecord_sound hr

namespace Context

variable {c : Context}

theorem record?_eq_some {index : Int} {record : TypeRecord} :
    c.record? index = some record ↔ c.records.get index = .ok record := by
  rw [record?]
  cases c.records.get index <;> simp [Except.toOption]

/-- The entries of a field list are sound through all its continuations. -/
theorem fieldEntriesFrom_sound (hc : c.records.Sound) (lists : Nat) :
    ∀ (visited : List Int) (index : Option Int),
      ∀ e ∈ c.fieldEntriesFrom lists visited index, e.Sound := by
  induction lists with
  | zero =>
    intro visited index e he
    simp [fieldEntriesFrom] at he
  | succ lists ih =>
    intro visited index e he
    cases index with
    | none => simp [fieldEntriesFrom] at he
    | some index =>
      rw [fieldEntriesFrom] at he
      split at he
      · simp at he
      · split at he
        · rename_i r hr
          have hsound : (TypeRecord.fieldList r).Sound := hc.get (record?_eq_some.mp hr)
          rcases List.mem_append.mp he with he | he
          · exact hsound e he
          · exact ih _ _ e he
        · simp at he

theorem exists_addEnumerator {e : FieldEntry} (he : e.Sound) (fields : Table Variant) :
    ∃ fields', addEnumerator fields e = .ok fields' := by
  cases e with
  | enumerator attributes value label name =>
    obtain ⟨v, hv⟩ := he
    exact ⟨fields.insert name v, by simp only [addEnumerator, hv]⟩
  | member attributes type offset name => exact ⟨fields, rfl⟩
  | other leaf name => exact ⟨fields, rfl⟩

/-- Every enumeration has its definition: each value is a variant of its label's kind. -/
theorem exists_enumDef (hc : c.records.Sound) (r : EnumRecord) : ∃ d, c.enumDef r = .ok d := by
  -- a fold that fails on none of its entries fails nowhere
  have hentries : ∀ e ∈ c.fieldEntries r.fields, e.Sound :=
    fieldEntriesFrom_sound hc _ [] (some r.fields)
  obtain ⟨fields, hfields⟩ := exists_foldlM_ok
    (fun e he fields => exists_addEnumerator (hentries e he) fields) Table.empty
  refine ⟨⟨c.translate r.underlying, fields⟩, ?_⟩
  rw [enumDef, hfields]
  rfl

theorem exists_structDef {r : AggregateRecord} (hr : (structKind? r.leaf).isSome = true) :
    ∃ d, c.structDef r = .ok d := by
  obtain ⟨kind, hkind⟩ := Option.isSome_iff_exists.mp hr
  refine ⟨⟨kind, r.size, (c.fieldEntries r.fields).foldl c.addMember .empty⟩, ?_⟩
  simp only [structDef, hkind]

end Context

/-- Registering a sound record does not fail. -/
theorem Collected.exists_add {c : Context} (hc : c.records.Sound) {r : TypeRecord} (hr : r.Sound)
    (index : Int) (s : Collected) : ∃ s', s.add c index r = .ok s' := by
  cases r with
  | aggregate r =>
    obtain ⟨d, hd⟩ := c.exists_structDef hr
    simp only [Collected.add]
    split
    · exact ⟨s, rfl⟩
    · rw [hd]
      exact ⟨_, rfl⟩
  | enumeration r =>
    obtain ⟨d, hd⟩ := c.exists_enumDef hc r
    simp only [Collected.add]
    split
    · exact ⟨s, rfl⟩
    · rw [hd]
      exact ⟨_, rfl⟩
  | _ => exact ⟨s, rfl⟩

/-- Collecting from sound records fails with nothing but the fault of a record. -/
theorem RecordTable.Sound.collect_fails {t : RecordTable} (ht : t.Sound) (pointerSize : Int) :
    FailsOnly (fun e => ∃ f, e = .record f) (t.collect pointerSize) := by
  have hall : FailsOnly (fun e => ∃ f, e = CollectError.record f) t.all := by
    unfold RecordTable.all
    split
    · exact .ok _
    · exact .error ⟨_, rfl⟩
  refine .bind (hall.bind fun records _ => .ok _) ?_
  intro c hcontext
  have hc : c.records = t := by rw [(context_eq_ok hcontext).2]
  refine hall.bind ?_
  intro records hrecords
  have hsound := ht.all hrecords
  have hrun : ∃ s, records.foldlM
      (fun (s : Collected) (e : Int × TypeRecord) => s.add c e.1 e.2) {} = .ok s :=
    exists_foldlM_ok (fun e he s => Collected.exists_add (hc ▸ ht) (hsound e he) e.1 s) {}
  obtain ⟨s, hs⟩ := hrun
  intro e he
  have hfail : records.foldlM
      (fun (s : Collected) (e : Int × TypeRecord) => s.add c e.1 e.2) {} = .error e := he
  rw [hs] at hfail
  cases hfail

end KernelProfile.CodeView
