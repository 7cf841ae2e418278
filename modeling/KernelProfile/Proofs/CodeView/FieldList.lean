import KernelProfile.Proofs.CodeView.Array

/-! Field lists. The entries of a definition may stand in several lists, each of which names the one
that it goes on in, and the records may link lists in any way. Reading them ends because no list is
entered twice. How a list is cut into linked ones does not show in the definition, and neither does
where they are stored: nothing else of a table can tell the pieces from records that it has not. -/
namespace KernelProfile.CodeView

/-- A table with field lists put under their indices. -/
def RecordTable.store (t : RecordTable) (lists : List (Int × FieldListRecord)) : RecordTable where
  rows := lists.foldl (fun rows l => place l.1 (.fieldList l.2) rows) t.rows

/-- Pieces of a field list, each of which goes on in the next one, and the last one elsewhere. -/
def linked (last : Option Int) : List (Int × List FieldEntry) → List (Int × FieldListRecord)
  | [] => []
  | p :: rest => (p.1, ⟨p.2, (rest.head?.map Prod.fst).or last⟩) :: linked last rest

theorem keys_linked (last : Option Int) (pieces : List (Int × List FieldEntry)) :
    (linked last pieces).map Prod.fst = pieces.map Prod.fst := by
  induction pieces with
  | nil => rfl
  | cons p rest ih => simp only [linked, List.map_cons, ih]

theorem entries_linked (last : Option Int) (pieces : List (Int × List FieldEntry)) :
    (linked last pieces).flatMap (fun l => l.2.entries) = pieces.flatMap Prod.snd := by
  induction pieces with
  | nil => rfl
  | cons p rest ih => simp only [linked, List.flatMap_cons, ih]

/-- A field list in pieces that are stored under indices of their own, none of which a table uses
otherwise. The last piece goes on nowhere or in a piece that was read before. -/
structure Pieces (t : RecordTable) where
  first : Int × List FieldEntry
  later : List (Int × List FieldEntry)
  last : Option Int
  distinct : ((first :: later).map Prod.fst).Nodup
  unused : ∀ i ∈ (first :: later).map Prod.fst, t.contains i = false
  ends : ∀ i ∈ last, i = 0 ∨ i ∈ (first :: later).map Prod.fst

namespace Pieces

variable {t : RecordTable}

/-- The entries of all pieces, in order. -/
def entries (p : Pieces t) : List FieldEntry := (p.first :: p.later).flatMap Prod.snd

/-- The table with the pieces. -/
def table (p : Pieces t) : RecordTable := t.store (linked p.last (p.first :: p.later))

end Pieces

/-! ## Stored records -/

namespace RecordTable

variable {t : RecordTable} {lists : List (Int × FieldListRecord)} {index i : Int}

theorem lookup_place (index : Int) (record : TypeRecord) (i : Int)
    (rows : List (Int × Except RecordError TypeRecord)) :
    (place index record rows).lookup i =
      if i = index then some (.ok record) else rows.lookup i := by
  induction rows with
  | nil => simp only [place, lookup_cons_ite]
  | cons row rest ih =>
    obtain ⟨j, r⟩ := row
    by_cases hbefore : index < j
    · simp only [place, hbefore, if_true, lookup_cons_ite]
    · by_cases hsame : index = j
      · subst hsame
        by_cases hi : i = index <;> simp [place, lookup_cons_ite, hi]
      · by_cases hi : i = index
        · subst hi
          simp [place, hbefore, hsame, lookup_cons_ite, ih]
        · simp [place, hbefore, hsame, lookup_cons_ite, ih, hi]

theorem store_cons (t : RecordTable) (l : Int × FieldListRecord)
    (lists : List (Int × FieldListRecord)) :
    t.store (l :: lists) = (⟨place l.1 (.fieldList l.2) t.rows⟩ : RecordTable).store lists := rfl

theorem lookup_store_of_not_mem (h : i ∉ lists.map Prod.fst) :
    (t.store lists).rows.lookup i = t.rows.lookup i := by
  induction lists generalizing t with
  | nil => rfl
  | cons l lists ih =>
    simp only [List.map_cons, List.mem_cons, not_or] at h
    rw [store_cons, ih h.2, lookup_place, if_neg h.1]

theorem lookup_store_of_mem (hdistinct : (lists.map Prod.fst).Nodup) {l : Int × FieldListRecord}
    (hl : l ∈ lists) : (t.store lists).rows.lookup l.1 = some (.ok (.fieldList l.2)) := by
  induction lists generalizing t with
  | nil => cases hl
  | cons l' lists ih =>
    obtain ⟨hnew, hrest⟩ := List.nodup_cons.mp hdistinct
    rw [store_cons]
    rcases List.mem_cons.mp hl with rfl | hl
    · rw [lookup_store_of_not_mem hnew, lookup_place, if_pos rfl]
    · exact ih hrest hl

theorem contains_eq_false :
    t.contains i = false ↔ firstRecordIndex ≤ i ∧ t.rows.lookup i = none := by
  simp [contains]

/-- A stored list is the record of its index. -/
theorem get_store_of_mem (hdistinct : (lists.map Prod.fst).Nodup) {l : Int × FieldListRecord}
    (hl : l ∈ lists) (hunused : t.contains l.1 = false) :
    (t.store lists).get l.1 = .ok (.fieldList l.2) := by
  have hrecord : ¬ l.1 < firstRecordIndex := Int.not_lt.mpr (contains_eq_false.mp hunused).1
  rw [get, if_neg hrecord, lookup_store_of_mem hdistinct hl]

/-- The other records stay as they are. -/
theorem get_store_of_not_mem (h : i ∉ lists.map Prod.fst) : (t.store lists).get i = t.get i := by
  rw [get, get, lookup_store_of_not_mem h]

theorem get_of_unused (h : t.contains i = false) : t.get i = .error (.outOfRange i) := by
  obtain ⟨hrecord, hnone⟩ := contains_eq_false.mp h
  rw [get, if_neg (Int.not_lt.mpr hrecord), hnone]

end RecordTable

namespace Context

variable {c d : Context}

/-! ## Walking from list to list -/

/-- The field lists that are entered from an index on, when some were entered before. The walk ends
at no index or a zero one, at one that was entered before, and where there is no field list. -/
inductive Enters (c : Context) : List Int → Option Int → List (Int × FieldListRecord) → Prop
  | none {visited : List Int} : Enters c visited none []
  | zero {visited : List Int} : Enters c visited (some 0) []
  | again {visited : List Int} {index : Int} (h : index ∈ visited) :
    Enters c visited (some index) []
  | other {visited : List Int} {index : Int} (h : ∀ r, c.record? index ≠ some (.fieldList r)) :
    Enters c visited (some index) []
  | list {visited : List Int} {index : Int} {r : FieldListRecord}
    {rest : List (Int × FieldListRecord)} (hnonzero : index ≠ 0) (hnew : index ∉ visited)
    (hr : c.record? index = some (.fieldList r))
    (h : Enters c (index :: visited) r.continuation rest) :
    Enters c visited (some index) ((index, r) :: rest)

variable {visited : List Int} {index : Option Int} {lists lists' : List (Int × FieldListRecord)}

theorem Enters.unique (h : c.Enters visited index lists) (h' : c.Enters visited index lists') :
    lists = lists' := by
  induction h generalizing lists' with
  | none => cases h'; rfl
  | zero =>
    cases h' with
    | list hnonzero => exact absurd rfl hnonzero
    | _ => rfl
  | again hold =>
    cases h' with
    | list _ hnew => exact absurd hold hnew
    | _ => rfl
  | other hother =>
    cases h' with
    | list _ _ hr => exact absurd hr (hother _)
    | _ => rfl
  | list hnonzero hnew hr _ ih =>
    cases h' with
    | zero => exact absurd rfl hnonzero
    | again hold => exact absurd hold hnew
    | other hother => exact absurd hr (hother _)
    | list _ _ hr' h' =>
      rw [hr] at hr'
      cases hr'
      rw [ih h']

/-- No list is entered twice, nor one that was entered before. -/
theorem Enters.distinct (h : c.Enters visited index lists) :
    (lists.map Prod.fst).Nodup ∧ ∀ i ∈ lists.map Prod.fst, i ∉ visited := by
  induction h with
  | list _ hnew _ _ ih =>
    obtain ⟨hnodup, hvisited⟩ := ih
    refine ⟨List.nodup_cons.mpr ⟨fun hm => hvisited _ hm List.mem_cons_self, hnodup⟩, ?_⟩
    intro i hi
    rcases List.mem_cons.mp hi with rfl | hi
    · exact hnew
    · exact fun hm => hvisited i hi (List.mem_cons_of_mem _ hm)
  | _ => simp

/-- Nothing is read where there is no field list. -/
theorem fieldEntriesFrom_other {i : Int} (hother : ∀ r, c.record? i ≠ some (.fieldList r))
    (bound : Nat) (visited : List Int) : c.fieldEntriesFrom bound visited (some i) = [] := by
  cases bound with
  | zero => rfl
  | succ bound =>
    rw [fieldEntriesFrom]
    split
    · rfl
    · split
      · rename_i r hr
        exact absurd hr (hother r)
      · rfl

/-- The bound on the number of lists is never what ends the walk: the entered ones have different
rows of the table, and the bound leaves as many as there are other rows. -/
theorem exists_enters (bound : Nat) :
    ∀ (visited : List Int) (index : Option Int), visited.Nodup →
      visited ⊆ c.records.rows.map Prod.fst → c.records.rows.length < bound + visited.length →
      ∃ lists, c.Enters visited index lists ∧
        c.fieldEntriesFrom bound visited index = lists.flatMap fun l => l.2.entries := by
  induction bound with
  | zero =>
    intro visited index hnodup hrows hlt
    have hle := hnodup.length_le_of_subset hrows
    rw [List.length_map] at hle
    omega
  | succ bound ih =>
    intro visited index hnodup hrows hlt
    cases index with
    | none => exact ⟨[], .none, rfl⟩
    | some i =>
      by_cases hzero : i = 0
      · subst hzero
        exact ⟨[], .zero, by simp [fieldEntriesFrom]⟩
      · by_cases hold : i ∈ visited
        · exact ⟨[], .again hold, by simp [fieldEntriesFrom, hold]⟩
        · by_cases hlist : ∃ r, c.record? i = some (.fieldList r)
          · obtain ⟨r, hr⟩ := hlist
            obtain ⟨rest, hrest, hentries⟩ := ih (i :: visited) r.continuation
              (List.nodup_cons.mpr ⟨hold, hnodup⟩)
              (List.cons_subset.mpr
                ⟨RecordTable.mem_rows_of_get (record?_eq_some.mp hr) (by simp), hrows⟩)
              (by rw [List.length_cons]; omega)
            refine ⟨(i, r) :: rest, .list hzero hold hr hrest, ?_⟩
            simp [fieldEntriesFrom, hzero, hold, hr, hentries]
          · have hother := not_exists.mp hlist
            exact ⟨[], .other hother, fieldEntriesFrom_other hother (bound + 1) visited⟩

/-- Walking from a field list ends, whatever the records are, at no list twice, and what is read are
the entries of the lists on the way. -/
theorem fieldEntries_walk (c : Context) (index : Int) :
    ∃ lists, (∀ l, c.Enters [] (some index) l ↔ l = lists) ∧ (lists.map Prod.fst).Nodup ∧
      c.fieldEntries index = lists.flatMap fun l => l.2.entries := by
  obtain ⟨lists, henters, hentries⟩ := c.exists_enters (c.records.rows.length + 1) []
    (some index) List.nodup_nil (List.nil_subset _) (by simp)
  refine ⟨lists, fun l => ⟨fun h => h.unique henters, ?_⟩, henters.distinct.1, hentries⟩
  rintro rfl
  exact henters

theorem Enters.fieldEntries_eq {i : Int} (h : c.Enters [] (some i) lists) :
    c.fieldEntries i = lists.flatMap fun l => l.2.entries := by
  obtain ⟨lists', hiff, -, hentries⟩ := c.fieldEntries_walk i
  rw [hentries, (hiff lists).mp h]

/-- The pieces of a list are entered one after the other. -/
theorem enters_linked {last : Option Int} {pieces : List (Int × List FieldEntry)}
    (hrecords : ∀ l ∈ linked last pieces, c.record? l.1 = some (.fieldList l.2))
    (hdistinct : (pieces.map Prod.fst).Nodup) (hnonzero : ∀ p ∈ pieces, p.1 ≠ 0)
    (hnew : ∀ p ∈ pieces, p.1 ∉ visited)
    (hends : ∀ i ∈ last, i = 0 ∨ i ∈ visited ∨ i ∈ pieces.map Prod.fst) :
    c.Enters visited ((pieces.head?.map Prod.fst).or last) (linked last pieces) := by
  induction pieces generalizing visited with
  | nil =>
    cases last with
    | none => exact .none
    | some i =>
      rcases hends i rfl with rfl | hold | hmem
      · exact .zero
      · exact .again hold
      · cases hmem
  | cons p rest ih =>
    obtain ⟨hfirst, hrest⟩ := List.nodup_cons.mp hdistinct
    refine .list (hnonzero p List.mem_cons_self) (hnew p List.mem_cons_self)
      (hrecords _ List.mem_cons_self) (ih ?_ hrest ?_ ?_ ?_)
    · exact fun l hl => hrecords l (List.mem_cons_of_mem _ hl)
    · exact fun q hq => hnonzero q (List.mem_cons_of_mem _ hq)
    · intro q hq hmem
      rcases List.mem_cons.mp hmem with heq | hmem
      · exact hfirst (heq ▸ List.mem_map_of_mem hq)
      · exact hnew q (List.mem_cons_of_mem _ hq) hmem
    · intro i hi
      rcases hends i hi with hzero | hold | hmem
      · exact .inl hzero
      · exact .inr (.inl (List.mem_cons_of_mem _ hold))
      · rcases List.mem_cons.mp hmem with rfl | hmem
        · exact .inr (.inl List.mem_cons_self)
        · exact .inr (.inr hmem)

/-! ## Types beside field lists -/

/-- There is no type at an index: no record at all, or a field list. -/
def Typeless (c : Context) (i : Int) : Prop :=
  ∀ record, c.record? i = some record → ∃ r, record = .fieldList r

/-- Two contexts differ in nothing but where they have field lists. -/
structure TypesAlike (c d : Context) : Prop where
  pointerSize : c.pointerSize = d.pointerSize
  sizes : c.sizes = d.sizes
  record : ∀ i, c.record? i = d.record? i ∨ (c.Typeless i ∧ d.Typeless i)

theorem Typeless.sizeWithin_eq {i : Int} (h : c.Typeless i) (links : Nat) :
    c.sizeWithin links i = 0 := by
  cases links with
  | zero => rfl
  | succ links =>
    rw [sizeWithin]
    cases hr : c.record? i with
    | none => rfl
    | some record =>
      obtain ⟨r, rfl⟩ := h record hr
      rfl

theorem Typeless.typeWithin_eq {i : Int} (h : c.Typeless i) (links : Nat) :
    c.typeWithin links i = .void := by
  cases links with
  | zero => rw [typeWithin]
  | succ links =>
    rw [typeWithin]
    cases hr : c.record? i with
    | none => rfl
    | some record =>
      obtain ⟨r, rfl⟩ := h record hr
      rfl

theorem Typeless.innerExtents_eq {i : Int} (h : c.Typeless i) (levels : Nat) :
    c.innerExtents levels i = ([], i) := by
  refine innerExtents_other (fun r hr => ?_) levels
  obtain ⟨l, hl⟩ := h _ hr
  cases hl

namespace TypesAlike

theorem symm (h : c.TypesAlike d) : d.TypesAlike c :=
  ⟨h.pointerSize.symm, h.sizes.symm, fun i => (h.record i).imp Eq.symm And.symm⟩

theorem trans {e : Context} (h : c.TypesAlike d) (h' : d.TypesAlike e) : c.TypesAlike e := by
  refine ⟨h.pointerSize.trans h'.pointerSize, h.sizes.trans h'.sizes, fun i => ?_⟩
  rcases h.record i with hcd | ⟨hc, hd⟩
  · simp only [Typeless, hcd]
    exact h'.record i
  · rcases h'.record i with hde | ⟨-, he⟩
    · simp only [Typeless, hde] at hd
      exact .inr ⟨hc, hd⟩
    · exact .inr ⟨hc, he⟩

theorem sizeWithin_eq (h : c.TypesAlike d) (links : Nat) (i : Int) :
    c.sizeWithin links i = d.sizeWithin links i := by
  induction links generalizing i with
  | zero => rfl
  | succ links ih =>
    rcases h.record i with hrecord | ⟨hc, hd⟩
    · rw [sizeWithin, sizeWithin, hrecord, h.pointerSize, h.sizes]
      simp only [ih]
    · rw [hc.sizeWithin_eq, hd.sizeWithin_eq]

theorem extent_eq (h : c.TypesAlike d) (r : ArrayRecord) : c.extent r = d.extent r := by
  rw [Context.extent_eq, Context.extent_eq, recordSize, recordSize, h.sizeWithin_eq]

theorem innerExtents_eq (h : c.TypesAlike d) (levels : Nat) (i : Int) :
    c.innerExtents levels i = d.innerExtents levels i := by
  induction levels generalizing i with
  | zero => rfl
  | succ levels ih =>
    rcases h.record i with hrecord | ⟨hc, hd⟩
    · rw [innerExtents, innerExtents, hrecord]
      simp only [ih, h.extent_eq]
    · rw [hc.innerExtents_eq, hd.innerExtents_eq]

theorem typeWithin_eq (h : c.TypesAlike d) (links : Nat) (i : Int) :
    c.typeWithin links i = d.typeWithin links i := by
  induction links using Nat.strongRecOn generalizing i with
  | ind links ih =>
    cases links with
    | zero => rw [typeWithin, typeWithin]
    | succ links =>
      rcases h.record i with hrecord | ⟨hc, hd⟩
      · rw [typeWithin, typeWithin, hrecord]
        -- the elements of an array have the links that its dimensions leave
        have hrest : ∀ n j, c.typeWithin (links - n) j = d.typeWithin (links - n) j :=
          fun n j => ih (links - n) (by omega) j
        have hnext : ∀ j, c.typeWithin links j = d.typeWithin links j := hrest 0
        simp only [h.innerExtents_eq, h.extent_eq, hrest, hnext]
      · rw [hc.typeWithin_eq, hd.typeWithin_eq]

theorem addMember_eq (h : c.TypesAlike d) : c.addMember = d.addMember := by
  funext fields e
  have htranslate : ∀ i, c.translate i = d.translate i := h.typeWithin_eq _
  cases e with
  | member attributes type offset name => simp only [addMember, memberAt, htranslate]
  | _ => rfl

/-- Definitions are the same where the entries of their fields are. -/
theorem structDef_eq (h : c.TypesAlike d) {i j : Int}
    (hentries : c.fieldEntries i = d.fieldEntries j) (r : AggregateRecord) :
    c.structDef { r with fields := i } = d.structDef { r with fields := j } := by
  simp only [structDef, hentries, h.addMember_eq]

theorem enumDef_eq (h : c.TypesAlike d) {i j : Int}
    (hentries : c.fieldEntries i = d.fieldEntries j) (r : EnumRecord) :
    c.enumDef { r with fields := i } = d.enumDef { r with fields := j } := by
  have htranslate : c.translate r.underlying = d.translate r.underlying := h.typeWithin_eq _ _
  simp only [enumDef, hentries, htranslate]

end TypesAlike

end Context

/-! ## The first pass over the records -/

/-- Whether a record is a field list. -/
def TypeRecord.isFieldList : TypeRecord → Bool
  | .fieldList _ => true
  | _ => false

namespace RecordTable

variable {t : RecordTable} {lists : List (Int × FieldListRecord)}

/-- A listing without its field lists. -/
def outline (listing : List (Int × TypeRecord) × Option RecordError) :
    List (Int × TypeRecord) × Option RecordError :=
  (listing.1.filter fun e => !e.2.isFieldList, listing.2)

theorem outline_cons (e : Int × TypeRecord)
    (listing : List (Int × TypeRecord) × Option RecordError) :
    outline (e :: listing.1, listing.2) =
      if e.2.isFieldList then outline listing
      else (e :: (outline listing).1, (outline listing).2) := by
  by_cases h : e.2.isFieldList <;> simp [outline, h]

/-- What is listed is looked up by its index, so that a row put in for a field list adds that field
list and nothing else. -/
theorem outline_go_place {index : Int} {r : FieldListRecord}
    (hget : t.get index = .ok (.fieldList r)) (record : TypeRecord)
    (rows : List (Int × Except RecordError TypeRecord)) :
    outline (listing.go t (place index record rows)) = outline (listing.go t rows) := by
  have hrow : ∀ unread rest, outline (listing.go t ((index, unread) :: rest)) =
      outline (listing.go t rest) := by
    intro unread rest
    rw [listing.go, hget]
    exact outline_cons _ _
  induction rows with
  | nil => exact hrow _ []
  | cons row rest ih =>
    obtain ⟨i, unread⟩ := row
    rw [place]
    split
    · exact hrow _ _
    · split
      · rename_i hsame
        subst hsame
        rw [hrow, hrow]
      · rw [listing.go, listing.go]
        cases t.get i with
        | error e => rfl
        | ok record =>
          simp only
          rw [outline_cons, outline_cons, ih]

theorem listing_go_congr {t t' : RecordTable} {rows : List (Int × Except RecordError TypeRecord)}
    (h : ∀ row ∈ rows, t.get row.1 = t'.get row.1) : listing.go t rows = listing.go t' rows := by
  induction rows with
  | nil => rfl
  | cons row rest ih =>
    rw [listing.go, listing.go, h row List.mem_cons_self,
      ih fun row hrow => h row (List.mem_cons_of_mem _ hrow)]

/-- Storing field lists where there was nothing changes the listing by them alone. -/
theorem outline_listing_store (hdistinct : (lists.map Prod.fst).Nodup)
    (hunused : ∀ i ∈ lists.map Prod.fst, t.contains i = false) :
    outline (t.store lists).listing = outline t.listing := by
  have hstored : ∀ l ∈ lists, (t.store lists).get l.1 = .ok (.fieldList l.2) := fun l hl =>
    get_store_of_mem hdistinct hl (hunused l.1 (List.mem_map_of_mem hl))
  have hplaced : ∀ stored : List (Int × FieldListRecord), stored ⊆ lists → ∀ rows,
      outline (listing.go (t.store lists)
        (stored.foldl (fun rows l => place l.1 (.fieldList l.2) rows) rows)) =
      outline (listing.go (t.store lists) rows) := by
    intro stored
    induction stored with
    | nil => exact fun _ _ => rfl
    | cons l stored ih =>
      intro hsub rows
      obtain ⟨hl, hrest⟩ := List.cons_subset.mp hsub
      rw [List.foldl_cons, ih hrest, outline_go_place (hstored l hl)]
  have hrows : ∀ row ∈ t.rows, (t.store lists).get row.1 = t.get row.1 := by
    intro row hrow
    refine get_store_of_not_mem fun hmem => ?_
    have hnone := (contains_eq_false.mp (hunused row.1 hmem)).2
    have hother := List.lookup_eq_none_iff.mp hnone row hrow
    simp at hother
  calc outline (t.store lists).listing
      = outline (listing.go (t.store lists) t.rows) := hplaced lists (List.Subset.refl _) t.rows
    _ = outline t.listing := by rw [listing_go_congr hrows, listing]

/-- The sizes of defined aggregates come from no field list. -/
theorem definedSizes_filter (records : List (Int × TypeRecord)) :
    definedSizes (records.filter fun e => !e.2.isFieldList) = definedSizes records := by
  rw [definedSizes, definedSizes, List.foldl_filter]
  congr 1
  funext sizes e
  obtain ⟨i, record⟩ := e
  cases record <;> rfl

theorem map_sizes_context (t : RecordTable) (pointerSize : Int) :
    (t.context pointerSize).map Context.sizes =
      match (outline t.listing).2 with
      | none => .ok (definedSizes (outline t.listing).1)
      | some e => .error (.record e) := by
  rw [context, all]
  obtain ⟨records, fault⟩ := t.listing
  cases fault with
  | none => exact congrArg Except.ok (definedSizes_filter records).symm
  | some e => rfl

end RecordTable

/-! ## Cuts -/

namespace Pieces

variable {t : RecordTable}

/-- A field list in one piece. -/
def single {index : Int} (entries : List FieldEntry) (hunused : t.contains index = false) :
    Pieces t where
  first := (index, entries)
  later := []
  last := none
  distinct := by simp
  unused := by simpa using hunused
  ends := by simp

/-- A piece is the record of its index. -/
theorem get_table (p : Pieces t) {l : Int × FieldListRecord}
    (hl : l ∈ linked p.last (p.first :: p.later)) : p.table.get l.1 = .ok (.fieldList l.2) := by
  have hdistinct : ((linked p.last (p.first :: p.later)).map Prod.fst).Nodup := by
    rw [keys_linked]
    exact p.distinct
  have hkey : l.1 ∈ (p.first :: p.later).map Prod.fst := by
    rw [← keys_linked p.last]
    exact List.mem_map_of_mem hl
  exact RecordTable.get_store_of_mem hdistinct hl (p.unused l.1 hkey)

/-- Pieces are read one after the other, each of them once. -/
theorem fieldEntries_eq (p : Pieces t) (pointerSize : Int) (sizes : Table Int) :
    Context.fieldEntries ⟨p.table, pointerSize, sizes⟩ p.first.1 = p.entries := by
  have hwalk : Context.Enters ⟨p.table, pointerSize, sizes⟩ [] (some p.first.1)
      (linked p.last (p.first :: p.later)) := by
    show Context.Enters _ [] (((p.first :: p.later).head?.map Prod.fst).or p.last) _
    refine Context.enters_linked ?_ p.distinct ?_ (by simp) ?_
    · intro l hl
      rw [Context.record?, p.get_table hl]
      rfl
    · intro q hq hzero
      -- zero is the index of a built-in type
      have hunused := p.unused q.1 (List.mem_map_of_mem hq)
      rw [hzero] at hunused
      cases hunused
    · exact fun i hi => (p.ends i hi).imp_right .inr
  rw [hwalk.fieldEntries_eq, entries_linked, entries]

/-- Nothing but a walk through field lists can tell the pieces from records that are missing. -/
theorem typesAlike (p : Pieces t) (pointerSize : Int) (sizes : Table Int) :
    Context.TypesAlike ⟨p.table, pointerSize, sizes⟩ ⟨t, pointerSize, sizes⟩ := by
  refine ⟨rfl, rfl, fun i => ?_⟩
  by_cases hi : i ∈ (p.first :: p.later).map Prod.fst
  · refine .inr ⟨fun record hrecord => ?_, fun record hrecord => ?_⟩
    · rw [← keys_linked p.last] at hi
      obtain ⟨l, hl, rfl⟩ := List.mem_map.mp hi
      rw [Context.record?, p.get_table hl] at hrecord
      cases hrecord
      exact ⟨l.2, rfl⟩
    · rw [Context.record?, RecordTable.get_of_unused (p.unused i hi)] at hrecord
      cases hrecord
  · rw [← keys_linked p.last] at hi
    rw [Context.record?, Context.record?, table, RecordTable.get_store_of_not_mem hi]
    exact .inl rfl

theorem map_sizes_context (p : Pieces t) (pointerSize : Int) :
    (p.table.context pointerSize).map Context.sizes =
      (t.context pointerSize).map Context.sizes := by
  rw [RecordTable.map_sizes_context, RecordTable.map_sizes_context, table,
    RecordTable.outline_listing_store]
  · rw [keys_linked]
    exact p.distinct
  · rw [keys_linked]
    exact p.unused

end Pieces

/-- **A cut does not show.** A field list in pieces, stored anywhere where a table has nothing and
linked in order, gives every aggregate and enumeration the definition that the uncut list gives it,
and what is registered is the same; so are the sizes that a first pass over either table finds. The
walk itself ends on every table, whatever its lists go on in, and enters each list at most once. -/
theorem add_pieces {t : RecordTable} (p : Pieces t) {whole : Int}
    (hwhole : t.contains whole = false) (pointerSize : Int) :
    (∀ sizes : Table Int,
      let cut : Context := ⟨p.table, pointerSize, sizes⟩
      let uncut : Context := ⟨t.store [(whole, ⟨p.entries, none⟩)], pointerSize, sizes⟩
      (∀ r : AggregateRecord,
        cut.structDef { r with fields := p.first.1 } = uncut.structDef { r with fields := whole } ∧
        ∀ (s : Collected) (index : Int),
          s.add cut index (.aggregate { r with fields := p.first.1 }) =
            s.add uncut index (.aggregate { r with fields := whole })) ∧
      ∀ r : EnumRecord,
        cut.enumDef { r with fields := p.first.1 } = uncut.enumDef { r with fields := whole } ∧
        ∀ (s : Collected) (index : Int),
          s.add cut index (.enumeration { r with fields := p.first.1 }) =
            s.add uncut index (.enumeration { r with fields := whole })) ∧
    (p.table.context pointerSize).map Context.sizes =
      ((t.store [(whole, ⟨p.entries, none⟩)]).context pointerSize).map Context.sizes ∧
    ∀ (c : Context) (index : Int), ∃ lists,
      (∀ l, c.Enters [] (some index) l ↔ l = lists) ∧ (lists.map Prod.fst).Nodup ∧
        c.fieldEntries index = lists.flatMap fun l => l.2.entries := by
  -- the uncut list is a cut into one piece
  let q : Pieces t := .single p.entries hwhole
  have hq : q.entries = p.entries := by simp [q, Pieces.entries, Pieces.single]
  refine ⟨fun sizes => ?_, ?_, Context.fieldEntries_walk⟩
  · have halike := (p.typesAlike pointerSize sizes).trans (q.typesAlike pointerSize sizes).symm
    have hentries : Context.fieldEntries ⟨p.table, pointerSize, sizes⟩ p.first.1 =
        Context.fieldEntries ⟨q.table, pointerSize, sizes⟩ whole := by
      rw [p.fieldEntries_eq, ← hq]
      exact (q.fieldEntries_eq pointerSize sizes).symm
    refine ⟨fun r => ?_, fun r => ?_⟩
    · have hdef := halike.structDef_eq hentries r
      refine ⟨hdef, fun s index => ?_⟩
      simp only [Collected.add, hdef]
      rfl
    · have hdef := halike.enumDef_eq hentries r
      refine ⟨hdef, fun s index => ?_⟩
      simp only [Collected.add, hdef]
      rfl
  · rw [p.map_sizes_context, ← q.map_sizes_context]
    rfl

/-- The one record beside the field lists: a bit-field of an unsigned number, in its second byte. -/
def flagTable : RecordTable where
  rows := [(0x1001, .ok (.bitfield 0x75 4 9))]

/-- Flags without and with a name in three pieces, of which one is empty and the last one goes on in
the first one. -/
def flagPieces : Pieces flagTable where
  first := (0x1004, [.member 3 0x1001 0 "", .member 3 0x75 4 "State"])
  later := [(0x1002, []),
    (0x1000, [.other 0x1400 none, .member 3 0x20 8 "", .member 3 0x20 9 "State"])]
  last := some 0x1004
  distinct := by decide
  unused := by decide
  ends := by decide

/-- The name of the second unnamed flag counts the fields of the first piece. -/
theorem flagPieces_definition :
    flagTable.contains 0x1000 = false ∧
      Context.structDef ⟨flagPieces.table, 8, .empty⟩ ⟨0x1505, 4, 0, 0x1004, 16, "_FLAGS"⟩ =
        Context.structDef ⟨flagTable.store [(0x1000, ⟨flagPieces.entries, none⟩)], 8, .empty⟩
          ⟨0x1505, 4, 0, 0x1000, 16, "_FLAGS"⟩ ∧
      Context.structDef ⟨flagPieces.table, 8, .empty⟩ ⟨0x1505, 4, 0, 0x1004, 16, "_FLAGS"⟩ =
        .ok ⟨.structType, 16, .ofList [("__unnamed_field_0", ⟨1, .bitfield (.base .u32) 4 1⟩),
          ("State", ⟨9, .base .char⟩), ("__unnamed_field_2", ⟨8, .base .char⟩)]⟩ := by
  have hunused : flagTable.contains 0x1000 = false := by decide
  refine ⟨hunused, ?_, by with_unfolding_all rfl⟩
  exact (((add_pieces flagPieces hunused 8).1 .empty).1
    ⟨0x1505, 4, 0, 0, 16, "_FLAGS"⟩).1

end KernelProfile.CodeView
