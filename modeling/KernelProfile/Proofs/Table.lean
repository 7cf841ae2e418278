import KernelProfile.Table
import Mathlib.Data.List.Induction

/-! Laws of tables: what a key is looked up to, which entries a write adds, and that a table is
what its own listing builds. Every law speaks of `get?`, `keys` and `entries`, so that nothing
above this module looks into `putEntry`. -/
namespace KernelProfile

universe u v

variable {α : Type u} {β : Type v}

theorem lookup_cons_ite {κ : Type v} [BEq κ] [LawfulBEq κ] [DecidableEq κ] (k : κ) (e : κ × α)
    (es : List (κ × α)) : (e :: es).lookup k = if k = e.1 then some e.2 else es.lookup k := by
  obtain ⟨k', v⟩ := e
  by_cases h : k = k'
  · subst h
    simp
  · have hbeq : (k == k') = false := by simpa using h
    simp [List.lookup_cons, hbeq, h]

theorem lookup_putEntry (key : String) (value : α) (k : String) (es : List (String × α)) :
    (putEntry key value es).lookup k = if k = key then some value else es.lookup k := by
  induction es with
  | nil => simp only [putEntry, lookup_cons_ite]
  | cons e rest ih =>
    obtain ⟨k', v'⟩ := e
    by_cases hk' : k' = key
    · subst hk'
      by_cases hk : k = k' <;> simp [putEntry, lookup_cons_ite, hk]
    · by_cases hk : k = k'
      · subst hk
        simp [putEntry, hk']
      · simp [putEntry, lookup_cons_ite, hk', hk, ih]

theorem putEntry_of_not_mem {key : String} {es : List (String × α)}
    (h : key ∉ es.map Prod.fst) (value : α) : putEntry key value es = es ++ [(key, value)] := by
  induction es with
  | nil => rfl
  | cons e rest ih =>
    obtain ⟨k, v⟩ := e
    simp only [List.map_cons, List.mem_cons, not_or] at h
    simp [putEntry, Ne.symm h.1, ih h.2]

theorem mem_putEntry {key : String} {value : α} {es : List (String × α)} {e : String × α}
    (h : e ∈ putEntry key value es) : e = (key, value) ∨ e ∈ es := by
  induction es with
  | nil => simpa [putEntry] using h
  | cons e' rest ih =>
    obtain ⟨k, v⟩ := e'
    simp only [putEntry] at h
    split at h
    · rename_i hk
      subst hk
      rcases List.mem_cons.mp h with rfl | h
      · exact .inl rfl
      · exact .inr (List.mem_cons_of_mem _ h)
    · rcases List.mem_cons.mp h with rfl | h
      · exact .inr List.mem_cons_self
      · exact (ih h).imp_right (List.mem_cons_of_mem _)

/-- Items are listed by their first occurrence: the last one adds nothing if it is known already. -/
theorem eraseDups_concat {κ : Type v} [DecidableEq κ] (l : List κ) (k : κ) :
    (l ++ [k]).eraseDups = if k ∈ l then l.eraseDups else l.eraseDups ++ [k] := by
  have hone : [k].eraseDups = [k] := rfl
  rw [List.eraseDups_append]
  by_cases hk : k ∈ l
  · simp [List.removeAll, hk]
  · simp [List.removeAll, hk, hone]

namespace Table

@[simp] theorem keys_empty : (empty : Table α).keys = [] := rfl

@[simp] theorem get?_empty (key : String) : (empty : Table α).get? key = none := rfl

theorem get?_insert (t : Table α) (key : String) (value : α) (k : String) :
    (t.insert key value).get? k = if k = key then some value else t.get? k :=
  lookup_putEntry key value k t.entries

theorem length_keys (t : Table α) : t.keys.length = t.size := List.length_map ..

theorem size_insert (t : Table α) (key : String) (value : α) :
    (t.insert key value).size = if key ∈ t.keys then t.size else t.size + 1 := by
  rw [← length_keys, keys_insert, ← length_keys]
  split <;> simp

/-- Keys keep their places. -/
theorem keys_prefix_insert (t : Table α) (key : String) (value : α) :
    t.keys <+: (t.insert key value).keys := by
  rw [keys_insert]
  split
  · exact List.prefix_rfl
  · exact List.prefix_append ..

theorem mem_entries_insert {t : Table α} {key : String} {value : α} {e : String × α}
    (h : e ∈ (t.insert key value).entries) : e = (key, value) ∨ e ∈ t.entries :=
  mem_putEntry h

/-- Looking a key up finds an entry of the listing, and the only one of that key. -/
theorem get?_eq_some_iff {t : Table α} {key : String} {value : α} :
    t.get? key = some value ↔ (key, value) ∈ t.entries := by
  have hall : ∀ es : List (String × α), (es.map Prod.fst).Nodup →
      (es.lookup key = some value ↔ (key, value) ∈ es) := by
    intro es
    induction es with
    | nil => simp
    | cons e rest ih =>
      obtain ⟨k, v⟩ := e
      intro hd
      simp only [List.map_cons, List.nodup_cons] at hd
      by_cases hk : key = k
      · subst hk
        have hrest : (key, value) ∉ rest := fun hm => hd.1 (List.mem_map_of_mem hm)
        simp [hrest, eq_comm]
      · simp [lookup_cons_ite, hk, ih hd.2]
  exact hall t.entries t.distinct

theorem mem_keys_iff {t : Table α} {key : String} :
    key ∈ t.keys ↔ ∃ value, t.get? key = some value := by
  simp only [keys, List.mem_map, get?_eq_some_iff]
  constructor
  · rintro ⟨⟨k, v⟩, hm, rfl⟩
    exact ⟨v, hm⟩
  · rintro ⟨v, hm⟩
    exact ⟨(key, v), hm, rfl⟩

theorem eq_of_entries {t u : Table α} (h : t.entries = u.entries) : t = u := by
  cases t
  cases u
  cases h
  rfl

/-- Entries of new keys are put behind those that are there. -/
theorem entries_foldl_insert (es : List (String × α)) (t : Table α)
    (hd : ((t.entries ++ es).map Prod.fst).Nodup) :
    (es.foldl (fun t e => t.insert e.1 e.2) t).entries = t.entries ++ es := by
  induction es generalizing t with
  | nil => simp
  | cons e es ih =>
    have hnew : e.1 ∉ t.entries.map Prod.fst := by
      intro hm
      rw [List.map_append, List.nodup_append] at hd
      exact hd.2.2 _ hm _ (by simp) rfl
    have hput : (t.insert e.1 e.2).entries = t.entries ++ [e] := putEntry_of_not_mem hnew e.2
    rw [List.foldl_cons, ih _ (by rw [hput]; simpa using hd), hput]
    simp

/-- Entries of distinct keys are listed as they were written. -/
theorem entries_ofList {es : List (String × α)} (hd : (es.map Prod.fst).Nodup) :
    (ofList es).entries = es :=
  entries_foldl_insert es empty hd

/-- A table is what its own listing builds, in the same order. -/
theorem ofList_entries (t : Table α) : ofList t.entries = t :=
  eq_of_entries (entries_ofList t.distinct)

theorem ofList_concat (es : List (String × α)) (e : String × α) :
    ofList (es ++ [e]) = (ofList es).insert e.1 e.2 :=
  List.foldl_append

/-- The keys of entries that are written one after the other, by their first occurrence. -/
theorem keys_ofList (es : List (String × α)) : (ofList es).keys = (es.map Prod.fst).eraseDups := by
  induction es using List.reverseRecOn with
  | nil => rfl
  | append_singleton es e ih =>
    rw [ofList_concat, keys_insert, ih, List.map_append, List.map_singleton, eraseDups_concat]
    simp only [List.mem_eraseDups]

theorem get?_ofList (es : List (String × α)) (key : String) :
    (ofList es).get? key = es.reverse.lookup key := by
  induction es using List.reverseRecOn with
  | nil => rfl
  | append_singleton es e ih =>
    rw [ofList_concat, get?_insert, ih, List.reverse_concat, lookup_cons_ite]

/-- The last entry of a key counts. -/
theorem get?_ofList_eq_some {es : List (String × α)} {key : String} {value : α} :
    (ofList es).get? key = some value ↔
      ∃ before after, es = before ++ (key, value) :: after ∧ ∀ e ∈ after, e.1 ≠ key := by
  rw [get?_ofList, List.lookup_eq_some_iff]
  simp only [List.reverse_eq_append_iff, bne_iff_ne, ne_comm (a := key)]
  constructor
  · rintro ⟨later, earlier, rfl, hlater⟩
    exact ⟨earlier.reverse, later.reverse, by simp, by simpa using hlater⟩
  · rintro ⟨before, after, rfl, hafter⟩
    exact ⟨after.reverse, before.reverse, by simp, by simpa using hafter⟩

/-- Of entries that items make, the last one of a key counts. -/
theorem get?_ofList_filterMap {ι : Type v} {read? : ι → Option (String × α)} {items : List ι}
    {key : String} {value : α} : (ofList (items.filterMap read?)).get? key = some value ↔
      ∃ before item after, items = before ++ item :: after ∧ read? item = some (key, value) ∧
        ∀ i ∈ after, ∀ v, read? i ≠ some (key, v) := by
  rw [get?_ofList_eq_some]
  constructor
  · rintro ⟨earlier, later, hentries, hlater⟩
    obtain ⟨front, back, rfl, -, hback⟩ := List.filterMap_eq_append_iff.mp hentries
    obtain ⟨skipped, item, after, rfl, -, hitem, hafter⟩ := List.filterMap_eq_cons_iff.mp hback
    refine ⟨front ++ skipped, item, after, (List.append_assoc ..).symm, hitem, ?_⟩
    intro i hi v hentry
    exact hlater (key, v) (hafter ▸ List.mem_filterMap.mpr ⟨i, hi, hentry⟩) rfl
  · rintro ⟨before, item, after, rfl, hitem, hafter⟩
    refine ⟨before.filterMap read?, after.filterMap read?, ?_, ?_⟩
    · rw [List.filterMap_append, List.filterMap_cons_some hitem]
    · rintro ⟨key', v⟩ he rfl
      obtain ⟨i, hi, hentry⟩ := List.mem_filterMap.mp he
      exact hafter i hi v hentry

end Table
end KernelProfile
