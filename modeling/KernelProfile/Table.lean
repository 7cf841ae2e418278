/-! Tables keyed by text whose keys keep the order in which they first came. Writing under a key
that is present replaces the value and leaves the key where it is; that is the order every
listing of a profile shows. -/
namespace KernelProfile

universe u v

/-- Replace the value of the first entry with this key, or append one. -/
def putEntry {α : Type u} (key : String) (value : α) : List (String × α) → List (String × α)
  | [] => [(key, value)]
  | (k, v) :: rest =>
    if k = key then (k, value) :: rest else (k, v) :: putEntry key value rest

theorem keys_putEntry {α : Type u} (key : String) (value : α) (es : List (String × α)) :
    (putEntry key value es).map Prod.fst =
      if key ∈ es.map Prod.fst then es.map Prod.fst else es.map Prod.fst ++ [key] := by
  induction es with
  | nil => simp [putEntry]
  | cons e rest ih =>
    obtain ⟨k, v⟩ := e
    by_cases h : k = key
    · simp [putEntry, h]
    · have h' : ¬ key = k := fun e => h e.symm
      simp only [putEntry, h, if_false, List.map_cons, ih, List.mem_cons, h', false_or]
      split <;> simp

/-- A finite map from names to values, listed by first insertion. -/
structure Table (α : Type u) where
  entries : List (String × α)
  distinct : (entries.map Prod.fst).Nodup
  deriving DecidableEq

namespace Table

variable {α : Type u} {β : Type v}

def empty : Table α := ⟨[], by simp⟩

instance : EmptyCollection (Table α) := ⟨empty⟩

instance : Inhabited (Table α) := ⟨empty⟩

def keys (t : Table α) : List String := t.entries.map Prod.fst

def size (t : Table α) : Nat := t.entries.length

def get? (t : Table α) (key : String) : Option α := t.entries.lookup key

def contains (t : Table α) (key : String) : Bool := (t.get? key).isSome

/-- Write a value: in place when the key is known, at the end when it is new. -/
def insert (t : Table α) (key : String) (value : α) : Table α where
  entries := putEntry key value t.entries
  distinct := by
    rw [keys_putEntry]
    split
    · exact t.distinct
    · rename_i h
      rw [List.nodup_append]
      exact ⟨t.distinct, by simp, fun a ha b hb => by
        rintro rfl
        simp only [List.mem_singleton] at hb
        exact h (hb ▸ ha)⟩

/-- Entries written one after the other, so that a later value of a key wins at its first place. -/
def ofList (entries : List (String × α)) : Table α :=
  entries.foldl (fun t e => t.insert e.1 e.2) empty

def map (f : α → β) (t : Table α) : Table β where
  entries := t.entries.map fun e => (e.1, f e.2)
  distinct := by
    have h : (t.entries.map fun e => (e.1, f e.2)).map Prod.fst = t.entries.map Prod.fst := by
      simp [Function.comp_def]
    rw [h]
    exact t.distinct

/-- The table with every value replaced, if each of them can be. -/
def mapM? (f : α → Option β) (t : Table α) : Option (Table β) :=
  (t.entries.mapM fun e => (f e.2).map (e.1, ·)).map ofList

@[simp] theorem entries_empty : (empty : Table α).entries = [] := rfl

@[simp] theorem keys_insert (t : Table α) (key : String) (value : α) :
    (t.insert key value).keys = if key ∈ t.keys then t.keys else t.keys ++ [key] :=
  keys_putEntry key value t.entries

end Table
end KernelProfile
