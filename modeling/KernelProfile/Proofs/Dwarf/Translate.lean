import KernelProfile.Proofs.Dwarf.Reference

/-! What following type attributes gives. Where every entry can be read it always gives a type; and
the size of the storage under an entry is the first one on the way through typedefs and
qualifiers, if it comes within the limit on links. -/
namespace KernelProfile.Dwarf.DebugInfo

variable {info : DebugInfo}

/-! ## Types -/

/-- The entries of a graph can be read: those below each of them are all listed, and every type
attribute leads to an entry of the graph. -/
structure ReadableIn (info : DebugInfo) (G : Die → Prop) : Prop where
  children : ∀ d, G d → (info.children d).2 = none
  target : ∀ d, G d → d.has "DW_AT_type" = true → ∃ t, info.target d = .ok t ∧ G t

/-- The entries below an entry can all be listed, and every type attribute leads to an entry. -/
structure Readable (info : DebugInfo) : Prop where
  children : ∀ d, (info.children d).2 = none
  target : ∀ d, d.has "DW_AT_type" = true → ∃ t, info.target d = .ok t

theorem Readable.readableIn (h : info.Readable) : info.ReadableIn fun _ => True where
  children d _ := h.children d
  target d _ ha := (h.target d ha).imp fun _ ht => ⟨ht, trivial⟩

namespace ReadableIn

variable {G : Die → Prop} {d : Die}

theorem children_eq (h : info.ReadableIn G) (hd : G d) :
    info.children d = ((info.children d).1, none) :=
  Prod.ext rfl (h.children d hd)

/-- An entry has a type over any number of links. -/
theorem exists_typeWithin (h : info.ReadableIn G) (links : Nat) (hd : G d) :
    ∃ t, info.typeWithin links d = .ok t := by
  induction links generalizing d with
  | zero => exact ⟨.void, rfl⟩
  | succ links ih =>
    have hunder : ∃ t, info.under links d = .ok t := by
      unfold under
      split
      · rename_i ha
        obtain ⟨target, htarget, hin⟩ := h.target d hd ha
        rw [htarget]
        exact ih hin
      · exact ⟨.void, rfl⟩
    obtain ⟨t, ht⟩ := hunder
    rw [typeWithin_succ, ht, h.children_eq hd]
    simp only [whole]
    repeat' split
    all_goals exact ⟨_, rfl⟩

theorem exists_referencedType (h : info.ReadableIn G) (hd : G d) :
    ∃ t, info.referencedType d = .ok t := by
  unfold referencedType
  split
  · rename_i ha
    obtain ⟨target, htarget, hin⟩ := h.target d hd ha
    rw [htarget]
    exact h.exists_typeWithin chainLimit hin
  · exact ⟨.void, rfl⟩

end ReadableIn

/-! ## Storage -/

/-- A size stands under an entry behind a number of links. The entries before the one that gives
it are typedefs and qualifiers without a size of their own. -/
inductive StorageAfter (info : DebugInfo) : Nat → Die → Int → Prop
  | given {d target : Die} {size : Int} (ha : d.has "DW_AT_type" = true)
      (ht : info.target d = .ok target) (hs : target.constant? "DW_AT_byte_size" = some size) :
      StorageAfter info 1 d size
  | through {links : Nat} {d target : Die} {size : Int} (ha : d.has "DW_AT_type" = true)
      (ht : info.target d = .ok target) (hs : target.constant? "DW_AT_byte_size" = none)
      (htag : isTransparentTag target.tag = true) (h : StorageAfter info links target size) :
      StorageAfter info (links + 1) d size

theorem StorageAfter.storageSizeWithin {links : Nat} {d : Die} {size : Int}
    (h : info.StorageAfter links d size) :
    ∀ bound, links ≤ bound → info.storageSizeWithin bound d = .ok (some size) := by
  induction h with
  | given ha ht hs =>
    intro bound hle
    obtain ⟨bound, rfl⟩ : ∃ b, bound = b + 1 := ⟨bound - 1, by omega⟩
    simp only [DebugInfo.storageSizeWithin, ha, if_true, ht, bind, Except.bind, hs]
    rfl
  | through ha ht hs htag _ ih =>
    intro bound hle
    obtain ⟨bound, rfl⟩ : ∃ b, bound = b + 1 := ⟨bound - 1, by omega⟩
    simp only [DebugInfo.storageSizeWithin, ha, if_true, ht, bind, Except.bind, hs, htag]
    exact ih bound (by omega)

theorem storageAfter_of_storageSizeWithin {bound : Nat} {d : Die} {size : Int}
    (h : info.storageSizeWithin bound d = .ok (some size)) :
    ∃ links ≤ bound, info.StorageAfter links d size := by
  induction bound generalizing d with
  | zero => cases h
  | succ bound ih =>
    unfold storageSizeWithin at h
    split at h
    · rename_i ha
      obtain ⟨target, ht, h⟩ := bind_eq_ok.mp h
      split at h
      · rename_i given hs
        cases h
        exact ⟨1, by omega, .given ha ht hs⟩
      · rename_i hs
        split at h
        · rename_i htag
          obtain ⟨links, hle, hafter⟩ := ih h
          exact ⟨links + 1, by omega, .through ha ht hs htag hafter⟩
        · cases h
    · cases h

/-- The size of the storage is found exactly if it is there within the limit. -/
theorem storageSize_eq_some_iff {d : Die} {size : Int} :
    info.storageSize d = .ok (some size) ↔
      ∃ links ≤ chainLimit, info.StorageAfter links d size := by
  constructor
  · exact storageAfter_of_storageSizeWithin
  · rintro ⟨links, hle, h⟩
    exact h.storageSizeWithin chainLimit hle

/-! ## Layouts -/

namespace ReadableIn

variable {G : Die → Prop} {d : Die}

theorem exists_storageSizeWithin (h : info.ReadableIn G) (links : Nat) (hd : G d) :
    ∃ size, info.storageSizeWithin links d = .ok size := by
  induction links generalizing d with
  | zero => exact ⟨none, rfl⟩
  | succ links ih =>
    unfold storageSizeWithin
    split
    · rename_i ha
      obtain ⟨target, htarget, hin⟩ := h.target d hd ha
      simp only [htarget, bind, Except.bind]
      split
      · exact ⟨_, rfl⟩
      · split
        · exact ih hin
        · exact ⟨_, rfl⟩
    · exact ⟨none, rfl⟩

theorem exists_countedFromTop (h : info.ReadableIn G) (hd : G d) (location bitSize : Int) :
    ∃ first, info.countedFromTop d location bitSize = .ok first := by
  obtain ⟨size, hsize⟩ := h.exists_storageSizeWithin chainLimit hd
  unfold countedFromTop storageSize
  rw [hsize]
  repeat' split
  all_goals exact ⟨_, rfl⟩

/-- A member has a layout, whatever its attributes say. -/
theorem exists_memberLayout (h : info.ReadableIn G) (hd : G d) :
    ∃ layout, info.memberLayout d = .ok layout := by
  obtain ⟨t, ht⟩ := h.exists_referencedType hd
  unfold memberLayout
  dsimp only
  rw [ht]
  split
  · exact ⟨_, rfl⟩
  · split
    · obtain ⟨first, hfirst⟩ := h.exists_countedFromTop hd (d.location?.getD 0) ‹_›
      rw [hfirst]
      cases first <;> exact ⟨_, rfl⟩
    · exact ⟨_, rfl⟩

end ReadableIn

end KernelProfile.Dwarf.DebugInfo
