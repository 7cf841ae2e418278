import KernelProfile.Proofs.Table
import KernelProfile.Registration

/-! Laws of registering: which keys and entries a table holds after a definition was offered to it,
and what a claim on a declaration site leaves. -/
namespace KernelProfile

universe u

namespace Table

variable {α : Type u} (fieldCount : α → Nat)

theorem register_eq (t : Table α) (name : String) (d : α) :
    (t.register fieldCount name d).1 = t.insert name d ∨
      (name ∈ t.keys ∧ (t.register fieldCount name d).1 = t) := by
  unfold register
  split
  · exact .inl rfl
  · rename_i old hold
    split
    · exact .inl rfl
    · exact .inr ⟨mem_keys_iff.mpr ⟨old, hold⟩, rfl⟩

/-- A name is registered from then on, whichever definition stays. -/
theorem mem_keys_register {t : Table α} {name : String} {d : α} {k : String} :
    k ∈ (t.register fieldCount name d).1.keys ↔ k = name ∨ k ∈ t.keys := by
  rcases register_eq fieldCount t name d with h | ⟨hm, h⟩
  · rw [h, keys_insert]
    split
    · rename_i hm
      exact ⟨.inr, fun h => h.elim (fun e => e ▸ hm) id⟩
    · simp [or_comm]
  · rw [h]
    exact ⟨.inr, fun h => h.elim (fun e => e ▸ hm) id⟩

theorem mem_entries_register {t : Table α} {name : String} {d : α} {e : String × α}
    (h : e ∈ (t.register fieldCount name d).1.entries) : e = (name, d) ∨ e ∈ t.entries := by
  rcases register_eq fieldCount t name d with hr | ⟨_, hr⟩
  · exact mem_entries_insert (hr ▸ h)
  · exact .inr (hr ▸ h)

end Table

namespace Claims

/-- A definition is admitted unless its site was claimed. -/
theorem admit?_fst (c : Claims) (site : Option Site) :
    (c.admit? site).1 = true ↔ ∀ x, site = some x → x ∉ c.sites := by
  cases site with
  | none => simp [admit?]
  | some x => by_cases h : x ∈ c.sites <;> simp [admit?, claim, h]

theorem admit?_of_mem {c : Claims} {x : Site} (h : x ∈ c.sites) :
    c.admit? (some x) = (false, c) := by
  simp [admit?, claim, h]

/-- A definition that is not admitted has a claimed site, and the claims stay as they are. -/
theorem admit?_fst_eq_false {c : Claims} {site : Option Site} (h : (c.admit? site).1 = false) :
    (c.admit? site).2 = c ∧ ∃ x, site = some x ∧ x ∈ c.sites := by
  cases site with
  | none => cases h
  | some x =>
    by_cases hx : x ∈ c.sites
    · rw [admit?_of_mem hx]
      exact ⟨rfl, x, rfl, hx⟩
    · simp [admit?, claim, hx] at h

/-- Afterwards the site is claimed, admitted or not, and no other one is. -/
theorem mem_admit?_snd (c : Claims) (site : Option Site) (x : Site) :
    x ∈ (c.admit? site).2.sites ↔ site = some x ∨ x ∈ c.sites := by
  cases site with
  | none => simp [admit?]
  | some y =>
    by_cases h : y ∈ c.sites
    · simp only [admit?, claim, h, if_true, Option.some.injEq]
      exact ⟨.inr, fun hx => hx.elim (fun e => e ▸ h) id⟩
    · simp [admit?, claim, h, eq_comm]

end Claims
end KernelProfile
