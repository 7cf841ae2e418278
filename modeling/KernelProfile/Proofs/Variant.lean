import KernelProfile.Variant
import Mathlib.Tactic.SplitIfs

/-! The narrowest kind of a number, by its bounds, and that it is the kind of the variant that a
number without a kind becomes. -/
namespace KernelProfile

namespace VariantKind

/-- The narrowest kind that holds a number of at most 128 bits: a signed one if it is negative, an
unsigned one otherwise. -/
def narrowest (n : Int) : VariantKind :=
  if 0 ≤ n then
    if n < 2 ^ 8 then u8 else if n < 2 ^ 16 then u16 else if n < 2 ^ 32 then u32
    else if n < 2 ^ 64 then u64 else u128
  else
    if -2 ^ 7 ≤ n then i8 else if -2 ^ 15 ≤ n then i16 else if -2 ^ 31 ≤ n then i32
    else if -2 ^ 63 ≤ n then i64 else i128

theorem holds_iff {k : VariantKind} {n : Int} :
    k.holds n = true ↔ k.least ≤ n ∧ n ≤ k.greatest := by
  rw [holds, Bool.and_eq_true, decide_eq_true_eq, decide_eq_true_eq]

theorem isSigned_narrowest (n : Int) : (narrowest n).isSigned = decide (n < 0) := by
  unfold narrowest
  split_ifs with h <;> simp [isSigned] <;> omega

/-- The narrowest kind holds every number of at most 128 bits. -/
theorem holds_narrowest {n : Int} (hlow : -2 ^ 127 ≤ n) (hhigh : n < 2 ^ 128) :
    (narrowest n).holds n = true := by
  rw [holds_iff]
  unfold narrowest
  split_ifs <;> simp [least, greatest, isSigned, bits] <;> omega

/-- No kind of the same signedness that holds a number has fewer bits. -/
theorem bits_narrowest_le {n : Int} {k : VariantKind} (hsign : k.isSigned = decide (n < 0))
    (hholds : k.holds n = true) : (narrowest n).bits ≤ k.bits := by
  rw [holds_iff] at hholds
  obtain ⟨hlow, hhigh⟩ := hholds
  unfold narrowest
  cases k <;> simp [least, greatest, isSigned, bits] at hsign hlow hhigh <;>
    split_ifs <;> simp [bits] <;> omega

/-- A number that some kind holds has at most 128 bits. -/
theorem bounds_of_holds {n : Int} {k : VariantKind} (h : k.holds n = true) :
    -2 ^ 127 ≤ n ∧ n < 2 ^ 128 := by
  rw [holds_iff] at h
  cases k <;> simp [least, greatest, isSigned, bits] at h <;> omega

/-- The first kind that holds a number is the narrowest: every one in front of it is too narrow. -/
theorem find?_holds {n : Int} (hlow : -2 ^ 127 ≤ n) (hhigh : n < 2 ^ 128) :
    (if 0 ≤ n then unsignedKinds else signedKinds).find? (fun k => k.holds n) =
      some (narrowest n) := by
  have hholds (k : VariantKind) : k.holds n = decide (k.least ≤ n ∧ n ≤ k.greatest) := by
    rw [holds, Bool.decide_and]
  by_cases hn : 0 ≤ n
  · simp [hn, unsignedKinds, List.find?_cons, hholds, least, greatest, isSigned, bits, narrowest]
    grind
  · simp [hn, signedKinds, List.find?_cons, hholds, least, greatest, isSigned, bits, narrowest]
    grind

end VariantKind

namespace Variant

/-- A variant of a given kind is made exactly where the kind holds the number. -/
theorem make_eq_ok {k : VariantKind} {n : Int} {v : Variant} :
    make k n = .ok v ↔ v.kind = k ∧ v.value = n := by
  obtain ⟨kind, value, fits⟩ := v
  constructor
  · intro h
    unfold make at h
    split at h
    · cases h
      exact ⟨rfl, rfl⟩
    · cases h
  · rintro ⟨rfl, rfl⟩
    exact dif_pos fits

theorem firstFit?_eq_some {n : Int} {kinds : List VariantKind} {v : Variant}
    (h : firstFit? n kinds = some v) :
    v.value = n ∧ kinds.find? (fun k => k.holds n) = some v.kind := by
  induction kinds with
  | nil => cases h
  | cons k kinds ih =>
    rw [firstFit?] at h
    rw [List.find?_cons]
    split at h
    · rename_i hk
      cases h
      simp only [hk, and_self]
    · rename_i hk
      simp only [hk]
      exact ih h

theorem fit_eq_ok {n : Int} {v : Variant} (h : fit n = .ok v) :
    v.kind = VariantKind.narrowest n ∧ v.value = n := by
  unfold fit at h
  split at h
  · rename_i hfit
    cases h
    obtain ⟨hvalue, hkind⟩ := firstFit?_eq_some hfit
    obtain ⟨hlow, hhigh⟩ := VariantKind.bounds_of_holds v.fits
    rw [hvalue] at hlow hhigh
    rw [VariantKind.find?_holds hlow hhigh] at hkind
    exact ⟨(Option.some.inj hkind).symm, hvalue⟩
  · cases h

end Variant
end KernelProfile
