import KernelProfile.Profile.Resolve
import KernelProfile.Proofs.Table

/-! Sizes of types without the bound on enumerations. A type has a size when the definitions it
needs are there and its chain of enumerations comes to an end; the bound that `typeSize` puts on
such a chain never cuts one short, because the enumerations of a chain that ends are distinct. -/
namespace KernelProfile.Profile

variable {p : Profile}

/-- A type has a size that is known after following a number of enumerations. -/
inductive SizeAfter (p : Profile) : Nat → Ty → Int → Prop
  | base (kind : BaseKind) : SizeAfter p 0 (.base kind) kind.size
  | structRef {name : String} {s : StructDef} (hs : p.findStruct? name = some s) :
    SizeAfter p 0 (.structRef name) s.size
  | enumRef {hops : Nat} {name : String} {e : EnumDef} {n : Int}
    (he : p.findEnum? name = some e) (h : SizeAfter p hops e.subtype n) :
    SizeAfter p (hops + 1) (.enumRef name) n
  | array {hops : Nat} {element : Ty} {n : Int} (dims : List Int) (count : Int)
    (h : SizeAfter p hops element n) : SizeAfter p hops (.array element dims count) n
  | bitfield {hops : Nat} {underlying : Ty} {n : Int} (length position : Int)
    (h : SizeAfter p hops underlying n) :
    SizeAfter p hops (.bitfield underlying length position) n
  | pointer (target : Ty) : SizeAfter p 0 (.pointer target) p.pointerSize
  | function : SizeAfter p 0 .function p.pointerSize

/-- A type has a known size: an array that of one element, a bit-field that of its storage, an
enumeration that of its subtype. -/
def HasSize (p : Profile) (t : Ty) (n : Int) : Prop := ∃ hops, p.SizeAfter hops t n

/-- The definitions decide how many enumerations are followed. -/
theorem SizeAfter.hops_eq {i j : Nat} {t : Ty} {m n : Int} (h : p.SizeAfter i t m)
    (h' : p.SizeAfter j t n) : i = j := by
  -- a type without an enumeration has rank zero, and one step along the chain adds one
  induction h generalizing j n with
  | base kind => cases h'; rfl
  | structRef hs => cases h'; rfl
  | enumRef he _ ih =>
    cases h' with
    | enumRef he' h' =>
      have hdef := he.symm.trans he'
      simp only [Option.some.injEq] at hdef
      subst hdef
      rw [ih h']
  | array dims count _ ih => cases h' with | array _ _ h' => exact ih h'
  | bitfield length position _ ih => cases h' with | bitfield _ _ h' => exact ih h'
  | pointer target => cases h'; rfl
  | function => cases h'; rfl

/-- The enumerations on the way to a size, each of a rank of its own. -/
theorem SizeAfter.exists_chain {hops : Nat} {t : Ty} {n : Int} (h : p.SizeAfter hops t n) :
    ∃ names : List String, names.length = hops ∧ names.Nodup ∧
      ∀ name ∈ names, name ∈ p.types.enums.keys ∧
        ∃ i ≤ hops, ∃ m, p.SizeAfter i (.enumRef name) m := by
  induction h with
  | base kind => exact ⟨[], rfl, List.nodup_nil, by simp⟩
  | structRef hs => exact ⟨[], rfl, List.nodup_nil, by simp⟩
  | @enumRef hops name e n he h ih =>
    obtain ⟨names, hlen, hnd, hall⟩ := ih
    have hself : p.SizeAfter (hops + 1) (.enumRef name) n := .enumRef he h
    -- a second visit would have two ranks
    have hnew : name ∉ names := by
      intro hm
      obtain ⟨-, i, hi, m, hsize⟩ := hall name hm
      have heq : i = hops + 1 := hsize.hops_eq hself
      omega
    refine ⟨name :: names, by simp [hlen], List.nodup_cons.mpr ⟨hnew, hnd⟩, ?_⟩
    intro x hx
    rcases List.mem_cons.mp hx with rfl | hx
    · exact ⟨Table.mem_keys_iff.mpr ⟨e, he⟩, hops + 1, Nat.le_refl _, n, hself⟩
    · obtain ⟨hk, i, hi, m, hsize⟩ := hall x hx
      exact ⟨hk, i, by omega, m, hsize⟩
  | array dims count _ ih => exact ih
  | bitfield length position _ ih => exact ih
  | pointer target => exact ⟨[], rfl, List.nodup_nil, by simp⟩
  | function => exact ⟨[], rfl, List.nodup_nil, by simp⟩

theorem SizeAfter.hops_le {hops : Nat} {t : Ty} {n : Int} (h : p.SizeAfter hops t n) :
    hops ≤ p.types.enums.size := by
  obtain ⟨names, hlen, hnd, hall⟩ := h.exists_chain
  have hsub : names ⊆ p.types.enums.keys := fun x hx => (hall x hx).1
  have hle : names.length ≤ p.types.enums.keys.length := hnd.length_le_of_subset hsub
  rw [hlen] at hle
  simpa [Table.keys, Table.size] using hle

theorem sizeWithin_of_sizeAfter {hops : Nat} {t : Ty} {n : Int} (h : p.SizeAfter hops t n) :
    ∀ bound, hops ≤ bound → p.sizeWithin bound t = some n := by
  induction h with
  | base kind => intro bound _; simp only [sizeWithin]
  | structRef hs => intro bound _; simp only [sizeWithin, hs, Option.map_some]
  | enumRef he _ ih =>
    intro bound hle
    obtain ⟨bound, rfl⟩ : ∃ b, bound = b + 1 := ⟨bound - 1, by omega⟩
    simp only [sizeWithin, he, Option.bind_some]
    exact ih bound (by omega)
  | array dims count _ ih =>
    intro bound hle
    simpa only [sizeWithin] using ih bound hle
  | bitfield length position _ ih =>
    intro bound hle
    simpa only [sizeWithin] using ih bound hle
  | pointer target => intro bound _; simp only [sizeWithin]
  | function => intro bound _; simp only [sizeWithin]

theorem hasSize_of_sizeWithin {bound : Nat} {t : Ty} {n : Int}
    (h : p.sizeWithin bound t = some n) : p.HasSize t n := by
  fun_induction sizeWithin p bound t with
  | case1 _ kind =>
    cases h
    exact ⟨0, .base kind⟩
  | case2 _ name =>
    obtain ⟨s, hs, rfl⟩ := Option.map_eq_some_iff.mp h
    exact ⟨0, .structRef hs⟩
  | case3 _ element dims count ih =>
    obtain ⟨hops, hsize⟩ := ih h
    exact ⟨hops, .array dims count hsize⟩
  | case4 _ underlying length position ih =>
    obtain ⟨hops, hsize⟩ := ih h
    exact ⟨hops, .bitfield length position hsize⟩
  | case5 _ target =>
    cases h
    exact ⟨0, .pointer target⟩
  | case6 =>
    cases h
    exact ⟨0, .function⟩
  | case7 => cases h
  | case8 _ name ih =>
    obtain ⟨e, he, hsub⟩ := Option.bind_eq_some_iff.mp h
    obtain ⟨hops, hsize⟩ := ih e hsub
    exact ⟨hops + 1, .enumRef he hsize⟩

/-- The bound on enumerations is no loss: every size there is is found. -/
theorem typeSize_eq_some_iff (p : Profile) (t : Ty) (n : Int) :
    p.typeSize t = some n ↔ p.HasSize t n := by
  constructor
  · exact hasSize_of_sizeWithin
  · rintro ⟨hops, h⟩
    exact sizeWithin_of_sizeAfter h _ h.hops_le

end KernelProfile.Profile
