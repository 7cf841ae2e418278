import KernelProfile.CodeView.Collect
import KernelProfile.Proofs.Bytes
import KernelProfile.Proofs.Except

/-! What the decoder of type records guarantees about the records that it gives: an enumerator's
value fits the label it was read under, and an aggregate has a leaf that stands for a kind of
aggregate. Everything that is built from a record later relies on these two. -/
namespace KernelProfile.CodeView

/-- A value is a variant of the kind that a label names. -/
def Fits (label : String) (value : Int) : Prop := ∃ v, Variant.ofLabel label value = .ok v

theorem fits_of_holds {kind : VariantKind} {value : Int} (h : kind.holds value = true) :
    Fits kind.label value := by
  refine ⟨⟨kind, value, h⟩, ?_⟩
  simp only [Variant.ofLabel, VariantKind.ofLabel?_label, Variant.make, h, dif_pos]

def FieldEntry.Sound : FieldEntry → Prop
  | .enumerator _ value label _ => Fits label value
  | _ => True

def TypeRecord.Sound : TypeRecord → Prop
  | .aggregate r => (structKind? r.leaf).isSome = true
  | .fieldList r => ∀ e ∈ r.entries, e.Sound
  | _ => True

namespace Reader

variable {α β : Type} {P : α → Prop} {Q : β → Prop}

/-- Whatever a reader gives has a property. -/
def Ensures (r : Reader α) (P : α → Prop) : Prop :=
  ∀ bs a rest, r.run bs = .ok (a, rest) → P a

namespace Ensures

theorem any (r : Reader α) : Ensures r fun _ => True := by
  intro bs a rest _
  trivial

theorem pure {a : α} (h : P a) : Ensures (pure a) P := by
  intro bs a' rest hrun
  cases hrun
  exact h

theorem fail (e : Fault) : Ensures (throw e : Reader α) P := by
  intro bs a rest hrun
  cases hrun

theorem bind {x : Reader α} {f : α → Reader β} (hx : Ensures x P)
    (hf : ∀ a, P a → Ensures (f a) Q) : Ensures (x >>= f) Q := by
  intro bs b rest hrun
  rw [StateT.run_bind] at hrun
  obtain ⟨⟨a, mid⟩, ha, hb⟩ := bind_eq_ok.mp hrun
  exact hf a (hx bs a mid ha) mid b rest hb

/-- A step of a reader whose result does not matter. -/
theorem after {x : Reader α} {f : α → Reader β} (hf : ∀ a, Ensures (f a) Q) :
    Ensures (x >>= f) Q :=
  (any x).bind fun a _ => hf a

end Ensures

/-! ## Numbers -/

theorem unsigned_lt (width : Nat) : Ensures (unsigned width) fun n => n < 256 ^ width := by
  intro bs n rest hrun
  cases hsplit : bs.split? width with
  | none =>
    have hfail : (unsigned width).run bs = .error .short := by
      show unsigned width bs = _
      simp only [unsigned, hsplit]
    rw [hfail] at hrun
    cases hrun
  | some parts =>
    obtain ⟨word, tail⟩ := parts
    have hread : (unsigned width).run bs = .ok (word.littleNat, tail) := by
      show unsigned width bs = _
      simp only [unsigned, hsplit]
    rw [hread] at hrun
    cases hrun
    rw [← (Bytes.split?_eq_some hsplit).1]
    exact Bytes.littleNat_lt word

theorem signed_of_unsigned (width : Nat) :
    Ensures (signed width) fun v => ∃ n < 256 ^ width, v = Bytes.signed width n := by
  refine (unsigned_lt width).bind ?_
  intro n hn
  exact .pure ⟨n, hn, rfl⟩

/-- The range of an unsigned kind is that of as many bytes as it has. -/
theorem holds_unsigned_iff {k : VariantKind} (hk : k.isSigned = false) (v : Int) :
    k.holds v = true ↔ 0 ≤ v ∧ v < (256 ^ (k.bits / 8) : Int) := by
  have hleast : k.least = 0 := by simp [VariantKind.least, hk]
  have hgreatest : k.greatest = (256 ^ (k.bits / 8) : Int) - 1 := by
    cases k with
    | u8 | u16 | u32 | u64 | u128 => rfl
    | i8 | i16 | i32 | i64 | i128 => cases hk
  simp only [VariantKind.holds, hleast, hgreatest, Bool.and_eq_true, decide_eq_true_eq]
  omega

/-- The range of a signed kind is that of the two's complements of as many bytes as it has. -/
theorem holds_signed_iff {k : VariantKind} (hk : k.isSigned = true) (v : Int) :
    k.holds v = true ↔
      -(256 ^ (k.bits / 8) : Int) ≤ 2 * v ∧ 2 * v < (256 ^ (k.bits / 8) : Int) := by
  have hleast : 2 * k.least = -(256 ^ (k.bits / 8) : Int) := by
    cases k with
    | u8 | u16 | u32 | u64 | u128 => cases hk
    | i8 | i16 | i32 | i64 | i128 => rfl
  have hgreatest : 2 * k.greatest = (256 ^ (k.bits / 8) : Int) - 2 := by
    cases k with
    | u8 | u16 | u32 | u64 | u128 => cases hk
    | i8 | i16 | i32 | i64 | i128 => rfl
  simp only [VariantKind.holds, Bool.and_eq_true, decide_eq_true_eq]
  omega

/-- As many bytes as a kind has hold a number of that kind, read with the kind's sign. -/
theorem holds_unsigned {k : VariantKind} (hk : k.isSigned = false) {n : Nat}
    (h : n < 256 ^ (k.bits / 8)) : k.holds n = true := by
  rw [holds_unsigned_iff hk, ← Bytes.natCast_size]
  omega

theorem holds_signed {k : VariantKind} (hk : k.isSigned = true) {n : Nat}
    (h : n < 256 ^ (k.bits / 8)) : k.holds (Bytes.signed (k.bits / 8) n) = true :=
  (holds_signed_iff hk _).mpr (Bytes.signed_range h)

/-- Every number that is read fits its label. -/
theorem numeric_fits : Ensures numeric fun p => Fits p.2 p.1 := by
  refine (unsigned_lt 2).bind ?_
  intro leaf hleaf
  split
  · -- the leaf is the number itself, and has sixteen bits
    have hholds : VariantKind.u16.holds leaf = true := holds_unsigned rfl hleaf
    exact .pure (fits_of_holds hholds)
  · split
    · exact .fail _
    · rename_i k _
      cases hk : k.isSigned with
      | true =>
        refine (signed_of_unsigned (k.bits / 8)).bind ?_
        rintro v ⟨n, hn, rfl⟩
        exact .pure (fits_of_holds (holds_signed hk hn))
      | false =>
        refine (unsigned_lt (k.bits / 8)).bind ?_
        intro n hn
        exact .pure (fits_of_holds (holds_unsigned hk hn))

end Reader

open Reader

/-! ## Records -/

def FieldStep.Sound : FieldStep → Prop
  | .entry e => e.Sound
  | .continuation _ => True

/-- Among the entries of a field list only enumerators have something to guarantee. -/
theorem fieldStep_sound {leaf : Nat} {body : Reader FieldStep} (h : fieldStep leaf = some body) :
    Ensures body FieldStep.Sound := by
  unfold fieldStep at h
  split at h <;> cases h
  case h_2 =>
    refine .after fun _ => numeric_fits.bind ?_
    rintro ⟨value, label⟩ hfits
    exact .after fun _ => .pure hfits
  case h_14 =>
    -- whether four bytes more are passed over depends on the method's attributes
    refine .after fun _ => .after fun _ => ?_
    dsimp only
    split
    · exact .after fun _ => .after fun _ => .pure trivial
    · exact .after fun _ => .pure trivial
  all_goals
    repeat refine .after fun _ => ?_
    exact .pure trivial

/-- The entries of a field list are those of its steps. -/
theorem fieldEntries_sound (bound : Nat) (last : Option Int) :
    Ensures (fieldEntries bound last) fun r => ∀ e ∈ r.entries, e.Sound := by
  have hnil : ∀ last, Ensures (pure ⟨[], last⟩ : Reader FieldListRecord)
      fun r => ∀ e ∈ r.entries, e.Sound := by
    intro last
    exact .pure (by simp)
  -- on the bound of the loop; the list ends early with its bytes or at an unknown leaf
  induction bound generalizing last with
  | zero => exact hnil last
  | succ bound ih =>
    refine .after fun bs => ?_
    split
    · exact hnil last
    · refine .after fun leaf => ?_
      split
      · exact hnil last
      · rename_i body hbody
        refine (fieldStep_sound hbody).bind ?_
        intro step hstep
        cases step with
        | continuation index => exact .after fun _ => ih (some index)
        | entry e =>
          refine .after fun _ => (ih last).bind ?_
          intro rest hrest
          refine .pure ?_
          intro x hx
          rcases List.mem_cons.mp hx with rfl | hx
          · exact hstep
          · exact hrest x hx

theorem recordBody_sound (leaf : Nat) : Ensures (recordBody leaf) TypeRecord.Sound := by
  unfold recordBody
  split
  case h_12 =>
    refine .after fun bs => (fieldEntries_sound bs.length none).bind ?_
    intro r hr
    exact .pure hr
  case h_7 | h_8 | h_9 | h_10 =>
    -- the leaves of aggregates are those that have a kind
    repeat refine .after fun _ => ?_
    exact .pure rfl
  all_goals
    repeat refine .after fun _ => ?_
    exact .pure trivial

/-- **Every record that is decoded is sound.** -/
theorem decodeRecord_sound {leaf : Nat} {payload : Bytes} {r : TypeRecord}
    (h : decodeRecord leaf payload = .ok r) : r.Sound := by
  unfold decodeRecord at h
  split at h
  · rename_i record rest hrun
    cases h
    exact recordBody_sound leaf payload r rest hrun
  · cases h
  · cases h

end KernelProfile.CodeView
