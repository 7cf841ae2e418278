import KernelProfile.Proofs.CodeView.Decode
import KernelProfile.Proofs.CodeView.Written
import KernelProfile.Proofs.Text.Utf8

/-! The decoder of type records inverts the format: every written record is decoded to the record
that it stands for. What a reader takes from the front of its bytes does not depend on what follows
them, so the readers of a record compose field by field; only padding looks ahead, and no leaf
starts like padding. -/
namespace KernelProfile.CodeView

namespace Reader

variable {α β : Type}

/-- A reader takes exactly these bytes from the front of any others, and gives this. -/
def Reads (r : Reader α) (bs : Bytes) (a : α) : Prop :=
  ∀ rest, r.run (bs ++ rest) = .ok (a, rest)

/-- A reader goes on with the bytes that its first step leaves. -/
theorem run_bind_of_ok {x : Reader α} {f : α → Reader β} {bs rest : Bytes} {a : α}
    (h : x.run bs = .ok (a, rest)) : (x >>= f).run bs = (f a).run rest := by
  rw [StateT.run_bind, h]
  rfl

theorem run_get_bind (f : Bytes → Reader β) (bs : Bytes) :
    ((get : Reader Bytes) >>= f).run bs = (f bs).run bs := rfl

namespace Reads

theorem pure (a : α) : Reads (pure a) [] a := by
  intro rest
  rfl

theorem bind {x : Reader α} {f : α → Reader β} {bs cs : Bytes} {a : α} {b : β}
    (hx : Reads x bs a) (hf : Reads (f a) cs b) : Reads (x >>= f) (bs ++ cs) b := by
  intro rest
  rw [List.append_assoc, run_bind_of_ok (hx (cs ++ rest))]
  exact hf rest

/-- The first field of several. -/
theorem field {x : Reader α} {f : α → Reader β} {bs : Bytes} {parts : List Bytes} {a : α} {b : β}
    (hx : Reads x bs a) (hf : Reads (f a) parts.flatten b) :
    Reads (x >>= f) (bs :: parts).flatten b :=
  hx.bind hf

/-- The last field. -/
theorem last {x : Reader α} {f : α → Reader β} {bs : Bytes} {a : α} {b : β} (hx : Reads x bs a)
    (hf : Reads (f a) [] b) : Reads (x >>= f) bs b := by
  have h := hx.bind hf
  rwa [List.append_nil] at h

end Reads

/-! ## Fields -/

theorem reads_unsigned {width : Nat} {bs : Bytes} (h : bs.length = width) :
    Reads (unsigned width) bs bs.littleNat := by
  intro rest
  subst h
  show unsigned bs.length (bs ++ rest) = _
  rw [unsigned, Bytes.split?_of_le (by rw [List.length_append]; exact Nat.le_add_right _ _)]
  simp only [List.take_left, List.drop_left]

theorem reads_ofNatLittle {width n : Nat} (h : n < 256 ^ width) :
    Reads (unsigned width) (Bytes.ofNatLittle width n) n := by
  have hread := reads_unsigned (Bytes.length_ofNatLittle width n)
  rwa [Bytes.littleNat_ofNatLittle h] at hread

theorem reads_skip {width : Nat} {bs : Bytes} (h : bs.length = width) :
    Reads (skip width) bs () :=
  (reads_unsigned h).last (.pure ())

theorem reads_signed {width : Nat} {v : Int} (hlow : -(256 ^ width : Int) ≤ 2 * v)
    (hhigh : 2 * v < (256 ^ width : Int)) : Reads (signed width) (Bytes.ofIntLittle width v) v := by
  refine (reads_unsigned (Bytes.length_ofIntLittle width v)).last ?_
  rw [Bytes.signed_ofIntLittle hlow hhigh]
  exact .pure v

end Reader

namespace Written

open Reader

theorem Word.length_bytes {width : Nat} (w : Word width) : w.bytes.length = width :=
  Bytes.length_ofNatLittle width w.value

theorem Word.length_two {m n : Nat} (v : Word m) (w : Word n) :
    (v.bytes ++ w.bytes).length = m + n := by
  rw [List.length_append, v.length_bytes, w.length_bytes]

theorem Word.length_three {m n k : Nat} (v : Word m) (w : Word n) (x : Word k) :
    (v.bytes ++ w.bytes ++ x.bytes).length = m + n + k := by
  rw [List.length_append, v.length_two w, x.length_bytes]

theorem Word.reads {width : Nat} (w : Word width) : Reads (unsigned width) w.bytes w.value :=
  reads_ofNatLittle w.fits

theorem Name.reads (n : Name) : Reads name n.bytes n.text := by
  intro rest
  have hzero : ∀ b ∈ Text.Utf8.encode n.text, (b != 0) = true := by
    intro b hb
    rw [bne_iff_ne]
    rintro rfl
    exact Text.Utf8.zero_notMem_encode n.noZero hb
  have hraw : (n.bytes ++ rest).takeWhile (· != 0) = Text.Utf8.encode n.text := by
    rw [Name.bytes, List.append_assoc, List.takeWhile_append_of_pos hzero]
    simp
  show name (n.bytes ++ rest) = _
  unfold name
  dsimp only
  rw [hraw, Text.Utf8.decodeLossy_encode, Name.bytes, List.append_assoc, List.drop_left]
  rfl

/-- The leaves of the format are those that the decoder knows, and none of them is a number. -/
theorem numericKind?_of_numericLeaf? {kind : VariantKind} {leaf : Nat}
    (h : numericLeaf? kind = some leaf) :
    0x8000 ≤ leaf ∧ leaf < 256 ^ 2 ∧ numericKind? leaf = some kind := by
  cases kind <;> cases h <;> exact ⟨by decide, by decide, rfl⟩

theorem reads_variant (v : Variant) :
    Reads (if v.kind.isSigned then do return (← signed (v.kind.bits / 8), v.kind.label)
        else do return (← unsigned (v.kind.bits / 8), v.kind.label))
      (Bytes.ofIntLittle (v.kind.bits / 8) v.value) (v.value, v.kind.label) := by
  cases hsign : v.kind.isSigned with
  | true =>
    obtain ⟨hlow, hhigh⟩ := (holds_signed_iff hsign v.value).mp v.fits
    exact (reads_signed hlow hhigh).last (.pure _)
  | false =>
    obtain ⟨hlow, hhigh⟩ := (holds_unsigned_iff hsign v.value).mp v.fits
    have hword := Bytes.littleNat_ofIntLittle (v.kind.bits / 8) v.value
    rw [Int.emod_eq_of_lt hlow hhigh] at hword
    refine (reads_unsigned (Bytes.length_ofIntLittle (v.kind.bits / 8) v.value)).last ?_
    rw [hword]
    exact .pure _

/-- **A number of variable width is read back with its label.** -/
theorem Numeric.reads (n : Numeric) : Reads numeric n.bytes (n.value, n.label) := by
  cases n with
  | inline n small =>
    refine (reads_ofNatLittle (Nat.lt_trans small (by decide))).last ?_
    rw [if_pos small]
    exact .pure _
  | wide leaf v named =>
    obtain ⟨hlow, hhigh, hkind⟩ := numericKind?_of_numericLeaf? named
    refine (reads_ofNatLittle hhigh).bind ?_
    rw [if_neg (Nat.not_lt.mpr hlow), hkind]
    exact reads_variant v

/-! ## Field lists -/

theorem Entry.reads (e : Entry) : ∃ r, fieldStep e.leaf = some r ∧ Reads r e.body e.step := by
  cases e with
  | member attributes type offset name =>
    refine ⟨_, rfl, ?_⟩
    refine attributes.reads.field (type.reads.field ?_)
    exact offset.reads.field (name.reads.field (.pure _))
  | enumerator attributes value name =>
    refine ⟨_, rfl, ?_⟩
    exact attributes.reads.field (value.reads.field (name.reads.field (.pure _)))
  | continuation pad target =>
    refine ⟨_, rfl, ?_⟩
    exact (reads_skip pad.length_bytes).field (target.reads.field (.pure _))
  | base leaf known attributes type offset =>
    simp only [List.mem_cons, List.not_mem_nil, or_false] at known
    rcases known with rfl | rfl
    all_goals
      refine ⟨_, rfl, ?_⟩
      exact (reads_skip (attributes.length_two type)).field (offset.reads.field (.pure _))
  | virtualBase leaf known attributes type pointer offset slot =>
    simp only [List.mem_cons, List.not_mem_nil, or_false] at known
    rcases known with rfl | rfl
    all_goals
      refine ⟨_, rfl, ?_⟩
      exact (reads_skip (attributes.length_three type pointer)).field
        (offset.reads.field (slot.reads.field (.pure _)))
  | functionTable pad type =>
    refine ⟨_, rfl, ?_⟩
    exact (reads_skip (pad.length_two type)).field (.pure _)
  | functionOffset pad type offset =>
    refine ⟨_, rfl, ?_⟩
    exact (reads_skip (pad.length_three type offset)).field (.pure _)
  | named leaf known head target name =>
    simp only [List.mem_cons, List.not_mem_nil, or_false] at known
    rcases known with rfl | rfl | rfl | rfl
    all_goals
      refine ⟨_, rfl, ?_⟩
      exact (reads_skip (head.length_two target)).field (name.reads.field (.pure _))
  | method attributes type slot exact name =>
    refine ⟨_, rfl, ?_⟩
    refine attributes.reads.field ((reads_skip type.length_bytes).field ?_)
    -- the slot is in the bytes exactly where the decoder passes over one
    dsimp only
    rw [show (bitsOf attributes.value 2 3 == 4 || bitsOf attributes.value 2 3 == 6) = slot.isSome
      from exact.symm]
    cases slot with
    | none =>
      rw [if_neg (by decide)]
      exact name.reads.field (.pure _)
    | some slot =>
      rw [if_pos Option.isSome_some]
      exact (reads_skip slot.length_bytes).field (name.reads.field (.pure _))

/-- The leaf of an entry has two bytes, and the first is none of the padding bytes. -/
theorem Entry.leaf_range (e : Entry) : e.leaf < 256 ^ 2 ∧ e.leaf % 256 ≤ 0xF0 := by
  cases e with
  | base leaf known | virtualBase leaf known | named leaf known =>
    simp only [List.mem_cons, List.not_mem_nil, or_false] at known
    rw [Entry.leaf]
    omega
  | _ =>
    rw [Entry.leaf]
    omega

theorem length_padding (n : Fin 16) : (padding n).length = n := by
  simp [padding]

theorem padding_cons {n : Nat} (h : n + 1 < 16) :
    ∃ tail, padding ⟨n + 1, h⟩ = UInt8.ofNat (0xF1 + n) :: tail := by
  refine ⟨(List.range n).reverse.map fun k => UInt8.ofNat (0xF1 + k), ?_⟩
  simp only [padding, List.range_succ, List.reverse_append, List.reverse_singleton,
    List.singleton_append, List.map_cons]

/-- Padding is passed over as a whole where what follows does not look like padding. -/
theorem skipPadding_padding (n : Fin 16) {rest : Bytes} (h : ∀ b ∈ rest.head?, b.toNat ≤ 0xF0) :
    skipPadding.run (padding n ++ rest) = .ok ((), rest) := by
  have hdrop : (padding n ++ rest).drop n = rest := List.drop_left' (length_padding n)
  obtain ⟨n, hn⟩ := n
  cases n with
  | zero =>
    cases rest with
    | nil => rfl
    | cons b rest =>
      have hb : ¬ 0xF0 < b.toNat := Nat.not_lt.mpr (h b rfl)
      show skipPadding (b :: rest) = _
      simp only [skipPadding, hb, if_false]
  | succ n =>
    obtain ⟨tail, hpad⟩ := padding_cons hn
    have hb : (UInt8.ofNat (0xF1 + n)).toNat = 0xF1 + n :=
      UInt8.toNat_ofNat_of_lt' (show 0xF1 + n < 256 by omega)
    have hdistance : (0xF1 + n) % 16 = n + 1 := by omega
    rw [hpad, List.cons_append] at hdrop ⊢
    show skipPadding (_ :: (tail ++ rest)) = _
    rw [skipPadding, hb, if_pos (by omega), hdistance, hdrop]

/-- Behind a list of entries stands no byte that looks like padding. -/
theorem head?_flatMap_bytes (entries : List Padded) :
    ∀ b ∈ (entries.flatMap Padded.bytes).head?, b.toNat ≤ 0xF0 := by
  intro b hb
  cases entries with
  | nil => cases hb
  | cons p entries =>
    cases hb
    have hlow : p.entry.leaf % 256 ≤ 0xF0 := p.entry.leaf_range.2
    show (UInt8.ofNat (p.entry.leaf % 256)).toNat ≤ 0xF0
    rw [UInt8.toNat_ofNat_of_lt' (Nat.mod_lt _ (by decide))]
    exact hlow

/-- One turn of the loop: an entry of the list is passed with its padding. -/
theorem fieldEntries_cons (bound : Nat) (last : Option Int) (p : Padded) {rest : Bytes}
    (hrest : ∀ b ∈ rest.head?, b.toNat ≤ 0xF0) :
    (fieldEntries (bound + 1) last).run (p.bytes ++ rest) =
      (match p.entry.step with
        | .continuation index => fieldEntries bound (some index)
        | .entry e => do
          let tail ← fieldEntries bound last
          return { tail with entries := e :: tail.entries }).run rest := by
  obtain ⟨body, hstep, hbody⟩ := p.entry.reads
  have hleaf := reads_ofNatLittle p.entry.leaf_range.1 (p.entry.body ++ (padding p.pad ++ rest))
  have hlen : ¬ (p.bytes ++ rest).length < 2 := by
    rw [Padded.bytes, List.append_assoc, List.length_append, Bytes.length_ofNatLittle]
    omega
  have hbytes : p.bytes ++ rest =
      Bytes.ofNatLittle 2 p.entry.leaf ++ (p.entry.body ++ (padding p.pad ++ rest)) := by
    simp only [Padded.bytes, List.append_assoc]
  rw [fieldEntries, run_get_bind, if_neg hlen, hbytes, run_bind_of_ok hleaf, hstep]
  dsimp only
  rw [run_bind_of_ok (hbody (padding p.pad ++ rest))]
  cases p.entry.step with
  | continuation index =>
    dsimp only
    rw [run_bind_of_ok (skipPadding_padding p.pad hrest)]
  | entry e =>
    dsimp only
    rw [run_bind_of_ok (skipPadding_padding p.pad hrest)]

/-- The whole loop. The last continuation counts, or the one that is known so far where the list
has none. -/
theorem fieldEntries_run (entries : List Padded) {bound : Nat} (hbound : entries.length ≤ bound)
    (last : Option Int) :
    (fieldEntries bound last).run (entries.flatMap Padded.bytes) =
      .ok (⟨entries.filterMap Padded.entry?,
        ((entries.filterMap Padded.target?).getLast?).or last⟩, []) := by
  -- on the entries, each of which takes one turn; a continuation replaces the one known so far
  induction entries generalizing bound last with
  | nil => cases bound <;> rfl
  | cons p entries ih =>
    obtain ⟨bound, rfl⟩ : ∃ n, bound = n + 1 := Nat.exists_eq_add_one.mpr (by
      rw [List.length_cons] at hbound
      omega)
    have hrest : entries.length ≤ bound := Nat.le_of_succ_le_succ hbound
    rw [List.flatMap_cons, fieldEntries_cons bound last p (head?_flatMap_bytes entries)]
    simp only [List.filterMap_cons, Padded.entry?, Padded.target?]
    cases p.entry.step with
    | continuation index =>
      dsimp only
      rw [ih hrest (some index), List.getLast?_cons]
      cases (entries.filterMap Padded.target?).getLast? <;> rfl
    | entry e =>
      dsimp only
      rw [run_bind_of_ok (ih hrest last)]
      rfl

theorem length_le_flatMap_bytes (entries : List Padded) :
    entries.length ≤ (entries.flatMap Padded.bytes).length := by
  induction entries with
  | nil => exact Nat.le_refl 0
  | cons p entries ih =>
    have hp : 1 ≤ p.bytes.length := by
      rw [Padded.bytes, List.length_append, Bytes.length_ofNatLittle]
      omega
    rw [List.flatMap_cons, List.length_append, List.length_cons]
    omega

/-! ## Records -/

theorem Body.reads (b : Body) : Reads (recordBody b.leaf) b.head b.record := by
  cases b with
  | modifier underlying attributes =>
    exact underlying.reads.field (attributes.reads.field (.pure _))
  | pointer underlying attributes =>
    exact underlying.reads.field (attributes.reads.field (.pure _))
  | procedure returnType convention attributes count parameters =>
    exact returnType.reads.field ((reads_skip (convention.length_two attributes)).field
      (count.reads.field ((reads_skip parameters.length_bytes).field (.pure _))))
  | memberFunction returnType classType thisType convention attributes count parameters
      adjustment =>
    refine returnType.reads.field (classType.reads.field (thisType.reads.field ?_))
    refine (reads_skip (convention.length_two attributes)).field (count.reads.field ?_)
    exact (reads_skip (parameters.length_two adjustment)).field (.pure _)
  | bitfield underlying length position =>
    exact underlying.reads.field (length.reads.field (position.reads.field (.pure _)))
  | array element indexType size name =>
    refine element.reads.field (indexType.reads.field ?_)
    exact size.reads.field (name.reads.field (.pure _))
  | aggregate leaf known count properties fields derived shape size name unique exact =>
    simp only [List.mem_cons, List.not_mem_nil, or_false] at known
    rcases known with rfl | rfl | rfl
    all_goals
      refine count.reads.field (properties.reads.field (fields.reads.field ?_))
      refine (reads_skip (derived.length_two shape)).field ?_
      exact size.reads.field (name.reads.field (.pure _))
  | union count properties fields size name unique exact =>
    exact count.reads.field (properties.reads.field (fields.reads.field
      (size.reads.field (name.reads.field (.pure _)))))
  | enumeration count properties underlying fields name unique exact =>
    exact count.reads.field (properties.reads.field (underlying.reads.field
      (fields.reads.field (name.reads.field (.pure _)))))

theorem decodeRecord_of_run {leaf : Nat} {payload rest : Bytes} {r : TypeRecord}
    (h : (recordBody leaf).run payload = .ok (r, rest)) : decodeRecord leaf payload = .ok r := by
  rw [decodeRecord, h]

/-- **Decoding inverts the format.** The bytes of a written record, behind its leaf, are decoded to
the record that is written: with all its entries in their order where it is a field list, and with
nothing made of padding. -/
theorem decodeRecord_written (w : Record) : decodeRecord w.leaf w.bytes = .ok w.record := by
  cases w with
  | plain body tail =>
    have hrun := body.reads ((body.unique.map Name.bytes).getD [] ++ tail)
    rw [← List.append_assoc] at hrun
    exact decodeRecord_of_run hrun
  | fieldList entries =>
    have hrun := fieldEntries_run entries (length_le_flatMap_bytes entries) none
    rw [Option.or_none] at hrun
    have hbody : (recordBody 0x1203).run (entries.flatMap Padded.bytes) =
        .ok ((Record.fieldList entries).record, []) := by
      rw [recordBody, run_get_bind, run_bind_of_ok hrun]
      rfl
    exact decodeRecord_of_run hbody

-- the bytes of a member, an enumerator with padding behind it, and a continuation
example :
    (Record.fieldList [
      ⟨.member ⟨3, by decide⟩ ⟨0x74, by decide⟩ (.inline 8 (by decide)) ⟨"a", by decide⟩, 0⟩,
      ⟨.enumerator ⟨3, by decide⟩ (.wide 0x8000 ⟨.i8, -1, rfl⟩ rfl) ⟨"n", by decide⟩, 2⟩,
      ⟨.continuation ⟨0, by decide⟩ ⟨0x1010, by decide⟩, 0⟩]).bytes =
    [0x0D, 0x15, 3, 0, 0x74, 0, 0, 0, 8, 0, 0x61, 0,
      0x02, 0x15, 3, 0, 0x00, 0x80, 0xFF, 0x6E, 0, 0xF2, 0xF1,
      0x04, 0x14, 0, 0, 0x10, 0x10, 0, 0] := by cbv

end Written
end KernelProfile.CodeView
