import KernelProfile.Proofs.CodeView.Array
import KernelProfile.Proofs.Reference

/-! Chains of type records. A record is a link to at most one other type, so that the records from a
type on form one chain, which may be cyclic. Reading a type over a bounded number of links ends on
every chain and nests no deeper than the bound; on a chain that is no longer than the bound it
gives what the records say without one. -/
namespace KernelProfile

namespace CodeView

namespace TypeRecord

/-- The type that a record is a link to. -/
def next? : TypeRecord → Option Int
  | .pointer underlying _ => some underlying
  | .modifier underlying _ => some underlying
  | .bitfield underlying _ _ => some underlying
  | .array r => some r.element
  | .enumeration r => some r.underlying
  | _ => none

/-- No value is of the type that a record stands for. -/
def isValueless : TypeRecord → Bool
  | .procedure .. => true
  | .memberFunction .. => true
  | .fieldList _ => true
  | .unknown _ => true
  | _ => false

end TypeRecord

namespace Context

variable {c : Context} {i j : Int} {limit : Nat}

/-- So many links lead from one type to another. -/
inductive Leads (c : Context) : Nat → Int → Int → Prop
  | refl (i : Int) : Leads c 0 i i
  | step {n : Nat} {i j k : Int} {record : TypeRecord} (hr : c.record? i = some record)
    (hn : record.next? = some j) (h : Leads c n j k) : Leads c (n + 1) i k

theorem Leads.trans {m n : Nat} {k : Int} (h : c.Leads m i j) (h' : c.Leads n j k) :
    c.Leads (m + n) i k := by
  induction h with
  | refl i =>
    rw [Nat.zero_add]
    exact h'
  | step hr hn _ ih =>
    rw [Nat.add_right_comm]
    exact .step hr hn (ih h')

/-- Every chain from a type on has at most so many links. -/
def ChainsWithin (c : Context) (limit : Nat) (i : Int) : Prop := ∀ n j, c.Leads n i j → n ≤ limit

theorem ChainsWithin.next (h : c.ChainsWithin limit i) {record : TypeRecord}
    (hr : c.record? i = some record) (hn : record.next? = some j) :
    ∃ rest, limit = rest + 1 ∧ c.ChainsWithin rest j := by
  have hpos : 1 ≤ limit := h 1 j (.step hr hn (.refl j))
  refine ⟨limit - 1, by omega, fun n k hleads => ?_⟩
  have hle : n + 1 ≤ limit := h (n + 1) k (.step hr hn hleads)
  omega

/-! ## What the records say -/

/-- The byte size of a type as its records tell it, with nothing to cut the chain off. -/
inductive SizeIs (c : Context) : Int → Int → Prop
  | missing {i : Int} (hr : c.record? i = none) : SizeIs c i 0
  | valueless {i : Int} {record : TypeRecord} (hr : c.record? i = some record)
    (h : record.isValueless = true) : SizeIs c i 0
  | primitive {i index : Int} (hr : c.record? i = some (.primitive index)) :
    SizeIs c i (if primitiveModeOf index = 0 then (primitiveBase (primitiveKindOf index)).size
      else c.pointerSize)
  | aggregate {i : Int} {r : AggregateRecord} (hr : c.record? i = some (.aggregate r)) :
    SizeIs c i (if r.isForward then (c.sizes.get? r.name).getD 0 else r.size)
  | array {i : Int} {r : ArrayRecord} (hr : c.record? i = some (.array r)) : SizeIs c i r.byteSize
  | pointer {i underlying attributes : Int}
    (hr : c.record? i = some (.pointer underlying attributes)) :
    SizeIs c i (if pointerSizeOf attributes = 0 then c.pointerSize else pointerSizeOf attributes)
  | enumeration {i size : Int} {r : EnumRecord} (hr : c.record? i = some (.enumeration r))
    (h : SizeIs c r.underlying size) : SizeIs c i size
  | modifier {i underlying attributes size : Int}
    (hr : c.record? i = some (.modifier underlying attributes)) (h : SizeIs c underlying size) :
    SizeIs c i size
  | bitfield {i underlying length position size : Int}
    (hr : c.record? i = some (.bitfield underlying length position))
    (h : SizeIs c underlying size) : SizeIs c i size

/-- The type of an index as its records tell it, with nothing to cut the chain off. Modifiers leave
no trace, and an array directly around another one adds its extent to the dimensions of that one. -/
inductive TypeIs (c : Context) : Int → Ty → Prop
  | missing {i : Int} (hr : c.record? i = none) : TypeIs c i .void
  | fieldList {i : Int} {r : FieldListRecord} (hr : c.record? i = some (.fieldList r)) :
    TypeIs c i .void
  | unknown {i leaf : Int} (hr : c.record? i = some (.unknown leaf)) : TypeIs c i .void
  | procedure {i returnType parameterCount : Int}
    (hr : c.record? i = some (.procedure returnType parameterCount)) : TypeIs c i .function
  | memberFunction {i returnType classType thisType parameterCount : Int}
    (hr : c.record? i = some (.memberFunction returnType classType thisType parameterCount)) :
    TypeIs c i .function
  | value {i index : Int} (hr : c.record? i = some (.primitive index))
    (hmode : primitiveModeOf index = 0) :
    TypeIs c i (.base (primitiveBase (primitiveKindOf index)))
  | reached {i index : Int} (hr : c.record? i = some (.primitive index))
    (hmode : primitiveModeOf index ≠ 0) :
    TypeIs c i (.pointer (.base (primitiveBase (primitiveKindOf index))))
  | aggregate {i : Int} {r : AggregateRecord} (hr : c.record? i = some (.aggregate r)) :
    TypeIs c i (.structRef (profileName r.name i))
  | enumeration {i : Int} {r : EnumRecord} (hr : c.record? i = some (.enumeration r)) :
    TypeIs c i (.enumRef (profileName r.name i))
  | pointer {i underlying attributes : Int} {T : Ty}
    (hr : c.record? i = some (.pointer underlying attributes)) (h : TypeIs c underlying T) :
    TypeIs c i (.pointer T)
  | bitfield {i underlying length position : Int} {T : Ty}
    (hr : c.record? i = some (.bitfield underlying length position)) (h : TypeIs c underlying T) :
    TypeIs c i (.bitfield T length position)
  | modifier {i underlying attributes : Int} {T : Ty}
    (hr : c.record? i = some (.modifier underlying attributes)) (h : TypeIs c underlying T) :
    TypeIs c i T
  | array {i size : Int} {r : ArrayRecord} {T : Ty} (hr : c.record? i = some (.array r))
    (hother : ∀ r', c.record? r.element ≠ some (.array r')) (hsize : SizeIs c r.element size)
    (h : TypeIs c r.element T) : TypeIs c i (arrayOf ([countOf r.byteSize size], T))
  | nested {i size : Int} {r inner : ArrayRecord} {layout : List Int × Ty}
    (hr : c.record? i = some (.array r)) (hinner : c.record? r.element = some (.array inner))
    (hsize : SizeIs c r.element size) (h : TypeIs c r.element (arrayOf layout)) :
    TypeIs c i (arrayOf (countOf r.byteSize size :: layout.1, layout.2))

/-! ## Sizes within the bound -/

/-- Over more links than the chain has, the bound on them is not met. -/
theorem SizeIs.sizeWithin_eq {size : Int} (h : c.SizeIs i size) {links : Nat}
    (hshort : c.ChainsWithin links i) : c.sizeWithin (links + 1) i = size := by
  induction h generalizing links with
  | missing hr => rw [sizeWithin, hr]
  | @valueless i record hr hvalueless =>
    rw [sizeWithin, hr]
    cases record with
    | procedure | memberFunction | fieldList | unknown => rfl
    | _ => cases hvalueless
  | primitive hr => rw [sizeWithin, hr]
  | aggregate hr => rw [sizeWithin, hr]
  | array hr => rw [sizeWithin, hr]
  | pointer hr => rw [sizeWithin, hr]
  | enumeration hr _ ih =>
    obtain ⟨rest, rfl, hrest⟩ := hshort.next hr rfl
    rw [sizeWithin, hr]
    exact ih hrest
  | modifier hr _ ih =>
    obtain ⟨rest, rfl, hrest⟩ := hshort.next hr rfl
    rw [sizeWithin, hr]
    exact ih hrest
  | bitfield hr _ ih =>
    obtain ⟨rest, rfl, hrest⟩ := hshort.next hr rfl
    rw [sizeWithin, hr]
    exact ih hrest

/-- A chain that ends has a size at its end. -/
theorem ChainsWithin.exists_sizeIs (h : c.ChainsWithin limit i) : ∃ size, c.SizeIs i size := by
  induction limit using Nat.strongRecOn generalizing i with
  | ind limit ih =>
    have hnext : ∀ record j, c.record? i = some record → record.next? = some j →
        ∃ size, c.SizeIs j size := by
      intro record j hr hn
      obtain ⟨rest, rfl, hrest⟩ := h.next hr hn
      exact ih rest (Nat.lt_succ_self rest) hrest
    cases hr : c.record? i with
    | none => exact ⟨_, .missing hr⟩
    | some record =>
      cases record with
      | primitive index => exact ⟨_, .primitive hr⟩
      | aggregate r => exact ⟨_, .aggregate hr⟩
      | array r => exact ⟨_, .array hr⟩
      | pointer underlying attributes => exact ⟨_, .pointer hr⟩
      | enumeration r =>
        obtain ⟨size, hsize⟩ := hnext _ _ hr rfl
        exact ⟨size, .enumeration hr hsize⟩
      | modifier underlying attributes =>
        obtain ⟨size, hsize⟩ := hnext _ _ hr rfl
        exact ⟨size, .modifier hr hsize⟩
      | bitfield underlying length position =>
        obtain ⟨size, hsize⟩ := hnext _ _ hr rfl
        exact ⟨size, .bitfield hr hsize⟩
      | _ => exact ⟨0, .valueless hr rfl⟩

theorem ChainsWithin.sizeIs_iff (h : c.ChainsWithin chainLimit i) (size : Int) :
    c.SizeIs i size ↔ c.recordSize i = size := by
  obtain ⟨size', hsize'⟩ := h.exists_sizeIs
  have heq : c.recordSize i = size' := hsize'.sizeWithin_eq h
  constructor
  · intro hsize
    exact hsize.sizeWithin_eq h
  · rintro rfl
    rwa [heq]

/-! ## Types within the bound -/

theorem ChainsWithin.mono {limit' : Nat} (h : c.ChainsWithin limit i) (hle : limit ≤ limit') :
    c.ChainsWithin limit' i := fun n j hleads => Nat.le_trans (h n j hleads) hle

/-- The extent of an array is counted with the size that the records tell for its elements. -/
theorem ChainsWithin.extent_eq {r : ArrayRecord} {size : Int}
    (h : c.ChainsWithin limit r.element) (hle : limit ≤ chainLimit)
    (hsize : c.SizeIs r.element size) : c.extent r = countOf r.byteSize size := by
  rw [Context.extent_eq, ((h.mono hle).sizeIs_iff size).mp hsize]

/-- What is read of a type over more than so many links: the type, and for an array also the parts
of it that an array directly around it needs. -/
structure ReadsTo (c : Context) (limit : Nat) (i : Int) (T : Ty) : Prop where
  type_eq : ∀ links, limit ≤ links → c.typeWithin (links + 1) i = T
  layout : ∀ r layout, c.record? i = some (.array r) → T = arrayOf layout →
    c.ReadsAs limit 0 layout i

theorem ReadsTo.typeWithin_eq {T : Ty} (h : c.ReadsTo limit i T) {links : Nat}
    (hlt : limit < links) : c.typeWithin links i = T := by
  obtain ⟨more, rfl⟩ := Nat.exists_eq_add_of_lt hlt
  exact h.type_eq (limit + more) (Nat.le_add_right limit more)

theorem readsTo_other {T : Ty} (hother : ∀ r, c.record? i ≠ some (.array r))
    (htype : ∀ links, limit ≤ links → c.typeWithin (links + 1) i = T) : c.ReadsTo limit i T :=
  ⟨htype, fun r _ hr _ => absurd hr (hother r)⟩

theorem ReadsAs.readsTo {layout : List Int × Ty} (h : c.ReadsAs limit 0 layout i)
    {r : ArrayRecord} (hr : c.record? i = some (.array r)) (hle : limit ≤ chainLimit) :
    c.ReadsTo limit i (arrayOf layout) := by
  refine ⟨fun links hlinks => h.typeWithin_eq hr hle (by omega), fun _ layout' _ heq => ?_⟩
  rwa [← arrayOf_inj.mp heq]

/-- Over more links than the chain has, a type is what its records say. -/
theorem TypeIs.readsTo {T : Ty} (h : c.TypeIs i T) {limit : Nat}
    (hshort : c.ChainsWithin limit i) (hle : limit ≤ chainLimit) : c.ReadsTo limit i T := by
  induction h generalizing limit with
  | missing hr => exact readsTo_other (by simp [hr]) fun links _ => by rw [typeWithin, hr]
  | fieldList hr => exact readsTo_other (by simp [hr]) fun links _ => by rw [typeWithin, hr]
  | unknown hr => exact readsTo_other (by simp [hr]) fun links _ => by rw [typeWithin, hr]
  | procedure hr => exact readsTo_other (by simp [hr]) fun links _ => by rw [typeWithin, hr]
  | memberFunction hr => exact readsTo_other (by simp [hr]) fun links _ => by rw [typeWithin, hr]
  | value hr hmode =>
    exact readsTo_other (by simp [hr]) fun links _ => by simp [typeWithin, hr, hmode]
  | reached hr hmode =>
    exact readsTo_other (by simp [hr]) fun links _ => by simp [typeWithin, hr, hmode]
  | aggregate hr => exact readsTo_other (by simp [hr]) fun links _ => typeWithin_aggregate hr links
  | enumeration hr =>
    exact readsTo_other (by simp [hr]) fun links _ => typeWithin_enumeration hr links
  | pointer hr _ ih =>
    obtain ⟨rest, rfl, hrest⟩ := hshort.next hr rfl
    refine readsTo_other (by simp [hr]) fun links hlinks => ?_
    have hnext := (ih hrest (by omega)).typeWithin_eq (show rest < links by omega)
    rw [typeWithin, hr]
    simp only [hnext]
  | bitfield hr _ ih =>
    obtain ⟨rest, rfl, hrest⟩ := hshort.next hr rfl
    refine readsTo_other (by simp [hr]) fun links hlinks => ?_
    have hnext := (ih hrest (by omega)).typeWithin_eq (show rest < links by omega)
    rw [typeWithin, hr]
    simp only [hnext]
  | modifier hr _ ih =>
    obtain ⟨rest, rfl, hrest⟩ := hshort.next hr rfl
    refine readsTo_other (by simp [hr]) fun links hlinks => ?_
    rw [typeWithin, hr]
    exact (ih hrest (by omega)).typeWithin_eq (by omega)
  | @array i size r T hr hother hsize _ ih =>
    obtain ⟨rest, rfl, hrest⟩ := hshort.next hr rfl
    have htype : ∀ links, rest + 0 < links → c.typeWithin links r.element = T := by
      intro links hlt
      exact (ih hrest (by omega)).typeWithin_eq hlt
    have hreads := readsAs_single hr hother htype
    rw [hrest.extent_eq (by omega) hsize] at hreads
    exact hreads.readsTo hr hle
  | @nested i size r inner layout hr hinner hsize _ ih =>
    obtain ⟨rest, rfl, hrest⟩ := hshort.next hr rfl
    have hreads := ((ih hrest (by omega)).layout inner layout hinner rfl).around hr
    rw [hrest.extent_eq (by omega) hsize] at hreads
    exact hreads.readsTo hr hle

/-- The type of an array is an array type. -/
theorem TypeIs.exists_layout {T : Ty} (h : c.TypeIs i T) {r : ArrayRecord}
    (hr : c.record? i = some (.array r)) : ∃ layout, T = arrayOf layout := by
  cases h with
  | array => exact ⟨_, rfl⟩
  | nested => exact ⟨_, rfl⟩
  | _ => simp_all

/-- A chain that ends has a type at its start. -/
theorem ChainsWithin.exists_typeIs (h : c.ChainsWithin limit i) : ∃ T, c.TypeIs i T := by
  induction limit using Nat.strongRecOn generalizing i with
  | ind limit ih =>
    have hnext : ∀ record j, c.record? i = some record → record.next? = some j →
        ∃ T size, c.TypeIs j T ∧ c.SizeIs j size := by
      intro record j hr hn
      obtain ⟨rest, rfl, hrest⟩ := h.next hr hn
      obtain ⟨T, hT⟩ := ih rest (Nat.lt_succ_self rest) hrest
      obtain ⟨size, hsize⟩ := hrest.exists_sizeIs
      exact ⟨T, size, hT, hsize⟩
    cases hr : c.record? i with
    | none => exact ⟨_, .missing hr⟩
    | some record =>
      cases record with
      | fieldList r => exact ⟨_, .fieldList hr⟩
      | unknown leaf => exact ⟨_, .unknown hr⟩
      | procedure returnType parameterCount => exact ⟨_, .procedure hr⟩
      | memberFunction returnType classType thisType parameterCount =>
        exact ⟨_, .memberFunction hr⟩
      | primitive index =>
        by_cases hmode : primitiveModeOf index = 0
        · exact ⟨_, .value hr hmode⟩
        · exact ⟨_, .reached hr hmode⟩
      | aggregate r => exact ⟨_, .aggregate hr⟩
      | enumeration r => exact ⟨_, .enumeration hr⟩
      | pointer underlying attributes =>
        obtain ⟨T, -, hT, -⟩ := hnext _ _ hr rfl
        exact ⟨_, .pointer hr hT⟩
      | bitfield underlying length position =>
        obtain ⟨T, -, hT, -⟩ := hnext _ _ hr rfl
        exact ⟨_, .bitfield hr hT⟩
      | modifier underlying attributes =>
        obtain ⟨T, -, hT, -⟩ := hnext _ _ hr rfl
        exact ⟨_, .modifier hr hT⟩
      | array r =>
        obtain ⟨T, size, hT, hsize⟩ := hnext _ _ hr rfl
        by_cases hinner : ∃ inner, c.record? r.element = some (.array inner)
        · obtain ⟨inner, hinner⟩ := hinner
          obtain ⟨layout, rfl⟩ := hT.exists_layout hinner
          exact ⟨_, .nested hr hinner hsize hT⟩
        · exact ⟨_, .array hr (not_exists.mp hinner) hsize hT⟩

theorem ChainsWithin.typeIs_iff (h : c.ChainsWithin chainLimit i) (T : Ty) :
    c.TypeIs i T ↔ c.translate i = T := by
  have heq : ∀ {T}, c.TypeIs i T → c.translate i = T := by
    intro T hT
    exact (hT.readsTo h (Nat.le_refl _)).typeWithin_eq (Nat.lt_succ_self chainLimit)
  obtain ⟨T', hT'⟩ := h.exists_typeIs
  constructor
  · exact heq
  · rintro rfl
    rwa [heq hT']

/-! ## Nesting -/

/-- Every constructor of a type has cost a link, whatever the records refer to. -/
theorem nesting_typeWithin_le (c : Context) (links : Nat) (i : Int) :
    (c.typeWithin links i).nesting ≤ links := by
  fun_induction typeWithin c links i with
  | case3 => simp [Ty.nesting]
  | case6 links index r hr inner dims ih =>
    simp only [Ty.nesting]
    omega
  | case7 links index underlying attributes hr ih =>
    simp only [Ty.nesting]
    omega
  | case8 links index underlying length position hr ih =>
    simp only [Ty.nesting]
    omega
  | case9 links index underlying attributes hr ih => omega
  | _ => exact Nat.zero_le _

/-- **The bound cuts off no short chain.** Whatever the records refer to, the type of an index has
at most 65 pointers, arrays and bit-fields one inside the other. Where no chain from the index has
more than 64 links, its type and its size are exactly what the records say without a bound. -/
theorem translate_within (c : Context) (i : Int) :
    (c.translate i).nesting ≤ 65 ∧
      (c.ChainsWithin 64 i → (∀ T, c.TypeIs i T ↔ c.translate i = T) ∧
        ∀ size, c.SizeIs i size ↔ c.recordSize i = size) :=
  ⟨c.nesting_typeWithin_le 65 i, fun h => ⟨h.typeIs_iff, h.sizeIs_iff⟩⟩

/-- Whether the chain from a type on ends within so many links. -/
def endsWithin (c : Context) : Nat → Int → Bool
  | 0, i => ((c.record? i).bind TypeRecord.next?).isNone
  | limit + 1, i =>
    match (c.record? i).bind TypeRecord.next? with
    | none => true
    | some j => endsWithin c limit j

theorem chainsWithin_of_endsWithin (h : c.endsWithin limit i = true) :
    c.ChainsWithin limit i := by
  intro n k hleads
  induction hleads generalizing limit with
  | refl i => exact Nat.zero_le _
  | step hr hn _ ih =>
    cases limit with
    | zero => simp [endsWithin, hr, hn] at h
    | succ limit =>
      simp only [endsWithin, hr, Option.bind_some, hn] at h
      exact Nat.succ_le_succ (ih h)

end Context

/-- Records of a pointer to three rows of four modes, where a mode is a constant enumeration over
an unsigned number. -/
def modeTable : RecordTable where
  rows := [
    (0x1000, .ok (.modifier 0x75 1)),
    (0x1001, .ok (.enumeration ⟨0, 0, 0x1000, 0, "_MODE"⟩)),
    (0x1002, .ok (.modifier 0x1001 1)),
    (0x1003, .ok (.array ⟨0x1002, 0x23, 16, ""⟩)),
    (0x1004, .ok (.array ⟨0x1003, 0x23, 48, ""⟩)),
    (0x1005, .ok (.pointer 0x1004 0))]

def modeContext : Context := ⟨modeTable, 8, .empty⟩

/-- Six links lead from the pointer to the number, and nothing of them is cut off. -/
theorem modeTable_short :
    modeContext.ChainsWithin 64 0x1005 ∧
      (∀ T, modeContext.TypeIs 0x1005 T ↔ .pointer (.array (.enumRef "_MODE") [3, 4] 12) = T) ∧
      ∀ size, modeContext.SizeIs 0x1003 size ↔ 16 = size := by
  have hpointer : modeContext.ChainsWithin 64 0x1005 :=
    Context.chainsWithin_of_endsWithin (by decide)
  have harray : modeContext.ChainsWithin 64 0x1003 :=
    Context.chainsWithin_of_endsWithin (by decide)
  have htype : modeContext.translate 0x1005 =
      .pointer (.array (.enumRef "_MODE") [3, 4] 12) := by with_unfolding_all rfl
  have hsize : modeContext.recordSize 0x1003 = 16 := by decide
  rw [← htype, ← hsize]
  exact ⟨hpointer, ((modeContext.translate_within 0x1005).2 hpointer).1,
    ((modeContext.translate_within 0x1003).2 harray).2⟩

end CodeView
end KernelProfile
