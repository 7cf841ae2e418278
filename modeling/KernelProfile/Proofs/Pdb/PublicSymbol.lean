import KernelProfile.Proofs.Frame
import KernelProfile.Proofs.Pdb.AddressMap
import KernelProfile.Proofs.Table
import Mathlib.Data.List.Forall2

/-! Public symbols from their records into a table. Each record of a public symbol gives one symbol,
and its name ends inside the record; records of other kinds give none. In the table a name has the
address of the last symbol that has one, and symbols without a name or an address are as good as
absent. -/
namespace KernelProfile.Pdb

namespace PublicSymbol

variable {bound offset : Nat} {data rest payload : Bytes} {f : Frame} {fs : List Frame}

/-- The symbol is what a payload says: three numbers, and a name that ends in front of the first
zero byte or with the payload. -/
structure Describes (s : PublicSymbol) (payload : Bytes) : Prop where
  flags : s.flags = payload.littleAt 0 4
  offset : s.offset = payload.littleAt 4 4
  segment : s.segment = payload.littleAt 8 2
  rawName : ∃ behind, payload.drop 10 = s.rawName ++ behind ∧ 0 ∉ s.rawName ∧
    (behind = [] ∨ ∃ tail, behind = 0 :: tail)
  name : s.name = Text.Utf8.decode? s.rawName

/-- A record is long enough for what its kind needs. -/
def Whole (f : Frame) : Prop := f.kind = recordKind → fixedSize ≤ f.payload.length

instance : DecidablePred Whole := fun f =>
  inferInstanceAs (Decidable (f.kind = recordKind → fixedSize ≤ f.payload.length))

/-- The payloads of the public symbols among records. -/
def payloads (fs : List Frame) : List Bytes :=
  (fs.filter fun f => f.kind = recordKind).map Frame.payload

/-- The symbol of a payload. -/
def ofPayload (payload : Bytes) : PublicSymbol :=
  ofRecord (payload.take fixedSize) (payload.drop fixedSize)

theorem describes_ofPayload (payload : Bytes) : (ofPayload payload).Describes payload where
  flags := congrArg Nat.cast (Bytes.littleAt_take (by decide))
  offset := congrArg Nat.cast (Bytes.littleAt_take (by decide))
  segment := congrArg Nat.cast (Bytes.littleAt_take (by decide))
  rawName := by
    refine ⟨(payload.drop 10).dropWhile (· != 0), List.takeWhile_append_dropWhile.symm, ?_, ?_⟩
    · intro hzero
      have hnonzero := List.all_eq_true.mp List.all_takeWhile 0 hzero
      simp at hnonzero
    · cases hbehind : (payload.drop 10).dropWhile (· != 0) with
      | nil => exact .inl rfl
      | cons b tail =>
        have hb := List.head?_dropWhile_not (· != 0) (payload.drop 10)
        rw [hbehind] at hb
        exact .inr ⟨tail, by simpa using hb⟩
  name := rfl

/-- One symbol for each payload, in their order. -/
theorem describes_payloads (fs : List Frame) :
    List.Forall₂ Describes ((payloads fs).map ofPayload) (payloads fs) := by
  rw [List.forall₂_map_left_iff, List.forall₂_same]
  exact fun payload _ => describes_ofPayload payload

theorem payloads_cons (f : Frame) (fs : List Frame) : payloads (f :: fs) =
    if f.kind = recordKind then f.payload :: payloads fs else payloads fs := by
  by_cases hkind : f.kind = recordKind <;> simp [payloads, hkind]

/-! ## Reading the records -/

theorem listFrom_of_short (h : data.length < 4) : listFrom bound offset data = ([], none) := by
  cases bound with
  | zero => rfl
  | succ bound => rw [listFrom, if_pos h]

/-- The step lemma: a record of a public symbol is read within its own bytes, and another one is
passed over. -/
theorem listFrom_bytes (hwhole : Whole f) : listFrom (bound + 1) offset (f.bytes ++ rest) =
    if f.kind = recordKind then
      (ofPayload f.payload :: (listFrom bound (offset + f.bytes.length) rest).1,
        (listFrom bound (offset + f.bytes.length) rest).2)
    else listFrom bound (offset + f.bytes.length) rest := by
  rw [listFrom, if_neg (f.not_short rest), f.split?_bytes]
  simp only [f.littleAt_header_length, f.littleAt_header_kind, Bool.or_eq_true, decide_eq_true_eq,
    f.not_overrun rest, if_false, f.next_offset, Nat.add_sub_cancel, List.drop_left']
  split
  · rename_i hkind
    have hfixed : fixedSize ≤ f.payload.length := hwhole hkind
    have hroom : fixedSize ≤ (f.payload ++ rest).length := by
      rw [List.length_append]
      omega
    have hlength : ¬ f.payload.length + 2 < 2 + fixedSize := by omega
    have hname : ((f.payload ++ rest).drop fixedSize).take (f.payload.length - fixedSize) =
        f.payload.drop fixedSize := by
      rw [List.drop_append_of_le_length hfixed, List.take_left' List.length_drop]
    rw [if_neg hlength, Bytes.split?_of_le hroom]
    simp only [hname, List.take_append_of_le_length hfixed, ofPayload]
  · rfl

theorem listFrom_of_ends (hends : Frame.Ends data) (hlong : 4 ≤ data.length) :
    listFrom (bound + 1) offset data = ([], some (.badLength (data.littleAt 0 2) offset)) := by
  obtain ⟨hheader, hover⟩ := hends.overrun hlong
  rw [listFrom, if_neg (Nat.not_lt.mpr hlong), Bytes.split?_of_le hlong]
  simp only [hheader, Bool.or_eq_true, decide_eq_true_eq, hover, if_true]

theorem listFrom_of_not_whole (hnot : ¬ Whole f) :
    listFrom (bound + 1) offset (f.bytes ++ rest) = ([], some (.truncated offset)) := by
  simp only [Whole, Classical.not_imp, Nat.not_le] at hnot
  obtain ⟨hkind, hfixed⟩ := hnot
  have hlength : f.payload.length + 2 < 2 + fixedSize := by omega
  rw [listFrom, if_neg (f.not_short rest), f.split?_bytes]
  simp only [f.littleAt_header_length, f.littleAt_header_kind, Bool.or_eq_true, decide_eq_true_eq,
    f.not_overrun rest, if_false, hkind, if_true, hlength]

/-- Bytes begin with no framed record, or with one that is too short for a public symbol. -/
def Stops (data : Bytes) : Prop :=
  Frame.Ends data ∨ ∃ f behind, data = Frame.bytes f ++ behind ∧ ¬ Whole f

/-- Reading ends there, with at most three bytes left over or with a fault of the record. -/
theorem exists_fault (hstops : Stops data) (offset : Nat) :
    ∃ fault, (fault = none ↔ data.length ≤ 3) ∧
      ∀ bound, data.length ≤ bound → listFrom bound offset data = ([], fault) := by
  by_cases hshort : data.length < 4
  · exact ⟨none, iff_of_true rfl (Nat.le_of_lt_succ hshort),
      fun bound _ => listFrom_of_short hshort⟩
  · have hstep : ∃ e, ∀ bound, listFrom (bound + 1) offset data = ([], some e) := by
      rcases hstops with hends | ⟨f, behind, rfl, hnot⟩
      · exact ⟨_, fun bound => listFrom_of_ends hends (Nat.not_lt.mp hshort)⟩
      · exact ⟨_, fun bound => listFrom_of_not_whole hnot⟩
    obtain ⟨e, hstep⟩ := hstep
    refine ⟨some e, iff_of_false (by simp) (by omega), ?_⟩
    intro bound hbound
    obtain ⟨bound, rfl⟩ : ∃ b, bound = b + 1 := ⟨bound - 1, by omega⟩
    exact hstep bound

/-- The run lemma: the symbols of records that are long enough come in order, up to where no such
record begins. -/
theorem exists_listFrom (hwhole : ∀ f ∈ fs, Whole f) (hstops : Stops rest) (offset : Nat) :
    ∃ fault, (fault = none ↔ rest.length ≤ 3) ∧
      ∀ bound, (Frame.concat fs ++ rest).length ≤ bound →
        listFrom bound offset (Frame.concat fs ++ rest) =
          ((payloads fs).map ofPayload, fault) := by
  induction fs generalizing offset with
  | nil => exact exists_fault hstops offset
  | cons f fs ih =>
    obtain ⟨fault, hleft, hlist⟩ := ih (fun g hg => hwhole g (List.mem_cons_of_mem _ hg))
      (offset + f.bytes.length)
    refine ⟨fault, hleft, ?_⟩
    intro bound hbound
    rw [Frame.concat_cons, List.append_assoc] at hbound ⊢
    rw [List.length_append, f.length_bytes] at hbound
    obtain ⟨bound, rfl⟩ : ∃ b, bound = b + 1 := ⟨bound - 1, by omega⟩
    rw [listFrom_bytes (hwhole f List.mem_cons_self), hlist bound (by omega), payloads_cons]
    split <;> rfl

/-- Every byte string is a run of records that are long enough, and behind it begins none. -/
theorem exists_stops (data : Bytes) : ∃ fs rest, data = Frame.concat fs ++ rest ∧
    (∀ f ∈ fs, Whole f) ∧ Stops rest := by
  obtain ⟨fs, rest, rfl, hends⟩ := Frame.exists_concat data
  induction fs with
  | nil => exact ⟨[], rest, rfl, by simp, .inl hends⟩
  | cons f fs ih =>
    by_cases hf : Whole f
    · obtain ⟨gs, behind, heq, hwhole, hstops⟩ := ih
      refine ⟨f :: gs, behind, ?_, List.forall_mem_cons.mpr ⟨hf, hwhole⟩, hstops⟩
      rw [Frame.concat_cons, List.append_assoc, heq, Frame.concat_cons, List.append_assoc]
    · refine ⟨[], Frame.concat (f :: fs) ++ rest, rfl, by simp,
        .inr ⟨f, Frame.concat fs ++ rest, ?_, hf⟩⟩
      rw [Frame.concat_cons, List.append_assoc]

/-- A larger bound changes nothing: reading ends by itself. -/
theorem listFrom_eq (hbound : data.length ≤ bound) :
    listFrom bound offset data = listFrom data.length offset data := by
  obtain ⟨fs, rest, rfl, hwhole, hstops⟩ := exists_stops data
  obtain ⟨fault, -, hlist⟩ := exists_listFrom hwhole hstops offset
  rw [hlist bound hbound, hlist _ (Nat.le_refl _)]

/-- Records that are long enough are read completely, and nothing is left over. -/
theorem list_concat (hwhole : ∀ f ∈ fs, Whole f) :
    list (Frame.concat fs) = ((payloads fs).map ofPayload, none) := by
  have hnil : Stops [] := .inl (.inl (by decide))
  obtain ⟨fault, hfault, hlist⟩ := exists_listFrom hwhole hnil 0
  have hnone : fault = none := hfault.mpr (Nat.zero_le _)
  rw [List.append_nil, hnone] at hlist
  exact hlist _ (Nat.le_refl _)

/-- Whatever the bytes are, the symbols are those of the records in front of where reading ends. -/
theorem exists_list (data : Bytes) : ∃ fs rest, data = Frame.concat fs ++ rest ∧
    (∀ f ∈ fs, Whole f) ∧ (list data).1 = (payloads fs).map ofPayload ∧
    ((list data).2 = none ↔ rest.length ≤ 3) := by
  obtain ⟨fs, rest, rfl, hwhole, hstops⟩ := exists_stops data
  obtain ⟨fault, hfault, hlist⟩ := exists_listFrom hwhole hstops 0
  refine ⟨fs, rest, rfl, hwhole, ?_⟩
  rw [list, hlist _ (Nat.le_refl _)]
  exact ⟨rfl, hfault⟩

end PublicSymbol

/-! ## The table -/

namespace AddressMap

variable {m : AddressMap} {symbols : List PublicSymbol} {name : String} {a : Int}

/-- The entry that a symbol makes, if it has a name and an address. -/
def entry? (m : AddressMap) (s : PublicSymbol) : Option (String × Int) :=
  match s.name, m.rva s.segment s.offset with
  | some name, .ok (some a) => some (name, a)
  | _, _ => none

theorem entry?_eq_some {s : PublicSymbol} :
    m.entry? s = some (name, a) ↔ s.name = some name ∧ m.rva s.segment s.offset = .ok (some a) := by
  unfold entry?
  split
  · rename_i name' a' hname ha
    simp [hname, ha]
  · rename_i hnot
    constructor
    · intro h
      cases h
    · rintro ⟨hname, ha⟩
      exact absurd ha (hnot name a hname)

/-- The step lemma: a symbol writes its entry, if it makes one. -/
theorem addSymbol_eq (m : AddressMap) (table : Table Int) (s : PublicSymbol) :
    m.addSymbol table s = .ok ((m.entry? s).elim table fun e => table.insert e.1 e.2) := by
  unfold addSymbol entry?
  obtain ⟨address, haddress⟩ := m.exists_rva s.segment s.offset
  cases s.name with
  | none => rfl
  | some name =>
    rw [haddress]
    cases address <;> rfl

/-- The run lemma: the table is that of the entries, written one after the other. -/
theorem symbolTable_eq (m : AddressMap) (symbols : List PublicSymbol) :
    m.symbolTable symbols = .ok (.ofList (symbols.filterMap m.entry?)) := by
  have hrun : ∀ table : Table Int, symbols.foldlM m.addSymbol table =
      .ok ((symbols.filterMap m.entry?).foldl (fun t e => t.insert e.1 e.2) table) := by
    induction symbols with
    | nil => exact fun _ => rfl
    | cons s symbols ih =>
      intro table
      rw [List.foldlM_cons, addSymbol_eq]
      refine (ih _).trans ?_
      cases hentry : m.entry? s with
      | none => rw [List.filterMap_cons_none hentry]; rfl
      | some e => rw [List.filterMap_cons_some hentry]; rfl
  exact hrun .empty

/-- A symbol makes no entry of a name that it does not have or that it gives no address. -/
theorem entry?_ne_some {s : PublicSymbol} : (∀ b, m.entry? s ≠ some (name, b)) ↔
    (s.name = some name → m.rva s.segment s.offset = .ok none) := by
  simp only [ne_eq, entry?_eq_some, not_and]
  obtain ⟨address, haddress⟩ := m.exists_rva s.segment s.offset
  rw [haddress]
  cases address with
  | none => simp
  | some a => simp

theorem entry?_eq_none {s : PublicSymbol}
    (h : s.name = none ∨ m.rva s.segment s.offset = .ok none) : m.entry? s = none := by
  rw [Option.eq_none_iff_forall_ne_some]
  rintro ⟨name, a⟩
  exact entry?_ne_some.mpr (fun hname => h.resolve_left (by simp [hname])) a

end AddressMap

/-- **Public symbols are read completely, and the last one counts.** Of records that are long enough
for their kinds, each public symbol's gives one symbol that is what its payload says, in order, and
the others give none. Any other bytes end in a fault that is not for want of data, or leave at most
three of them over, behind records that are read like this; no bound that the bytes fit in changes
anything. In the table of symbols a name has the address of the last symbol that has one, the names
stand in the order in which symbols with addresses first came, and a symbol without a name or an
address is as good as absent. -/
theorem public_symbols_tabulated :
    (∀ fs : List Frame, (∀ f ∈ fs, PublicSymbol.Whole f) →
      ∃ symbols, PublicSymbol.list (Frame.concat fs) = (symbols, none) ∧
        List.Forall₂ PublicSymbol.Describes symbols (PublicSymbol.payloads fs)) ∧
    (∀ data : Bytes, (PublicSymbol.list data).2 ≠ some .endOfData ∧
      ∃ fs rest, data = Frame.concat fs ++ rest ∧ (∀ f ∈ fs, PublicSymbol.Whole f) ∧
        List.Forall₂ PublicSymbol.Describes (PublicSymbol.list data).1
          (PublicSymbol.payloads fs) ∧
        ((PublicSymbol.list data).2 = none ↔ rest.length ≤ 3)) ∧
    (∀ (bound offset : Nat) (data : Bytes), data.length ≤ bound →
      PublicSymbol.listFrom bound offset data = PublicSymbol.listFrom data.length offset data) ∧
    ∀ (m : AddressMap) (symbols : List PublicSymbol),
      ∃ table, m.symbolTable symbols = .ok table ∧
        (∀ name a, table.get? name = some a ↔
          ∃ before s after, symbols = before ++ s :: after ∧ s.name = some name ∧
            m.rva s.segment s.offset = .ok (some a) ∧
            ∀ s' ∈ after, s'.name = some name → m.rva s'.segment s'.offset = .ok none) ∧
        table.keys = ((symbols.filterMap m.entry?).map Prod.fst).eraseDups ∧
        ∀ before s after, symbols = before ++ s :: after →
          s.name = none ∨ m.rva s.segment s.offset = .ok none →
          m.symbolTable (before ++ after) = .ok table := by
  refine ⟨?whole, ?any, fun _ _ _ h => PublicSymbol.listFrom_eq h, ?table⟩
  case whole =>
    intro fs hwhole
    exact ⟨_, PublicSymbol.list_concat hwhole, PublicSymbol.describes_payloads fs⟩
  case any =>
    intro data
    obtain ⟨fs, rest, hdata, hwhole, hlist, hfault⟩ := PublicSymbol.exists_list data
    refine ⟨PublicSymbol.listFrom_ne_endOfData _ _ _, fs, rest, hdata, hwhole, ?_, hfault⟩
    rw [hlist]
    exact PublicSymbol.describes_payloads fs
  case table =>
    intro m symbols
    refine ⟨_, m.symbolTable_eq symbols, ?_, Table.keys_ofList _, ?_⟩
    · intro name a
      simp only [Table.get?_ofList_filterMap, AddressMap.entry?_ne_some, AddressMap.entry?_eq_some,
        and_assoc]
    · rintro before s after rfl hs
      rw [AddressMap.symbolTable_eq, List.filterMap_append, List.filterMap_append,
        List.filterMap_cons_none (AddressMap.entry?_eq_none hs)]

/-! ## A name with three symbols -/

/-- Three symbols of one name, the last one in a section that is not there, and a record of another
kind. The first name ends at a zero byte in front of the padding, the others end with the record. -/
def startRecords : List Frame :=
  [⟨0x110E, [2, 0, 0, 0, 0x10, 0, 0, 0, 1, 0, 0x61, 0, 0xF1], by decide, by decide⟩,
    ⟨0x1108, [1], by decide, by decide⟩,
    ⟨0x110E, [2, 0, 0, 0, 0x20, 0, 0, 0, 1, 0, 0x61], by decide, by decide⟩,
    ⟨0x110E, [2, 0, 0, 0, 0x30, 0, 0, 0, 9, 0, 0x61], by decide, by decide⟩]

def startSymbols : List PublicSymbol :=
  [⟨some "a", [0x61], 1, 0x10, 2⟩, ⟨some "a", [0x61], 1, 0x20, 2⟩, ⟨some "a", [0x61], 9, 0x30, 2⟩]

theorem startRecords_tabulated :
    PublicSymbol.list (Frame.concat startRecords) = (startSymbols, none) ∧
      List.Forall₂ PublicSymbol.Describes startSymbols (PublicSymbol.payloads startRecords) ∧
      PublicSymbol.listFrom 100 0 (Frame.concat startRecords) =
        PublicSymbol.listFrom (Frame.concat startRecords).length 0 (Frame.concat startRecords) ∧
      ∃ table, AddressMap.symbolTable ⟨[0x1000], []⟩ startSymbols = .ok table ∧
        table.get? "a" = some 0x1020 ∧
        AddressMap.symbolTable ⟨[0x1000], []⟩ (startSymbols.take 2) = .ok table := by
  obtain ⟨hwhole, -, hbound, htable⟩ := public_symbols_tabulated
  obtain ⟨symbols, hlist, hdescribes⟩ := hwhole startRecords (by decide)
  have hsymbols : symbols = startSymbols := by
    have hread : PublicSymbol.list (Frame.concat startRecords) = (startSymbols, none) := by decide
    rw [hread] at hlist
    cases hlist
    rfl
  subst hsymbols
  obtain ⟨table, htabulated, hget, -, habsent⟩ := htable ⟨[0x1000], []⟩ startSymbols
  refine ⟨hlist, hdescribes, hbound 100 0 _ (by decide), table, htabulated, ?_,
    habsent (startSymbols.take 2) _ [] rfl (.inr rfl)⟩
  refine (hget "a" 0x1020).mpr ⟨startSymbols.take 1, _, startSymbols.drop 2, rfl, rfl, rfl, ?_⟩
  simp [startSymbols, AddressMap.rva]

end KernelProfile.Pdb
