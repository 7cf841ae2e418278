import KernelProfile.Proofs.Pdb.AddressMap
import Mathlib.Data.List.Perm.Basic

/-! Addresses in an image that was rearranged. One entry governs an address: the one with the
greatest source that is not above it. Halving the sorted sources finds the entry that going through
all of them finds, whatever the order in which they are stored. -/
namespace KernelProfile.Pdb

namespace OmapEntry

variable {entries entries' : List OmapEntry} {address : Int} {a b c e : OmapEntry}

/-- Of the entries whose sources are not above an address this one has the greatest source, and of
those with the same source the greatest target. -/
structure Governs (entries : List OmapEntry) (address : Int) (e : OmapEntry) : Prop where
  mem : e ∈ entries
  source_le : e.source ≤ address
  greatest : ∀ other ∈ entries, other.source ≤ address →
    other.source < e.source ∨ other.source = e.source ∧ other.target ≤ e.target

/-! ## The order of the entries -/

theorem le_iff :
    a.le b = true ↔ a.source < b.source ∨ a.source = b.source ∧ a.target ≤ b.target := by
  simp only [le, Bool.or_eq_true, Bool.and_eq_true, decide_eq_true_eq, beq_iff_eq]

theorem le_trans (hab : a.le b = true) (hbc : b.le c = true) : a.le c = true := by
  rw [le_iff] at hab hbc ⊢
  omega

theorem le_total (a b : OmapEntry) : (a.le b || b.le a) = true := by
  rw [Bool.or_eq_true, le_iff, le_iff]
  omega

theorem le_antisymm (hab : a.le b = true) (hba : b.le a = true) : a = b := by
  rw [le_iff] at hab hba
  cases a
  cases b
  simp only [mk.injEq] at hab hba ⊢
  omega

theorem sorted_sort (entries : List OmapEntry) :
    (sort entries).Pairwise fun a b => a.le b = true :=
  @List.pairwise_mergeSort _ le (fun _ _ _ => le_trans) le_total entries

/-- Sorting forgets the order in which entries were stored. -/
theorem sort_eq_of_perm (h : entries.Perm entries') : sort entries = sort entries' := by
  have hperm : (sort entries).Perm (sort entries') :=
    (List.mergeSort_perm entries le).trans (h.trans (List.mergeSort_perm entries' le).symm)
  exact hperm.eq_of_pairwise (fun _ _ _ _ => le_antisymm) (sorted_sort entries)
    (sorted_sort entries')

theorem Governs.unique (h : Governs entries address a) (h' : Governs entries address b) : a = b :=
  le_antisymm (le_iff.mpr (h'.greatest a h.mem h.source_le))
    (le_iff.mpr (h.greatest b h'.mem h'.source_le))

/-! ## Going through all entries -/

/-- The entry that governs an address, found by comparing one entry after the other. -/
def nearest? (address : Int) : List OmapEntry → Option OmapEntry
  | [] => none
  | e :: rest =>
    match nearest? address rest with
    | none => if e.source ≤ address then some e else none
    | some best => if e.source ≤ address ∧ best.le e then some e else some best

theorem nearest?_eq_none : nearest? address entries = none ↔ ∀ e ∈ entries, address < e.source := by
  induction entries with
  | nil => simp [nearest?]
  | cons e rest ih =>
    rw [List.forall_mem_cons, ← ih, nearest?]
    cases hrest : nearest? address rest with
    | none => simp
    | some best =>
      simp only [reduceCtorEq, and_false, iff_false]
      split <;> simp

theorem governs_of_nearest? (h : nearest? address entries = some e) :
    Governs entries address e := by
  induction entries generalizing e with
  | nil => cases h
  | cons first rest ih =>
    rw [nearest?] at h
    cases hrest : nearest? address rest with
    | none =>
      rw [hrest] at h
      have habove := nearest?_eq_none.mp hrest
      simp only [Option.ite_none_right_eq_some, Option.some.injEq] at h
      obtain ⟨hle, rfl⟩ := h
      refine ⟨List.mem_cons_self, hle, fun other hother hsource => ?_⟩
      rcases List.mem_cons.mp hother with rfl | hother
      · exact .inr ⟨rfl, Int.le_refl _⟩
      · exact absurd hsource (Int.not_le.mpr (habove other hother))
    | some best =>
      have hbest := ih hrest
      rw [hrest] at h
      dsimp only at h
      split at h
      · -- the first entry takes the place of the best one of the rest
        rename_i hfirst
        cases h
        refine ⟨List.mem_cons_self, hfirst.1, fun other hother hsource => ?_⟩
        rcases List.mem_cons.mp hother with rfl | hother
        · exact .inr ⟨rfl, Int.le_refl _⟩
        · exact le_iff.mp (le_trans (le_iff.mpr (hbest.greatest other hother hsource)) hfirst.2)
      · rename_i hfirst
        cases h
        refine ⟨List.mem_cons_of_mem _ hbest.mem, hbest.source_le, fun other hother hsource => ?_⟩
        rcases List.mem_cons.mp hother with rfl | hother
        · have hnot : ¬ e.le other = true := fun hle => hfirst ⟨hsource, hle⟩
          have htotal := le_total e other
          rw [Bool.or_eq_true, or_iff_right hnot] at htotal
          exact le_iff.mp htotal
        · exact hbest.greatest other hother hsource

theorem nearest?_eq_some : nearest? address entries = some e ↔ Governs entries address e := by
  constructor
  · exact governs_of_nearest?
  · intro h
    cases hnearest : nearest? address entries with
    | none => exact absurd h.source_le (Int.not_le.mpr (nearest?_eq_none.mp hnearest e h.mem))
    | some other => rw [(governs_of_nearest? hnearest).unique h]

/-- Where an address is after the rearrangement that entries tell, each of which moves the addresses
from its source on up to the next source: nowhere in front of the first source or where the target
is 0, and where it was if there are no entries. -/
def moved (entries : List OmapEntry) (address : Int) : Option Int :=
  if entries.isEmpty then some address
  else
    match nearest? address entries with
    | none => none
    | some e => if e.target = 0 then none else some (e.target + (address - e.source))

theorem governs_sort : Governs (sort entries) address e ↔ Governs entries address e := by
  have hmem : ∀ other, other ∈ sort entries ↔ other ∈ entries := fun _ => List.mem_mergeSort
  constructor
  · rintro ⟨hin, hle, hgreatest⟩
    exact ⟨(hmem e).mp hin, hle, fun other hother => hgreatest other ((hmem other).mpr hother)⟩
  · rintro ⟨hin, hle, hgreatest⟩
    exact ⟨(hmem e).mpr hin, hle, fun other hother => hgreatest other ((hmem other).mp hother)⟩

/-- Where an address is moved to does not hang on the order of the entries. -/
theorem moved_sort (entries : List OmapEntry) (address : Int) :
    moved (sort entries) address = moved entries address := by
  have hnearest : nearest? address (sort entries) = nearest? address entries := by
    apply Option.ext
    intro e
    rw [nearest?_eq_some, nearest?_eq_some, governs_sort]
  have hempty : (sort entries).isEmpty = entries.isEmpty := by
    rw [Bool.eq_iff_iff, List.isEmpty_iff_length_eq_zero, List.isEmpty_iff_length_eq_zero, sort,
      List.length_mergeSort]
  rw [moved, moved, hnearest, hempty]

theorem Governs.moved_eq (h : Governs entries address e) : moved entries address =
    if e.target = 0 then none else some (e.target + (address - e.source)) := by
  have hentries : ¬ entries.isEmpty = true := by
    rw [List.isEmpty_iff]
    rintro rfl
    cases h.mem
  rw [moved, if_neg hentries, nearest?_eq_some.mpr h]

/-! ## Entries in a stream -/

/-- The bytes that an entry takes up in a stream. -/
def bytes (source target : UInt32) : Bytes :=
  Bytes.ofNatLittle 4 source.toNat ++ Bytes.ofNatLittle 4 target.toNat

/-- The bytes of entries, one behind the other. -/
def stored (words : List (UInt32 × UInt32)) : Bytes := words.flatMap fun w => bytes w.1 w.2

theorem ofBytes_bytes (source target : UInt32) (rest : Bytes) :
    ofBytes (bytes source target ++ rest) =
      ⟨source.toNat, target.toNat⟩ :: ofBytes rest := by
  have hsource : Bytes.littleNat (Bytes.ofNatLittle 4 source.toNat) = source.toNat :=
    Bytes.littleNat_ofNatLittle source.toNat_lt
  have htarget : Bytes.littleNat (Bytes.ofNatLittle 4 target.toNat) = target.toNat :=
    Bytes.littleNat_ofNatLittle target.toNat_lt
  simp only [Bytes.ofNatLittle] at hsource htarget
  simp only [bytes, Bytes.ofNatLittle, List.cons_append, List.nil_append, ofBytes, hsource, htarget]

theorem ofBytes_of_short {rest : Bytes} (h : rest.length < 8) : ofBytes rest = [] := by
  unfold ofBytes
  split
  · simp only [List.length_cons] at h
    omega
  · rfl

/-- The entries of a stream are those that were stored; fewer than eight bytes at the end are left
over. -/
theorem ofBytes_stored (words : List (UInt32 × UInt32)) {rest : Bytes} (h : rest.length < 8) :
    ofBytes (stored words ++ rest) = words.map fun w => ⟨w.1.toNat, w.2.toNat⟩ := by
  induction words with
  | nil => exact ofBytes_of_short h
  | cons w words ih =>
    rw [List.map_cons, ← ih, ← ofBytes_bytes, stored, List.flatMap_cons, List.append_assoc]
    rfl

end OmapEntry

namespace AddressMap

variable {sources : Array Int} {address : Int} {entries : List OmapEntry}

/-- Sources in the order of their size. -/
def Sorted (sources : Array Int) : Prop :=
  ∀ i j, i ≤ j → j < sources.size → sources.getD i 0 ≤ sources.getD j 0

/-- Halving keeps the sources in front of the range at most the address and those behind it above,
so that the range shrinks to the place between the ones and the others. -/
theorem bisect_parts (hsorted : Sorted sources) (low high : Nat) (hhigh : high ≤ sources.size)
    (hle : low ≤ high) (hfront : ∀ k < low, sources.getD k 0 ≤ address)
    (hbehind : ∀ k, high ≤ k → k < sources.size → address < sources.getD k 0) :
    (∀ k < bisect sources address low high, sources.getD k 0 ≤ address) ∧
      ∀ k, bisect sources address low high ≤ k → k < sources.size →
        address < sources.getD k 0 := by
  fun_induction bisect sources address low high with
  | case1 low high hlt middle habove ih =>
    refine ih (by omega) (by omega) hfront fun k hk hsize => ?_
    exact Int.lt_of_lt_of_le habove (hsorted middle k hk hsize)
  | case2 low high hlt middle habove ih =>
    refine ih hhigh (by omega) (fun k hk => ?_) hbehind
    exact Int.le_trans (hsorted k middle (by omega) (by omega)) (Int.not_lt.mp habove)
  | case3 low high hempty =>
    have heq : low = high := by omega
    exact ⟨hfront, heq ▸ hbehind⟩

theorem getD_sources {entries : List OmapEntry} {k : Nat} (hk : k < entries.length) :
    (entries.map OmapEntry.source).toArray.getD k 0 = entries[k].source := by
  simp [Array.getD_eq_getD_getElem?, List.getElem?_eq_getElem hk]

theorem sorted_sources (h : entries.Pairwise fun a b => a.le b = true) :
    Sorted (entries.map OmapEntry.source).toArray := by
  intro i j hij hj
  have hsize : j < entries.length := by simpa using hj
  rw [getD_sources hsize, getD_sources (Nat.lt_of_le_of_lt hij hsize)]
  rcases Nat.eq_or_lt_of_le hij with rfl | hlt
  · exact Int.le_refl _
  · have hi : i < entries.length := Nat.lt_trans hlt hsize
    have hle := OmapEntry.le_iff.mp (List.pairwise_iff_getElem.mp h i j hi hsize hlt)
    omega

/-- How many entries are not above the address, by halving. -/
def below (entries : List OmapEntry) (address : Int) : Nat :=
  bisect (entries.map OmapEntry.source).toArray address 0 entries.length

/-- In sorted entries halving finds the place between those which are not above the address and
those which are. -/
theorem below_parts (h : entries.Pairwise fun a b => a.le b = true) (address : Int) {k : Nat}
    (hk : k < entries.length) :
    (k < below entries address → entries[k].source ≤ address) ∧
      (below entries address ≤ k → address < entries[k].source) := by
  have hsize : (entries.map OmapEntry.source).toArray.size = entries.length := by simp
  obtain ⟨hfront, hbehind⟩ := bisect_parts (sorted_sources h) 0 entries.length
    (Nat.le_of_eq hsize.symm) (Nat.zero_le _) (fun _ h => absurd h (Nat.not_lt_zero _))
    fun k hle hlt => absurd (hsize ▸ hlt) (Nat.not_lt.mpr hle)
  rw [← getD_sources hk]
  exact ⟨hfront k, fun hle => hbehind k hle (hsize.symm ▸ hk)⟩

/-- In sorted entries the one in front of the place that halving finds governs the address. -/
theorem governs_bisect (h : entries.Pairwise fun a b => a.le b = true) {place : Nat}
    {e : OmapEntry} (hplace : below entries address = place + 1) (he : entries[place]? = some e) :
    OmapEntry.Governs entries address e := by
  obtain ⟨hlt, rfl⟩ := List.getElem?_eq_some_iff.mp he
  have hsource := (below_parts h address hlt).1 (hplace ▸ Nat.lt_succ_self place)
  refine ⟨List.getElem_mem hlt, hsource, fun other hother hle => ?_⟩
  obtain ⟨k, hk, rfl⟩ := List.mem_iff_getElem.mp hother
  -- an entry behind the place is above the address, and one in front of it is not greater
  rcases Nat.lt_trichotomy k place with hlower | rfl | hupper
  · exact OmapEntry.le_iff.mp (List.pairwise_iff_getElem.mp h k place hk hlt hlower)
  · exact .inr ⟨rfl, Int.le_refl _⟩
  · have habove := (below_parts h address hk).2 (hplace ▸ hupper)
    exact absurd hle (Int.not_le.mpr habove)

theorem lt_of_bisect (h : entries.Pairwise fun a b => a.le b = true)
    (hplace : below entries address = 0) : ∀ e ∈ entries, address < e.source := by
  intro e he
  obtain ⟨k, hk, rfl⟩ := List.mem_iff_getElem.mp he
  exact (below_parts h address hk).2 (hplace ▸ Nat.zero_le k)

theorem below_le (entries : List OmapEntry) (address : Int) :
    below entries address ≤ entries.length :=
  bisect_le _ address 0 entries.length (Nat.zero_le _)

/-- The entry in front of the place that halving finds is the one that going through all finds. -/
theorem nearest?_eq_below (h : entries.Pairwise fun a b => a.le b = true) (address : Int) :
    OmapEntry.nearest? address entries =
      match below entries address with
      | 0 => none
      | place + 1 => entries[place]? := by
  cases hplace : below entries address with
  | zero => exact OmapEntry.nearest?_eq_none.mpr (lt_of_bisect h hplace)
  | succ place =>
    have hlt : place < entries.length := by
      have hle := below_le entries address
      omega
    dsimp only
    rw [List.getElem?_eq_getElem hlt]
    exact OmapEntry.nearest?_eq_some.mpr
      (governs_bisect h hplace (List.getElem?_eq_getElem hlt))

variable {m : AddressMap} {segment offset base : Int}

theorem rva_of_outside (h : segment < 1 ∨ m.sections.length < segment) :
    m.rva segment offset = .ok none := by
  rw [rva, if_pos (by simpa using h)]

/-- In a section that exists a place is where the entries move it, if they are sorted. -/
theorem rva_of_section (h : m.omap.Pairwise fun a b => a.le b = true) (hsegment : 1 ≤ segment)
    (hbase : m.sections[(segment - 1).toNat]? = some base) :
    m.rva segment offset = .ok (OmapEntry.moved m.omap (base + offset)) := by
  obtain ⟨hlt, -⟩ := List.getElem?_eq_some_iff.mp hbase
  have hinside : ¬ (segment < 1 ∨ (m.sections.length : Int) < segment) := by omega
  have hbelow : bisect (m.omap.map OmapEntry.source).toArray (base + offset) 0 m.omap.length =
      below m.omap (base + offset) := rfl
  rw [rva, if_neg (by simpa using hinside)]
  simp only [elementAt, hbase, bind, Except.bind, OmapEntry.moved, hbelow, nearest?_eq_below h]
  by_cases hempty : m.omap.isEmpty = true
  · rw [if_pos hempty, if_pos hempty]
    rfl
  · rw [if_neg hempty, if_neg hempty]
    cases hplace : below m.omap (base + offset) with
    | zero => rfl
    | succ place =>
      have hle := below_le m.omap (base + offset)
      have hplace_lt : place < m.omap.length := by omega
      simp only [List.getElem?_eq_getElem hplace_lt]
      split <;> rfl

/-- **The governing entry moves an address.** A place in a section that does not exist has no
address. Any other one is found from the address of its section, and the entries move it as going
through all of them tells: the one with the greatest source not above it, and of equal sources with
the greatest target, gives the distance. There is no address where there is no such entry or its
target is 0, and without entries nothing moves. In which order a stream stores the entries has no
influence. -/
theorem rva_moved (sections : List Int) (entries : List OmapEntry) (segment offset : Int) :
    (segment < 1 ∨ sections.length < segment →
      rva ⟨sections, OmapEntry.sort entries⟩ segment offset = .ok none) ∧
    (∀ base address, 1 ≤ segment → sections[(segment - 1).toNat]? = some base →
      address = base + offset →
      ∃ result, rva ⟨sections, OmapEntry.sort entries⟩ segment offset = .ok result ∧
        result = OmapEntry.moved entries address ∧
        (entries = [] → result = some address) ∧
        (entries ≠ [] → (∀ e ∈ entries, address < e.source) → result = none) ∧
        (∀ e, OmapEntry.Governs entries address e →
          result = if e.target = 0 then none else some (e.target + (address - e.source))) ∧
        ((∃ e, OmapEntry.Governs entries address e) ∨ ∀ e ∈ entries, address < e.source)) ∧
    (∀ entries', entries.Perm entries' →
      rva ⟨sections, OmapEntry.sort entries'⟩ segment offset =
        rva ⟨sections, OmapEntry.sort entries⟩ segment offset) ∧
    ∀ (words words' : List (UInt32 × UInt32)) (rest rest' : Bytes), words.Perm words' →
      rest.length < 8 → rest'.length < 8 →
      rva ⟨sections, OmapEntry.sort (OmapEntry.ofBytes (OmapEntry.stored words ++ rest))⟩
          segment offset =
        rva ⟨sections, OmapEntry.sort (OmapEntry.ofBytes (OmapEntry.stored words' ++ rest'))⟩
          segment offset := by
  refine ⟨fun h => rva_of_outside h, ?inside, ?order, ?stream⟩
  case inside =>
    rintro base _ hsegment hbase rfl
    refine ⟨OmapEntry.moved entries (base + offset), ?_, rfl, ?_, ?_, ?_, ?_⟩
    · rw [← OmapEntry.moved_sort]
      exact rva_of_section (OmapEntry.sorted_sort entries) hsegment hbase
    · rintro rfl
      rfl
    · intro hentries habove
      rw [OmapEntry.moved, if_neg (by simpa using hentries), OmapEntry.nearest?_eq_none.mpr habove]
    · exact fun e he => he.moved_eq
    · cases hnearest : OmapEntry.nearest? (base + offset) entries with
      | none => exact .inr (OmapEntry.nearest?_eq_none.mp hnearest)
      | some e => exact .inl ⟨e, OmapEntry.nearest?_eq_some.mp hnearest⟩
  case order =>
    intro entries' hperm
    rw [OmapEntry.sort_eq_of_perm hperm]
  case stream =>
    intro words words' rest rest' hperm hrest hrest'
    rw [OmapEntry.ofBytes_stored words hrest, OmapEntry.ofBytes_stored words' hrest',
      OmapEntry.sort_eq_of_perm (hperm.map _)]

/-- A function that was moved, one that was taken out, and a range whose entry is there twice: the
greater target counts, wherever it is stored. The last two bytes are no entry. -/
def movedWords : List (UInt32 × UInt32) :=
  [(0x1200, 0x3000), (0x1000, 0x2000), (0x1200, 0x2800), (0x1100, 0)]

theorem movedWords_moved :
    let entries := OmapEntry.ofBytes (OmapEntry.stored movedWords ++ [0, 0x10])
    let m : AddressMap := ⟨[0x1000, 0x5000], OmapEntry.sort entries⟩
    m.rva 0 0x10 = .ok none ∧
      (∀ e ∈ entries, 0xFF0 < e.source) ∧ m.rva 1 (-0x10) = .ok none ∧
      OmapEntry.Governs entries 0x1100 ⟨0x1100, 0⟩ ∧ m.rva 1 0x100 = .ok none ∧
      OmapEntry.Governs entries 0x5004 ⟨0x1200, 0x3000⟩ ∧ m.rva 2 4 = .ok (some 0x6E04) ∧
      m.rva 2 4 = rva ⟨[0x1000, 0x5000],
        OmapEntry.sort (OmapEntry.ofBytes (OmapEntry.stored movedWords.reverse ++ []))⟩ 2 4 := by
  intro entries m
  have hentries :
      entries = [⟨0x1200, 0x3000⟩, ⟨0x1000, 0x2000⟩, ⟨0x1200, 0x2800⟩, ⟨0x1100, 0⟩] := by decide
  have hbefore : ∀ e ∈ entries, 0xFF0 < e.source := by decide
  have hout : OmapEntry.Governs entries 0x1100 ⟨0x1100, 0⟩ := ⟨by decide, by decide, by decide⟩
  have htwice : OmapEntry.Governs entries 0x5004 ⟨0x1200, 0x3000⟩ :=
    ⟨by decide, by decide, by decide⟩
  have houtside := (rva_moved [0x1000, 0x5000] entries 0 0x10).1 (.inl (by decide))
  obtain ⟨_, hfirst, -, -, hnone, -⟩ :=
    (rva_moved [0x1000, 0x5000] entries 1 (-0x10)).2.1 0x1000 0xFF0 (by decide) rfl rfl
  obtain ⟨_, hgone, -, -, -, hzero, -⟩ :=
    (rva_moved [0x1000, 0x5000] entries 1 0x100).2.1 0x1000 0x1100 (by decide) rfl rfl
  obtain ⟨_, hlast, -, -, -, hmoved, -⟩ :=
    (rva_moved [0x1000, 0x5000] entries 2 4).2.1 0x5000 0x5004 (by decide) rfl rfl
  have hstream := (rva_moved [0x1000, 0x5000] entries 2 4).2.2.2 movedWords movedWords.reverse
    [0, 0x10] [] (List.reverse_perm movedWords).symm (by decide) (by decide)
  rw [hnone (by rw [hentries]; simp) hbefore] at hfirst
  rw [hzero _ hout] at hgone
  rw [hmoved _ htwice] at hlast
  exact ⟨houtside, hbefore, hfirst, hout, hgone, htwice, hlast, hstream⟩

end AddressMap
end KernelProfile.Pdb
