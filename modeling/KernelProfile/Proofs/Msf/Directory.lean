import KernelProfile.Proofs.Bytes
import KernelProfile.Proofs.Except
import KernelProfile.Proofs.Msf.Stream

/-! The stream directory as a list of words. Words are read back from their bytes, and the
directory, itself a stream, from the words that lie on its pages. Whatever a container's bytes are,
a stream of it lists as many pages as its size takes. -/
namespace KernelProfile.Msf

open Bytes

/-! ## Words -/

/-- The bytes of a list of 32-bit words. -/
def wordBytes (ws : List Nat) : Bytes := ws.flatMap (ofNatLittle 4)

@[simp] theorem wordBytes_cons (w : Nat) (ws : List Nat) :
    wordBytes (w :: ws) = ofNatLittle 4 w ++ wordBytes ws := rfl

@[simp] theorem length_wordBytes (ws : List Nat) : (wordBytes ws).length = 4 * ws.length := by
  induction ws with
  | nil => rfl
  | cons w ws ih =>
    rw [wordBytes_cons, List.length_append, length_ofNatLittle, ih, List.length_cons]
    omega

theorem drop_wordBytes (ws : List Nat) (n : Nat) :
    (wordBytes ws).drop (4 * n) = wordBytes (ws.drop n) := by
  induction n generalizing ws with
  | zero => rfl
  | succ n ih =>
    cases ws with
    | nil => rfl
    | cons w ws =>
      have hlen : (ofNatLittle 4 w).length = 4 := length_ofNatLittle 4 w
      rw [wordBytes_cons, List.drop_succ_cons, ← ih, Nat.mul_succ, Nat.add_comm,
        ← List.drop_drop, List.drop_left' hlen]

theorem take_wordBytes (ws : List Nat) (n : Nat) :
    (wordBytes ws).take (4 * n) = wordBytes (ws.take n) := by
  induction n generalizing ws with
  | zero => rfl
  | succ n ih =>
    cases ws with
    | nil => rfl
    | cons w ws =>
      have hlen : (ofNatLittle 4 w).length = 4 := length_ofNatLittle 4 w
      rw [wordBytes_cons, List.take_succ_cons, wordBytes_cons, ← ih, Nat.mul_succ, Nat.add_comm,
        List.take_append, hlen, List.take_of_length_le (by omega), Nat.add_sub_cancel_left]

theorem slice_wordBytes (ws : List Nat) (first count : Nat) :
    (wordBytes ws).slice (4 * first) (4 * count) = wordBytes ((ws.drop first).take count) := by
  rw [slice, drop_wordBytes, take_wordBytes]

/-- The words of their own bytes. -/
theorem words_wordBytes {ws : List Nat} (h : ∀ w ∈ ws, w < 2 ^ 32) : words (wordBytes ws) = ws := by
  induction ws with
  | nil => rfl
  | cons w ws ih =>
    have hw : littleNat (ofNatLittle 4 w) = w := littleNat_ofNatLittle (h w List.mem_cons_self)
    have hrest := ih fun v hv => h v (List.mem_cons_of_mem _ hv)
    rw [wordBytes_cons]
    exact congrArg₂ List.cons hw hrest

theorem wordsOf_wordBytes {ws : List Nat} {count : Nat} (h : ∀ w ∈ ws, w < 2 ^ 32)
    (hcount : ws.length = count) : wordsOf count (wordBytes ws) = .ok ws := by
  rw [wordsOf, length_wordBytes, hcount, if_pos rfl, words_wordBytes h]

theorem words_lt (bytes : Bytes) : ∀ w ∈ words bytes, w < 2 ^ 32 := by
  fun_induction words bytes with
  | case1 a b c d rest ih =>
    intro w hw
    rcases List.mem_cons.mp hw with rfl | hw
    · have hlt : littleNat [a, b, c, d] < 256 ^ 4 := littleNat_lt _
      exact Nat.lt_of_lt_of_eq hlt (by decide)
    · exact ih w hw
  | case2 => simp

theorem length_words (bytes : Bytes) : (words bytes).length = bytes.length / 4 := by
  fun_induction words bytes with
  | case1 a b c d rest ih =>
    simp only [List.length_cons, ih]
    omega
  | case2 bytes h =>
    have hshort : bytes.length < 4 := by
      match bytes, h with
      | [], _ | [_], _ | [_, _], _ | [_, _, _], _ => simp
      | a :: b :: c :: d :: rest, h => exact absurd rfl (h a b c d rest)
    rw [Nat.div_eq_of_lt hshort]
    rfl

/-- Words that are there are as many as were asked for. -/
theorem wordsOf_eq_ok {count : Nat} {bytes : Bytes} {ws : List Nat}
    (h : wordsOf count bytes = .ok ws) : ws.length = count ∧ ∀ w ∈ ws, w < 2 ^ 32 := by
  unfold wordsOf at h
  split at h
  · rename_i hlen
    cases h
    refine ⟨?_, words_lt bytes⟩
    rw [length_words]
    omega
  · cases h

/-! ## Pages of a size -/

theorem pageCount_eq {size pageSize : Nat} (h : size < 2 ^ 32) :
    pageCount size pageSize = (size + pageSize - 1) / pageSize := by
  rw [pageCount, if_pos (Nat.lt_trans h (by decide))]

/-- The pages of a stream are those that one of its bytes lies on. -/
theorem lt_pageCount_iff {size pageSize i : Nat} (h : size < 2 ^ 32) (hp : 0 < pageSize) :
    i < pageCount size pageSize ↔ i * pageSize < size := by
  rw [pageCount_eq h, Nat.lt_iff_add_one_le, Nat.le_div_iff_mul_le hp, Nat.add_mul]
  omega

theorem div_lt_pageCount {size pageSize k : Nat} (h : size < 2 ^ 32) (hp : 0 < pageSize)
    (hk : k < size) : k / pageSize < pageCount size pageSize :=
  (lt_pageCount_iff h hp).mpr (Nat.lt_of_le_of_lt (Nat.div_mul_le_self k pageSize) hk)

/-- A stream lists as many pages as its size takes, each with a number of 32 bits. -/
structure Paged (pageSize : Nat) (s : PageStream) : Prop where
  size_lt : s.size < 2 ^ 32
  length_pages : s.pages.length = pageCount s.size pageSize
  page_lt : ∀ page ∈ s.pages, page < 2 ^ 32

namespace Paged

variable {pageSize : Nat} {s : PageStream}

/-- Every byte of the stream has its page. -/
theorem exists_page (h : Paged pageSize s) (hp : 0 < pageSize) {k : Nat} (hk : k < s.size) :
    ∃ page, s.pages[k / pageSize]? = some page := by
  have hcount : k / pageSize < s.pages.length := by
    rw [h.length_pages]
    exact div_lt_pageCount h.size_lt hp hk
  exact ⟨_, List.getElem?_eq_getElem hcount⟩

/-- No page begins behind the last byte. -/
theorem start_lt (h : Paged pageSize s) (hp : 0 < pageSize) {i page : Nat}
    (hpage : s.pages[i]? = some page) : i * pageSize < s.size := by
  rw [← lt_pageCount_iff h.size_lt hp, ← h.length_pages]
  exact (List.getElem?_eq_some_iff.mp hpage).1

end Paged

/-! ## Page sizes -/

theorem isPowerOfTwo_iff {n : Nat} : isPowerOfTwo n = true ↔ n.isPowerOfTwo := by
  by_cases hn : n = 0
  · subst hn
    exact iff_of_false (by decide) (fun h => absurd (Nat.pos_of_isPowerOfTwo h) (by decide))
  · simp [isPowerOfTwo, hn, Nat.and_sub_one_eq_zero_iff_isPowerOfTwo hn]

theorem isPowerOfTwo_pos {n : Nat} (h : isPowerOfTwo n = true) : 0 < n :=
  Nat.pos_of_isPowerOfTwo (isPowerOfTwo_iff.mp h)

/-- A page size of 32 bits takes one of them. -/
theorem isPowerOfTwo_le {n : Nat} (h : isPowerOfTwo n = true) (hlt : n < 2 ^ 32) : n ≤ 2 ^ 31 := by
  obtain ⟨bits, rfl⟩ := isPowerOfTwo_iff.mp h
  have hbits : bits < 32 := (Nat.pow_lt_pow_iff_right (by decide)).mp hlt
  exact Nat.pow_le_pow_right (by decide) (by omega)

/-! ## Reading a directory -/

section Directory

variable {access : Access} {file : Bytes} {pageSize : Nat} {directory : PageStream}
  {entries : List Nat}

/-- Words of a directory that the file has. -/
theorem Holds.exists_words (h : Holds file pageSize directory.pages (wordBytes entries))
    (hp : 0 < pageSize) (hsize : directory.size = (wordBytes entries).length)
    (hreach : ∀ page ∈ directory.pages, page * pageSize + pageSize ≤ access.limit file)
    (hwords : ∀ w ∈ entries, w < 2 ^ 32) {first count : Nat}
    (hcount : first + count ≤ entries.length) :
    ∃ bytes, readFrom access file pageSize directory (4 * first) (4 * count) = .ok bytes ∧
      wordsOf count bytes = .ok ((entries.drop first).take count) := by
  refine ⟨_, h.readFrom_eq hp hsize hreach _ _, ?_⟩
  rw [slice_wordBytes]
  refine wordsOf_wordBytes (fun w hw => hwords w ?_) ?_
  · exact List.mem_of_mem_drop (List.mem_of_mem_take hw)
  · rw [List.length_take, List.length_drop]
    omega

/-- Every stream of a directory lists as many pages as its size takes. -/
theorem readPageLists_paged {position : Nat} {sizes : List Nat} {streams : List PageStream}
    (hsizes : ∀ size ∈ sizes, size < 2 ^ 32)
    (h : readPageLists access file pageSize directory position sizes = .ok streams) :
    ∀ s ∈ streams, Paged pageSize s := by
  induction sizes generalizing position streams with
  | nil =>
    cases h
    simp
  | cons announced sizes ih =>
    obtain ⟨bytes, -, h⟩ := bind_eq_ok.mp h
    obtain ⟨pages, hpages, h⟩ := bind_eq_ok.mp h
    obtain ⟨rest, hrest, h⟩ := bind_eq_ok.mp h
    cases h
    intro s hs
    rcases List.mem_cons.mp hs with rfl | hs
    · obtain ⟨hcount, hwords⟩ := wordsOf_eq_ok hpages
      refine ⟨?_, hcount, hwords⟩
      have hlt := hsizes announced List.mem_cons_self
      dsimp only
      split <;> omega
    · exact ih (fun size hm => hsizes size (List.mem_cons_of_mem _ hm)) hrest s hs

theorem streamsOf_paged {streams : List PageStream}
    (h : streamsOf access file pageSize directory = .ok streams) :
    ∀ s ∈ streams, Paged pageSize s := by
  obtain ⟨countBytes, -, h⟩ := bind_eq_ok.mp h
  obtain ⟨counts, -, h⟩ := bind_eq_ok.mp h
  obtain ⟨sizeBytes, -, h⟩ := bind_eq_ok.mp h
  obtain ⟨sizes, hsizes, h⟩ := bind_eq_ok.mp h
  exact readPageLists_paged (wordsOf_eq_ok hsizes).2 h

theorem directoryOf_page_lt (h : directoryOf access file pageSize = .ok directory) :
    ∀ page ∈ directory.pages, page < 2 ^ 32 := by
  obtain ⟨map, -, h⟩ := bind_eq_ok.mp h
  obtain ⟨pages, hpages, h⟩ := bind_eq_ok.mp h
  cases h
  exact (wordsOf_eq_ok hpages).2

end Directory

/-! ## Places out of reach -/

/-- If an error tells of an offset out of reach, then a page with a number of 32 bits lies there. -/
def WithinPages (access : Access) (file : Bytes) (pageSize : Nat) (e : MsfError) : Prop :=
  ∀ offset, e = .outOfReach offset →
    access.limit file < offset ∧ offset < 2 ^ 32 * pageSize ∧ pageSize ≤ 2 ^ 31

section Reach

variable {access : Access} {file : Bytes} {pageSize : Nat} {directory : PageStream}

theorem Strays.withinPages {pages : List Nat} {e : MsfError}
    (h : Strays access file pageSize pages e) (hpages : ∀ page ∈ pages, page < 2 ^ 32)
    (hle : pageSize ≤ 2 ^ 31) : WithinPages access file pageSize e := by
  obtain ⟨place, rfl, hfar, page, hpage, hlt⟩ := h
  intro offset heq
  cases heq
  exact ⟨hfar, Nat.lt_of_lt_of_le hlt (Nat.mul_le_mul_right _ (hpages page hpage)), hle⟩

theorem wordsOf_failsOnly (count : Nat) (bytes : Bytes) :
    FailsOnly (WithinPages access file pageSize) (wordsOf count bytes) := by
  unfold wordsOf
  split
  · exact .ok _
  · exact .error nofun

variable (hle : pageSize ≤ 2 ^ 31)

include hle

theorem readFrom_withinPages {s : PageStream} (hs : ∀ page ∈ s.pages, page < 2 ^ 32)
    (position count : Nat) : FailsOnly (WithinPages access file pageSize)
      (readFrom access file pageSize s position count) :=
  fun e he => (readFrom_failsOnly s position count e he).withinPages hs hle

theorem readPageLists_failsOnly (hs : ∀ page ∈ directory.pages, page < 2 ^ 32)
    (position : Nat) (sizes : List Nat) : FailsOnly (WithinPages access file pageSize)
      (readPageLists access file pageSize directory position sizes) := by
  induction sizes generalizing position with
  | nil => exact .ok _
  | cons announced sizes ih =>
    refine (readFrom_withinPages hle hs _ _).bind fun bytes _ => ?_
    refine (wordsOf_failsOnly _ _).bind fun pages _ => ?_
    exact (ih _).bind fun rest _ => .ok _

theorem streamsOf_failsOnly (hs : ∀ page ∈ directory.pages, page < 2 ^ 32) :
    FailsOnly (WithinPages access file pageSize)
      (streamsOf access file pageSize directory) := by
  have hread : ∀ position count, FailsOnly (WithinPages access file pageSize)
      (readFrom access file pageSize directory position count) := readFrom_withinPages hle hs
  refine (hread _ _).bind fun countBytes _ => (wordsOf_failsOnly _ _).bind fun counts _ => ?_
  refine (hread _ _).bind fun sizeBytes _ => (wordsOf_failsOnly _ _).bind fun sizes _ => ?_
  exact readPageLists_failsOnly hle hs _ _

theorem directoryOf_failsOnly (hp : 0 < pageSize) :
    FailsOnly (WithinPages access file pageSize) (directoryOf access file pageSize) := by
  refine .bind ?_ fun map _ => (wordsOf_failsOnly _ _).bind fun pages _ => .ok _
  intro e he
  obtain ⟨rfl, hfar⟩ := Access.readAt_failsOnly _ _ e he
  intro offset heq
  cases heq
  have hmap : file.littleAt 52 4 < 2 ^ 32 := littleAt_lt file 52 4
  exact ⟨hfar, Nat.mul_lt_mul_of_pos_right hmap hp, hle⟩

end Reach

/-- Where offsets of 63 bits can be gone to, nothing is out of reach. -/
theorem WithinPages.ne_outOfReach {access : Access} {file : Bytes} {pageSize : Nat} {e : MsfError}
    (h : WithinPages access file pageSize e) (hreach : 2 ^ 63 - 1 ≤ access.reach) (offset : Nat) :
    e ≠ .outOfReach offset := by
  intro heq
  obtain ⟨hfar, hlt, hle⟩ := h offset heq
  have hlimit : access.reach ≤ access.limit file := Nat.le_max_left _ _
  have hpages : 2 ^ 32 * pageSize ≤ 2 ^ 32 * 2 ^ 31 := Nat.mul_le_mul_left _ hle
  omega

/-! ## Reading a container -/

/-- What every container that is read keeps to: its page size is a power of two in 32 bits, and
every stream lists as many pages as its size takes. -/
structure Sound (m : Msf) : Prop where
  pageSize_pos : 0 < m.pageSize
  pageSize_le : m.pageSize ≤ 2 ^ 31
  paged : ∀ s ∈ m.streams, Paged m.pageSize s

variable {access : Access} {file : Bytes}

theorem pageSizeOf_eq_ok {pageSize : Nat} : pageSizeOf file = .ok pageSize ↔
    superblockSize ≤ file.length ∧ file.take 32 = magic ∧
      isPowerOfTwo (file.littleAt 32 4) = true ∧ pageSize = file.littleAt 32 4 := by
  unfold pageSizeOf
  dsimp only
  split_ifs with hshort hmagic hpower
  · exact iff_of_false nofun fun h => absurd hshort (Nat.not_lt.mpr h.1)
  · exact iff_of_false nofun fun h => bne_iff_ne.mp hmagic h.2.1
  · have heq : file.take 32 = magic := by simpa only [bne_iff_ne, ne_eq, not_not] using hmagic
    rw [Except.ok.injEq]
    exact ⟨fun h => ⟨Nat.not_lt.mp hshort, heq, hpower, h.symm⟩, fun h => h.2.2.2.symm⟩
  · exact iff_of_false nofun fun h => hpower h.2.2.1

theorem pageSizeOf_failsOnly (file : Bytes) :
    FailsOnly (fun e => ∀ offset, e ≠ .outOfReach offset) (pageSizeOf file) := by
  unfold pageSizeOf
  dsimp only
  split_ifs
  · exact .error nofun
  · exact .error nofun
  · exact .ok _
  · exact .error nofun

/-- A page size of a superblock is a power of two of 32 bits. -/
theorem pageSizeOf_range {pageSize : Nat} (h : pageSizeOf file = .ok pageSize) :
    pageSize = file.littleAt 32 4 ∧ 0 < pageSize ∧ pageSize ≤ 2 ^ 31 := by
  obtain ⟨-, -, hpower, rfl⟩ := pageSizeOf_eq_ok.mp h
  exact ⟨rfl, isPowerOfTwo_pos hpower, isPowerOfTwo_le hpower (littleAt_lt file 32 4)⟩

/-- A container that is read has the bytes of its file. -/
theorem ofBytes_sound {m : Msf} (h : ofBytes file access = .ok m) :
    m.access = access ∧ m.file = file ∧ m.pageSize = file.littleAt 32 4 ∧ m.Sound := by
  obtain ⟨pageSize, hpageSize, h⟩ := bind_eq_ok.mp h
  obtain ⟨directory, -, h⟩ := bind_eq_ok.mp h
  obtain ⟨streams, hstreams, h⟩ := bind_eq_ok.mp h
  cases h
  obtain ⟨rfl, hpositive, hle⟩ := pageSizeOf_range hpageSize
  exact ⟨rfl, rfl, rfl, hpositive, hle, streamsOf_paged hstreams⟩

/-- **Reading a container goes out of reach only where a page number leads there**: that of the
block map, or one that the directory lies on. -/
theorem ofBytes_failsOnly (file : Bytes) (access : Access) :
    FailsOnly (WithinPages access file (file.littleAt 32 4)) (ofBytes file access) := by
  refine .bind ?_ fun pageSize hpageSize => ?_
  · intro e he offset heq
    exact absurd heq (pageSizeOf_failsOnly file e he offset)
  · obtain ⟨rfl, hpositive, hle⟩ := pageSizeOf_range hpageSize
    refine (directoryOf_failsOnly hle hpositive).bind fun directory hdirectory => ?_
    exact (streamsOf_failsOnly hle (directoryOf_page_lt hdirectory)).bind fun streams _ => .ok _

/-- Neither does reading a stream of it. -/
theorem read_failsOnly {m : Msf} (h : ofBytes file access = .ok m) (i position : Nat)
    (count : Option Nat) :
    FailsOnly (WithinPages access file (file.littleAt 32 4)) (m.read i position count) := by
  obtain ⟨rfl, rfl, hpageSize, hsound⟩ := ofBytes_sound h
  rw [← hpageSize]
  refine .bind ?_ fun s hs => ?_
  · unfold stream
    split
    · exact .ok _
    · exact .error nofun
  · have hmem : s ∈ m.streams := by
      unfold stream at hs
      split at hs
      · rename_i hi
        cases hs
        exact List.mem_of_getElem? hi
      · cases hs
    exact readFrom_withinPages hsound.pageSize_le (hsound.paged s hmem).page_lt _ _

/-- A block map that lies out of reach ends the reading. -/
theorem ofBytes_eq_outOfReach (hlong : superblockSize ≤ file.length) (hmagic : file.take 32 = magic)
    (hpower : isPowerOfTwo (file.littleAt 32 4) = true)
    (hfar : access.limit file < file.littleAt 52 4 * file.littleAt 32 4) :
    ofBytes file access = .error (.outOfReach (file.littleAt 52 4 * file.littleAt 32 4)) := by
  refine bind_eq_error.mpr (.inr ⟨_, pageSizeOf_eq_ok.mpr ⟨hlong, hmagic, hpower, rfl⟩, ?_⟩)
  refine bind_eq_error.mpr (.inl (bind_eq_error.mpr (.inl ?_)))
  exact if_neg (Nat.not_le.mpr hfar)

end KernelProfile.Msf
