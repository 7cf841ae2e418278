import KernelProfile.Msf
import KernelProfile.Proofs.Bytes
import KernelProfile.Proofs.Except
import Mathlib.Data.List.Basic

/-! Bytes of a stream and their places in the file. Byte `k` of a stream lies on the page that the
stream lists for it. A range of the stream is read exactly if all places that it goes to are in
reach, and then it yields the bytes at the range's places as far as the file has them. Where the
file has all of a content, every read gives that part of the content, whichever pages and windows
the range crosses. -/
namespace KernelProfile

namespace Access

variable {access : Access} {file : Bytes}

theorem length_le_limit (access : Access) (file : Bytes) : file.length ≤ access.limit file :=
  Nat.le_max_right _ _

theorem readAt_eq_ok {offset length : Nat} {bytes : Bytes} :
    access.readAt file offset length = .ok bytes ↔
      offset ≤ access.limit file ∧ bytes = file.slice offset length := by
  unfold readAt
  split
  · rename_i hle
    rw [Except.ok.injEq]
    exact ⟨fun h => ⟨hle, h.symm⟩, fun h => h.2.symm⟩
  · rename_i hfar
    exact iff_of_false nofun fun h => hfar h.1

theorem readAt_failsOnly (offset length : Nat) :
    FailsOnly (fun e => e = .outOfReach offset ∧ access.limit file < offset)
      (access.readAt file offset length) := by
  unfold readAt
  split
  · exact .ok _
  · rename_i hfar
    exact .error ⟨rfl, Nat.lt_of_not_le hfar⟩

end Access

namespace Msf

variable {access : Access} {file : Bytes} {pageSize : Nat} {pages : List Nat} {content : Bytes}

/-! ## Places of bytes -/

/-- The byte of the file that is byte `k` of a stream of these pages. -/
def byteAt (file : Bytes) (pageSize : Nat) (pages : List Nat) (k : Nat) : Option UInt8 :=
  pages[k / pageSize]?.bind fun page => file[page * pageSize + k % pageSize]?

/-- The bytes of a range of a stream that the file has. -/
def present (file : Bytes) (pageSize : Nat) (pages : List Nat) (offset length : Nat) : Bytes :=
  (List.range' offset length).filterMap (byteAt file pageSize pages)

theorem present_append (offset m n : Nat) :
    present file pageSize pages offset m ++ present file pageSize pages (offset + m) n =
      present file pageSize pages offset (m + n) := by
  rw [present, present, present, ← List.filterMap_append, List.range'_append_1]

theorem length_present_le (offset n : Nat) : (present file pageSize pages offset n).length ≤ n := by
  have hle := List.length_filterMap_le (byteAt file pageSize pages) (List.range' offset n)
  rw [List.length_range'] at hle
  exact hle

/-- Within one page the page stays and the place on it moves along. -/
theorem div_mod_of_page {offset i : Nat} (h : offset % pageSize + i < pageSize) :
    (offset + i) / pageSize = offset / pageSize ∧
      (offset + i) % pageSize = offset % pageSize + i := by
  refine (Nat.div_mod_unique (by omega)).mpr ⟨?_, h⟩
  have hplace := Nat.mod_add_div offset pageSize
  omega

/-- On one page, what a range has is a part of the file. -/
theorem present_of_page {page offset n : Nat} (hpage : pages[offset / pageSize]? = some page)
    (hn : offset % pageSize + n ≤ pageSize) :
    present file pageSize pages offset n =
      file.slice (page * pageSize + offset % pageSize) n := by
  have hshift : ∀ i < n, byteAt file pageSize pages (offset + i) =
      file[page * pageSize + offset % pageSize + i]? := by
    intro i hi
    obtain ⟨hdiv, hmod⟩ := div_mod_of_page (by omega : offset % pageSize + i < pageSize)
    rw [byteAt, hdiv, hmod, hpage, Option.bind_some, Nat.add_assoc]
  rw [Bytes.slice_eq_filterMap, present, List.range'_eq_map_range, List.range'_eq_map_range,
    List.filterMap_map, List.filterMap_map]
  exact List.filterMap_congr fun i hi => hshift i (List.mem_range.mp hi)

theorem getElem?_eq_none_of_page {offset k : Nat} (hpage : pages[offset / pageSize]? = none)
    (hle : offset ≤ k) : pages[k / pageSize]? = none :=
  List.getElem?_eq_none
    (Nat.le_trans (List.getElem?_eq_none_iff.mp hpage) (Nat.div_le_div_right hle))

/-- Behind the last page there is nothing. -/
theorem present_of_no_page {offset : Nat} (hpage : pages[offset / pageSize]? = none) (n : Nat) :
    present file pageSize pages offset n = [] := by
  refine List.filterMap_eq_nil_iff.mpr fun k hk => ?_
  have hle : offset ≤ k := (List.mem_range'_1.mp hk).1
  rw [byteAt, getElem?_eq_none_of_page hpage hle, Option.bind_none]

/-! ## Reading a range -/

/-- Every place that a range of a stream goes to is in reach: that of its first byte, and the start
of every further page. -/
def Reachable (access : Access) (file : Bytes) (pageSize : Nat) (pages : List Nat)
    (offset length : Nat) : Prop :=
  ∀ k, offset ≤ k → k < offset + length → (k = offset ∨ k % pageSize = 0) →
    ∀ page, pages[k / pageSize]? = some page →
      page * pageSize + k % pageSize ≤ access.limit file

/-- A range whose first part lies on one page goes there, and to wherever the rest goes. -/
theorem reachable_iff_of_page {page offset length chunk : Nat} (hlength : 0 < length)
    (hpage : pages[offset / pageSize]? = some page) (hmod : offset % pageSize < pageSize)
    (hchunk : chunk = min length (pageSize - offset % pageSize)) :
    Reachable access file pageSize pages offset length ↔
      page * pageSize + offset % pageSize ≤ access.limit file ∧
        Reachable access file pageSize pages (offset + chunk) (length - chunk) := by
  constructor
  · intro h
    refine ⟨h offset (Nat.le_refl _) (by omega) (.inl rfl) page hpage, ?_⟩
    intro k hle hlt hk
    refine h k (by omega) (by omega) (.inr ?_)
    rcases hk with rfl | hk
    · -- the rest begins on the next page
      have hsum : offset + chunk = pageSize * (offset / pageSize) + pageSize := by
        have hplace := Nat.div_add_mod offset pageSize
        omega
      rw [hsum, Nat.mul_add_mod, Nat.mod_self]
    · exact hk
  · rintro ⟨hfirst, hrest⟩ k hle hlt hk page' hpage'
    by_cases heq : k = offset
    · subst heq
      rw [hpage] at hpage'
      cases hpage'
      exact hfirst
    · have hzero : k % pageSize = 0 := by omega
      have hbehind : offset + chunk ≤ k := by
        by_contra hbefore
        have hinside : offset % pageSize + (k - offset) < pageSize := by omega
        have hplace := (div_mod_of_page hinside).2
        rw [Nat.add_sub_cancel' hle] at hplace
        omega
      exact hrest k hbehind (by omega) (.inr hzero) page' hpage'

/-- **A range is read exactly if all places that it goes to are in reach**, and then it yields what
the file has of it. -/
theorem gather_eq_ok (hp : 0 < pageSize) {offset length : Nat} (bytes : Bytes) :
    gather access file pageSize pages offset length = .ok bytes ↔
      Reachable access file pageSize pages offset length ∧
        bytes = present file pageSize pages offset length := by
  fun_induction gather access file pageSize pages offset length generalizing bytes with
  | case1 offset length h =>
    have hzero : length = 0 := by omega
    have hreach : Reachable access file pageSize pages offset length := by
      intro k hle hlt
      omega
    have hnone : present file pageSize pages offset length = [] := by
      rw [hzero]
      rfl
    rw [hnone, Except.ok.injEq]
    exact ⟨fun h => ⟨hreach, h.symm⟩, fun h => h.2.symm⟩
  | case2 offset length h hpage =>
    have hreach : Reachable access file pageSize pages offset length := by
      intro k hle _ _ page hk
      rw [getElem?_eq_none_of_page hpage hle] at hk
      cases hk
    rw [present_of_no_page hpage, Except.ok.injEq]
    exact ⟨fun h => ⟨hreach, h.symm⟩, fun h => h.2.symm⟩
  | case3 offset length h page hpage chunk ih =>
    have hmod : offset % pageSize < pageSize := Nat.mod_lt _ hp
    have hchunk : chunk ≤ length := Nat.min_le_left _ _
    have hfit : offset % pageSize + chunk ≤ pageSize := by omega
    have hsum : chunk + (length - chunk) = length := by omega
    have hpresent : present file pageSize pages offset length =
        file.slice (page * pageSize + offset % pageSize) chunk ++
          present file pageSize pages (offset + chunk) (length - chunk) := by
      rw [← present_of_page hpage hfit, present_append, hsum]
    rw [reachable_iff_of_page (by omega) hpage hmod rfl, hpresent, bind_eq_ok]
    constructor
    · rintro ⟨first, hfirst, h⟩
      obtain ⟨rest, hrest, heq⟩ := bind_eq_ok.mp h
      obtain ⟨hplace, rfl⟩ := Access.readAt_eq_ok.mp hfirst
      obtain ⟨hreach, rfl⟩ := (ih _).mp hrest
      cases heq
      exact ⟨⟨hplace, hreach⟩, rfl⟩
    · rintro ⟨⟨hplace, hreach⟩, rfl⟩
      refine ⟨_, Access.readAt_eq_ok.mpr ⟨hplace, rfl⟩, bind_eq_ok.mpr ⟨_, ?_, rfl⟩⟩
      exact (ih _).mpr ⟨hreach, rfl⟩

/-- A place that is out of reach, on one of the pages. -/
def Strays (access : Access) (file : Bytes) (pageSize : Nat) (pages : List Nat) (e : MsfError) :
    Prop :=
  ∃ place, e = .outOfReach place ∧ access.limit file < place ∧
    ∃ page ∈ pages, place < (page + 1) * pageSize

theorem gather_failsOnly (offset length : Nat) :
    FailsOnly (Strays access file pageSize pages)
      (gather access file pageSize pages offset length) := by
  fun_induction gather access file pageSize pages offset length with
  | case1 => exact .ok _
  | case2 => exact .ok _
  | case3 offset length h page hpage chunk ih =>
    refine .bind ?_ fun bytes _ => ih.bind fun rest _ => .ok _
    intro e he
    obtain ⟨rfl, hfar⟩ := Access.readAt_failsOnly _ _ e he
    have hmod : offset % pageSize < pageSize := Nat.mod_lt _ (by omega)
    refine ⟨_, rfl, hfar, page, List.mem_of_getElem? hpage, ?_⟩
    rw [Nat.succ_mul]
    omega

/-! ## Reads as cuts -/

namespace Cut

/-- What a cut keeps of what the file has. -/
def kept (file : Bytes) (pageSize : Nat) (pages : List Nat) (c : Cut) : Bytes :=
  (present file pageSize pages c.offset c.length).slice c.skip c.count

/-- Unless a cut is empty, all places that its range goes to are in reach. -/
def Reachable (access : Access) (file : Bytes) (pageSize : Nat) (pages : List Nat) (c : Cut) :
    Prop :=
  c.count ≠ 0 → Msf.Reachable access file pageSize pages c.offset c.length

theorem read_eq_ok (hp : 0 < pageSize) {c : Cut} {bytes : Bytes} :
    c.read access file pageSize pages = .ok bytes ↔
      c.Reachable access file pageSize pages ∧ bytes = c.kept file pageSize pages := by
  unfold read
  split
  · rename_i hzero
    have hnone : c.kept file pageSize pages = [] := by
      rw [kept, hzero]
      rfl
    rw [hnone, Except.ok.injEq]
    exact ⟨fun h => ⟨fun hne => absurd hzero hne, h.symm⟩, fun h => h.2.symm⟩
  · rename_i hne
    rw [map_eq_ok]
    constructor
    · rintro ⟨range, hrange, rfl⟩
      obtain ⟨hreach, rfl⟩ := (gather_eq_ok hp _).mp hrange
      exact ⟨fun _ => hreach, rfl⟩
    · rintro ⟨hreach, rfl⟩
      exact ⟨_, (gather_eq_ok hp _).mpr ⟨hreach hne, rfl⟩, rfl⟩

theorem read_failsOnly (c : Cut) :
    FailsOnly (Strays access file pageSize pages) (c.read access file pageSize pages) := by
  unfold read
  split
  · exact .ok _
  · exact (gather_failsOnly _ _).map _

end Cut

/-- **A read succeeds exactly if all places that its cuts go to are in reach**, and then it gives
what the cuts keep. -/
theorem readFrom_eq_ok {s : PageStream} (hp : 0 < pageSize) {position count : Nat} {bytes : Bytes} :
    readFrom access file pageSize s position count = .ok bytes ↔
      (∀ c ∈ cuts access.window position (min count (s.size - position)),
        c.Reachable access file pageSize s.pages) ∧
      bytes = (cuts access.window position (min count (s.size - position))).flatMap
        (Cut.kept file pageSize s.pages) := by
  rw [readFrom, bind_eq_ok, List.flatMap_def]
  constructor
  · rintro ⟨parts, hparts, heq⟩
    obtain ⟨hreach, rfl⟩ := (mapM_eq_ok_map fun c => Cut.read_eq_ok hp).mp hparts
    cases heq
    exact ⟨hreach, rfl⟩
  · rintro ⟨hreach, rfl⟩
    exact ⟨_, (mapM_eq_ok_map fun c => Cut.read_eq_ok hp).mpr ⟨hreach, rfl⟩, rfl⟩

theorem readFrom_failsOnly (s : PageStream) (position count : Nat) :
    FailsOnly (Strays access file pageSize s.pages)
      (readFrom access file pageSize s position count) :=
  .bind (.mapM fun c _ => c.read_failsOnly) fun _ _ => .ok _

/-! ## Contents that the file has -/

/-- The file has every byte of a content at its place. -/
def Holds (file : Bytes) (pageSize : Nat) (pages : List Nat) (content : Bytes) : Prop :=
  ∀ k < content.length, byteAt file pageSize pages k = content[k]?

theorem Holds.present_eq (h : Holds file pageSize pages content) {offset n : Nat}
    (hn : offset + n ≤ content.length) :
    present file pageSize pages offset n = content.slice offset n := by
  rw [present, Bytes.slice_eq_filterMap]
  refine List.filterMap_congr fun k hk => h k ?_
  have hlt := (List.mem_range'_1.mp hk).2
  omega

/-- A cut keeps that part of the content, also where its range goes further than the content. -/
theorem Holds.kept_eq (h : Holds file pageSize pages content) {c : Cut}
    (hlength : c.skip + c.count ≤ c.length)
    (hn : c.count = 0 ∨ c.offset + c.skip + c.count ≤ content.length) :
    c.kept file pageSize pages = content.slice (c.offset + c.skip) c.count := by
  rcases hn with hzero | hn
  · rw [Cut.kept, hzero]
    rfl
  have hsum : c.length = c.skip + c.count + (c.length - (c.skip + c.count)) := by omega
  have hfirst : (present file pageSize pages c.offset (c.skip + c.count)).length =
      c.skip + c.count := by
    rw [h.present_eq (by omega), Bytes.length_slice (by omega)]
  rw [Cut.kept, hsum, ← present_append, Bytes.slice, List.drop_append_of_le_length (by omega),
    List.take_append_of_le_length (by rw [List.length_drop]; omega), h.present_eq (by omega)]
  exact Bytes.slice_slice content c.offset (c.skip + c.count) c.skip c.count (Nat.le_refl _)

/-- The cuts of a read meet at the first and at the last window boundary of its range. -/
theorem Holds.flatMap_kept (h : Holds file pageSize pages content) {window position n : Nat}
    (hwindow : 0 < window) (hn : n ≤ content.length - position) :
    (cuts window position n).flatMap (Cut.kept file pageSize pages) =
      content.slice position n := by
  have hskew : position % window < window := Nat.mod_lt _ hwindow
  have hle : position % window ≤ position := Nat.mod_le _ _
  unfold cuts
  generalize position % window = skew at hskew hle ⊢
  dsimp only
  generalize hfirst : (if skew = 0 then 0 else min n (window - skew)) = first
  have hfits : first ≤ n ∧ skew + first ≤ window := by
    rw [← hfirst]
    split <;> omega
  have hwhole : (n - first) / window * window ≤ n - first := Nat.div_mul_le_self _ _
  have hrest : n - first - (n - first) / window * window ≤ window := by
    have hdiv := Nat.div_add_mod' (n - first) window
    have hmod := Nat.mod_lt (n - first) hwindow
    omega
  generalize (n - first) / window * window = whole at hwhole hrest ⊢
  have hhead : Cut.kept file pageSize pages ⟨position - skew, window, skew, first⟩ =
      content.slice position first := by
    have hcut := h.kept_eq (c := ⟨position - skew, window, skew, first⟩) hfits.2
      (by dsimp only; omega)
    rw [Nat.sub_add_cancel hle] at hcut
    exact hcut
  have hmiddle : Cut.kept file pageSize pages ⟨position + first, whole, 0, whole⟩ =
      content.slice (position + first) whole :=
    h.kept_eq (by dsimp only; omega) (by dsimp only; omega)
  have htail : Cut.kept file pageSize pages
        ⟨position + first + whole, window, 0, n - first - whole⟩ =
      content.slice (position + first + whole) (n - first - whole) :=
    h.kept_eq (by dsimp only; omega) (by dsimp only; omega)
  have hsum : first + (whole + (n - first - whole)) = n := by omega
  rw [List.flatMap_cons, List.flatMap_cons, List.flatMap_cons, List.flatMap_nil, List.append_nil,
    hhead, hmiddle, htail, Bytes.slice_append, Bytes.slice_append, hsum]

/-- A read gives the part of the content from the position on, as far as the content goes. -/
theorem Holds.readFrom_eq {s : PageStream} (h : Holds file pageSize s.pages content)
    (hp : 0 < pageSize) (hsize : s.size = content.length)
    (hreach : ∀ page ∈ s.pages, page * pageSize + pageSize ≤ access.limit file)
    (position count : Nat) :
    readFrom access file pageSize s position count = .ok (content.slice position count) := by
  have hcut : content.slice position count =
      content.slice position (min count (s.size - position)) := by
    rw [Bytes.slice, Bytes.slice, List.take_eq_take_iff, List.length_drop]
    omega
  refine (readFrom_eq_ok hp).mpr ⟨?_, ?_⟩
  · intro c _ _ k _ _ _ page hpage
    have hplace := hreach page (List.mem_of_getElem? hpage)
    have hmod : k % pageSize < pageSize := Nat.mod_lt _ hp
    omega
  · rw [hcut, h.flatMap_kept access.window_pos (by omega)]

end Msf
end KernelProfile
