import KernelProfile.Proofs.Msf.Directory
import KernelProfile.Proofs.Overlay
import Mathlib.Data.List.Nodup

/-! Containers as they are written. A layout tells what every stream holds and on which pages the
streams, the directory and the block map lie; its image is the file in which all of it has been put
into place. Reading the image gives the layout's streams back, however the pages are scattered. -/
namespace KernelProfile.Msf

open Bytes

/-! ## Layouts -/

/-- A content and the pages that it is put on, in their order. -/
structure Stored where
  content : Bytes
  pages : List Nat

/-- A stream that is listed. A nil one has neither content nor pages. -/
abbrev Listed := Option Stored

namespace Listed

def content : Listed → Bytes
  | none => []
  | some s => s.content

def pages : Listed → List Nat
  | none => []
  | some s => s.pages

/-- The size that the directory gives. -/
def announced : Listed → Nat
  | none => 0xFFFFFFFF
  | some s => s.content.length

def stream (s : Listed) : PageStream := ⟨s.content.length, s.pages⟩

end Listed

/-- What is put into a file, and where. -/
structure Plan where
  /-- What the file holds wherever nothing is put. -/
  background : Bytes
  pageBits : Nat
  freeMap : Nat
  reserved : Nat
  mapPage : Nat
  directoryPages : List Nat
  streams : List Listed

namespace Plan

def pageSize (l : Plan) : Nat := 2 ^ l.pageBits

/-- The words of the directory: the number of streams, their sizes, and their pages. -/
def entries (l : Plan) : List Nat :=
  l.streams.length :: (l.streams.map Listed.announced ++ l.streams.flatMap Listed.pages)

def directory (l : Plan) : Stored := ⟨wordBytes l.entries, l.directoryPages⟩

/-- All that lies on pages. -/
def stored (l : Plan) : List Stored := l.directory :: l.streams.filterMap id

def blockMap (l : Plan) : Placed := ⟨l.mapPage * l.pageSize, wordBytes l.directoryPages⟩

/-- The words of the superblock. -/
def header (l : Plan) : List Nat :=
  [l.pageSize, l.freeMap, l.background.length / l.pageSize, l.directory.content.length, l.reserved,
    l.mapPage]

def superblock (l : Plan) : Placed := ⟨0, magic ++ wordBytes l.header⟩

/-- A content cut up for its pages. -/
def chunks (l : Plan) (s : Stored) : List Placed :=
  s.pages.zipIdx.map fun (page, i) =>
    ⟨page * l.pageSize, s.content.slice (i * l.pageSize) l.pageSize⟩

/-- The file in which everything is in its place. -/
def image (l : Plan) : Bytes :=
  overlay l.background (l.superblock :: l.blockMap :: l.stored.flatMap l.chunks)

end Plan

/-- A plan that can be carried out: everything has the pages that its size takes, and these are in
the file, apart from each other, from the superblock and from the block map. -/
structure Layout extends Plan where
  pageBits_lt : pageBits < 32
  fills : ∀ s ∈ toPlan.stored,
    s.pages.length = (s.content.length + toPlan.pageSize - 1) / toPlan.pageSize
  size_lt : ∀ s ∈ toPlan.stored, s.content.length < 2 ^ 32 - 1
  distinct : (toPlan.stored.flatMap Stored.pages).Nodup
  page_lt : ∀ page ∈ toPlan.stored.flatMap Stored.pages, page < 2 ^ 32
  inFile : ∀ page ∈ toPlan.stored.flatMap Stored.pages,
    page * toPlan.pageSize + toPlan.pageSize ≤ background.length
  behindSuperblock : ∀ page ∈ toPlan.stored.flatMap Stored.pages,
    superblockSize ≤ page * toPlan.pageSize
  apartFromMap : ∀ page ∈ toPlan.stored.flatMap Stored.pages,
    page * toPlan.pageSize + toPlan.pageSize ≤ toPlan.blockMap.offset ∨
      toPlan.blockMap.offset + toPlan.blockMap.bytes.length ≤ page * toPlan.pageSize
  mapPage_lt : mapPage < 2 ^ 32
  map_inFile : toPlan.blockMap.offset + toPlan.blockMap.bytes.length ≤ background.length
  map_behindSuperblock : superblockSize ≤ toPlan.blockMap.offset

namespace Layout

variable (l : Layout)

theorem pageSize_pos : 0 < l.pageSize := Nat.two_pow_pos _

theorem content_lt {s : Stored} (hs : s ∈ l.stored) : s.content.length < 2 ^ 32 :=
  Nat.lt_of_lt_of_le (l.size_lt s hs) (Nat.sub_le _ _)

theorem length_pages {s : Stored} (hs : s ∈ l.stored) :
    s.pages.length = pageCount s.content.length l.pageSize := by
  rw [pageCount_eq (l.content_lt hs), l.fills s hs]

theorem length_superblock : l.superblock.bytes.length = superblockSize := by
  rw [Plan.superblock, List.length_append, length_wordBytes]
  rfl

/-- The offsets of the chunks are those of the pages. -/
theorem offset_chunks : (l.stored.flatMap l.chunks).map Placed.offset =
    (l.stored.flatMap Stored.pages).map (· * l.pageSize) := by
  have hchunks : ∀ s : Stored, (l.chunks s).map Placed.offset = s.pages.map (· * l.pageSize) := by
    intro s
    calc (l.chunks s).map Placed.offset
        = (s.pages.zipIdx.map Prod.fst).map (· * l.pageSize) := by
          rw [Plan.chunks, List.map_map, List.map_map]
          rfl
      _ = s.pages.map (· * l.pageSize) := by rw [List.zipIdx_map_fst]
  rw [List.map_flatMap, List.map_flatMap]
  exact List.flatMap_congr fun s _ => hchunks s

/-- A chunk lies on a page. -/
theorem exists_page {w : Placed} (hw : w ∈ l.stored.flatMap l.chunks) :
    ∃ page ∈ l.stored.flatMap Stored.pages, w.offset = page * l.pageSize ∧
      w.bytes.length ≤ l.pageSize := by
  obtain ⟨s, hs, hw⟩ := List.mem_flatMap.mp hw
  obtain ⟨⟨page, i⟩, hmem, rfl⟩ := List.mem_map.mp hw
  refine ⟨page, List.mem_flatMap.mpr ⟨s, hs, List.fst_mem_of_mem_zipIdx hmem⟩, rfl, ?_⟩
  exact List.length_take_le _ _

/-- Different chunks lie on different pages. -/
theorem chunk_inj {v w : Placed} {place : Nat} (hv : v ∈ l.stored.flatMap l.chunks)
    (hw : w ∈ l.stored.flatMap l.chunks) (hvp : v.Covers place) (hwp : w.Covers place) :
    v = w := by
  have hpage : ∀ {u : Placed}, u ∈ l.stored.flatMap l.chunks → u.Covers place →
      u.offset = place / l.pageSize * l.pageSize := by
    intro u hu hup
    obtain ⟨page, -, hoffset, hlen⟩ := l.exists_page hu
    obtain ⟨hlow, hhigh⟩ := hup
    have hdiv : place / l.pageSize = page :=
      Nat.div_eq_of_lt_le (by omega) (by rw [Nat.succ_mul]; omega)
    rw [hdiv, hoffset]
  have hnodup : ((l.stored.flatMap l.chunks).map Placed.offset).Nodup := by
    rw [offset_chunks]
    exact l.distinct.map fun a b hab => Nat.eq_of_mul_eq_mul_right l.pageSize_pos hab
  exact List.inj_on_of_nodup_map hnodup hv hw ((hpage hv hvp).trans (hpage hw hwp).symm)

/-- What covers a place: the superblock, the block map, or a chunk that is apart from both. -/
theorem covers_cases {w : Placed} {place : Nat}
    (hw : w ∈ l.superblock :: l.blockMap :: l.stored.flatMap l.chunks) (hwp : w.Covers place) :
    (w = l.superblock ∧ place < superblockSize) ∨
      (w = l.blockMap ∧ superblockSize ≤ place) ∨
      (w ∈ l.stored.flatMap l.chunks ∧ superblockSize ≤ place ∧ ¬ l.blockMap.Covers place) := by
  obtain ⟨hlow, hhigh⟩ := hwp
  rcases List.mem_cons.mp hw with rfl | hw
  · rw [length_superblock] at hhigh
    exact .inl ⟨rfl, by simpa [Plan.superblock] using hhigh⟩
  · rcases List.mem_cons.mp hw with rfl | hw
    · exact .inr (.inl ⟨rfl, Nat.le_trans l.map_behindSuperblock hlow⟩)
    · obtain ⟨page, hpage, hoffset, hlen⟩ := l.exists_page hw
      have hbehind := l.behindSuperblock page hpage
      have hapart := l.apartFromMap page hpage
      refine .inr (.inr ⟨hw, by omega, ?_⟩)
      rintro ⟨hmapLow, hmapHigh⟩
      omega

/-- No place is in two things that are put into the file. -/
theorem covers_inj {v w : Placed} {place : Nat}
    (hv : v ∈ l.superblock :: l.blockMap :: l.stored.flatMap l.chunks)
    (hw : w ∈ l.superblock :: l.blockMap :: l.stored.flatMap l.chunks) (hvp : v.Covers place)
    (hwp : w.Covers place) : v = w := by
  rcases l.covers_cases hv hvp with ⟨rfl, hv⟩ | ⟨rfl, hv⟩ | ⟨hv, hvplace, hvmap⟩ <;>
    rcases l.covers_cases hw hwp with ⟨rfl, hw⟩ | ⟨rfl, hw⟩ | ⟨hw, hwplace, hwmap⟩
  case inl.inl | inr.inl.inr.inl => rfl
  case inr.inr.inr.inr => exact l.chunk_inj hv hw hvp hwp
  case inr.inl.inr.inr => exact absurd hvp hwmap
  case inr.inr.inr.inl => exact absurd hwp hvmap
  all_goals omega

theorem length_image : l.image.length = l.background.length := length_overlay _ _

/-- Everything is where it was put. -/
theorem slice_image {w : Placed}
    (hw : w ∈ l.superblock :: l.blockMap :: l.stored.flatMap l.chunks)
    (hin : w.offset + w.bytes.length ≤ l.background.length) :
    l.image.slice w.offset w.bytes.length = w.bytes :=
  slice_overlay hw hin fun _ hv _ hvp hwp => l.covers_inj hv hw hvp hwp

/-- A page holds its part of the content. -/
theorem slice_page {s : Stored} (hs : s ∈ l.stored) {i page : Nat}
    (hpage : s.pages[i]? = some page) :
    l.image.slice (page * l.pageSize)
        (s.content.slice (i * l.pageSize) l.pageSize).length =
      s.content.slice (i * l.pageSize) l.pageSize := by
  have hmem : ⟨page * l.pageSize, s.content.slice (i * l.pageSize) l.pageSize⟩ ∈
      l.stored.flatMap l.chunks :=
    List.mem_flatMap.mpr ⟨s, hs, List.mem_map.mpr
      ⟨(page, i), List.mem_zipIdx_iff_getElem?.mpr hpage, rfl⟩⟩
  have hfile : page * l.pageSize + l.pageSize ≤ l.background.length :=
    l.inFile page (List.mem_flatMap.mpr ⟨s, hs, List.mem_of_getElem? hpage⟩)
  have hshort : (s.content.slice (i * l.pageSize) l.pageSize).length ≤ l.pageSize :=
    List.length_take_le _ _
  exact l.slice_image (List.mem_cons_of_mem _ (List.mem_cons_of_mem _ hmem))
    (by dsimp only; omega)

/-- Every content is on its pages. -/
theorem holds_image {s : Stored} (hs : s ∈ l.stored) :
    Holds l.image l.pageSize s.pages s.content := by
  intro k hk
  have hcount : k / l.pageSize < s.pages.length := by
    rw [l.length_pages hs]
    exact div_lt_pageCount (l.content_lt hs) l.pageSize_pos hk
  have hpage := List.getElem?_eq_getElem hcount
  have hplace : k / l.pageSize * l.pageSize + k % l.pageSize = k := Nat.div_add_mod' _ _
  have hmod : k % l.pageSize < l.pageSize := Nat.mod_lt _ l.pageSize_pos
  have hslice := l.slice_page hs hpage
  generalize hchunk : s.content.slice (k / l.pageSize * l.pageSize) l.pageSize = chunk at hslice
  have hbyte : chunk[k % l.pageSize]? = s.content[k]? := by
    rw [← hchunk, getElem?_slice, if_pos hmod, hplace]
  have hlen : k % l.pageSize < chunk.length := by
    rw [List.getElem?_eq_getElem hk] at hbyte
    exact (List.getElem?_eq_some_iff.mp hbyte).1
  rw [byteAt, hpage, Option.bind_some, ← hbyte, ← congrArg (·[k % l.pageSize]?) hslice,
    getElem?_slice, if_pos hlen]

/-! ## Reading the image -/

theorem directory_mem : l.directory ∈ l.stored := List.mem_cons_self

/-- The block map takes at least one word. -/
theorem superblockSize_le : superblockSize ≤ l.background.length :=
  Nat.le_trans l.map_behindSuperblock (Nat.le_trans (Nat.le_add_right _ _) l.map_inFile)

theorem slice_superblock : l.image.slice 0 superblockSize = l.superblock.bytes := by
  have h := l.slice_image List.mem_cons_self (by
    rw [length_superblock]
    simpa [Plan.superblock] using l.superblockSize_le)
  rw [length_superblock] at h
  exact h

theorem magic_image : l.image.take 32 = magic := by
  have h := slice_slice l.image 0 superblockSize 0 32 (by decide)
  rw [slice_superblock] at h
  have hmagic : magic.length = 32 := by decide
  calc l.image.take 32 = l.image.slice (0 + 0) 32 := rfl
    _ = l.superblock.bytes.slice 0 32 := h.symm
    _ = magic := List.take_left' hmagic

/-- A word of the superblock. -/
theorem littleAt_image (i : Nat) {w : Nat} (hi : l.header[i]? = some w) (hw : w < 2 ^ 32) :
    l.image.littleAt (32 + 4 * i) 4 = w := by
  have hcount : i < 6 := (List.getElem?_eq_some_iff.mp hi).1
  have hinside : 32 + 4 * i + 4 ≤ superblockSize := by
    rw [superblockSize]
    omega
  have hmagic : magic.length = 32 := by decide
  have hword : (wordBytes l.header).slice (4 * i) (4 * 1) = ofNatLittle 4 w := by
    rw [slice_wordBytes, List.take_one, List.head?_drop, hi]
    exact List.append_nil _
  have hslice : l.image.slice (32 + 4 * i) 4 = ofNatLittle 4 w := by
    calc l.image.slice (32 + 4 * i) 4
        = (l.image.slice 0 superblockSize).slice (32 + 4 * i) 4 := by
          rw [slice_slice _ _ _ _ _ hinside, Nat.zero_add]
      _ = (wordBytes l.header).slice (4 * i) (4 * 1) := by
          rw [slice_superblock, Plan.superblock, slice, ← List.drop_drop, List.drop_left' hmagic]
          rfl
      _ = ofNatLittle 4 w := hword
  rw [littleAt, hslice, littleNat_ofNatLittle hw]

theorem isPowerOfTwo_pageSize : isPowerOfTwo l.pageSize = true := by
  have hand : l.pageSize &&& (l.pageSize - 1) = 0 := by
    rw [Plan.pageSize, Nat.and_two_pow_sub_one_eq_mod, Nat.mod_self]
  have hne : l.pageSize ≠ 0 := Nat.ne_of_gt l.pageSize_pos
  simp [isPowerOfTwo, hand, hne]

theorem mem_stored {s : Stored} (hs : some s ∈ l.streams) : s ∈ l.stored :=
  List.mem_cons_of_mem _ (List.mem_filterMap.mpr ⟨some s, hs, rfl⟩)

theorem entries_lt : ∀ w ∈ l.entries, w < 2 ^ 32 := by
  have hdirectory := l.size_lt _ l.directory_mem
  rw [Plan.directory, length_wordBytes, Plan.entries, List.length_cons, List.length_append,
    List.length_map] at hdirectory
  intro w hw
  rcases List.mem_cons.mp hw with rfl | hw
  · omega
  · rcases List.mem_append.mp hw with hw | hw
    · obtain ⟨s, hs, rfl⟩ := List.mem_map.mp hw
      cases s with
      | none => decide
      | some s => exact l.content_lt (l.mem_stored hs)
    · obtain ⟨s, hs, hw⟩ := List.mem_flatMap.mp hw
      cases s with
      | none => exact absurd hw List.not_mem_nil
      | some s => exact l.page_lt w (List.mem_flatMap.mpr ⟨s, l.mem_stored hs, hw⟩)

theorem directoryPages_lt : ∀ w ∈ l.directoryPages, w < 2 ^ 32 := fun w hw =>
  l.page_lt w (List.mem_flatMap.mpr ⟨l.directory, l.directory_mem, hw⟩)

theorem wordsOf_blockMap :
    wordsOf (pageCount l.directory.content.length l.pageSize)
      (l.image.slice (l.mapPage * l.pageSize)
        (4 * pageCount l.directory.content.length l.pageSize)) = .ok l.directoryPages := by
  have hcount : l.directoryPages.length = pageCount l.directory.content.length l.pageSize :=
    l.length_pages l.directory_mem
  have hslice := l.slice_image (List.mem_cons_of_mem _ List.mem_cons_self) l.map_inFile
  rw [Plan.blockMap, length_wordBytes, hcount] at hslice
  rw [hslice]
  exact wordsOf_wordBytes l.directoryPages_lt hcount

/-- Every page is in the file, and so in reach. -/
theorem page_le_limit (access : Access) {s : Stored} (hs : s ∈ l.stored) :
    ∀ page ∈ s.pages, page * l.pageSize + l.pageSize ≤ access.limit l.image := by
  intro page hpage
  have hlimit := access.length_le_limit l.image
  rw [length_image] at hlimit
  exact Nat.le_trans (l.inFile page (List.mem_flatMap.mpr ⟨s, hs, hpage⟩)) hlimit

/-- The stream of the directory. -/
def directoryStream : PageStream := ⟨l.directory.content.length, l.directoryPages⟩

theorem exists_words_directory (access : Access) (first count : Nat)
    (h : first + count ≤ l.entries.length) :
    ∃ bytes, readFrom access l.image l.pageSize l.directoryStream (4 * first) (4 * count) =
        .ok bytes ∧ wordsOf count bytes = .ok ((l.entries.drop first).take count) :=
  Holds.exists_words (l.holds_image l.directory_mem) l.pageSize_pos rfl
    (l.page_le_limit access l.directory_mem) l.entries_lt h

/-- What the directory gives for a stream is its size, and its pages are as many as that takes. -/
theorem listed_eq {s : Listed} (hs : s ∈ l.streams) :
    (if s.announced = 0xFFFFFFFF then 0 else s.announced) = s.content.length ∧
      pageCount s.content.length l.pageSize = s.pages.length := by
  cases s with
  | none =>
    have hpos := l.pageSize_pos
    refine ⟨rfl, ?_⟩
    rw [Listed.content, List.length_nil, pageCount_eq (by decide), Nat.div_eq_of_lt (by omega)]
    rfl
  | some s =>
    have hsize : s.content.length ≠ 0xFFFFFFFF := Nat.ne_of_lt (l.size_lt s (l.mem_stored hs))
    exact ⟨if_neg hsize, (l.length_pages (l.mem_stored hs)).symm⟩

theorem readFrom_listed (access : Access) {s : Listed} (hs : s ∈ l.streams)
    (position count : Nat) :
    readFrom access l.image l.pageSize s.stream position count =
      .ok (s.content.slice position count) := by
  cases s with
  | none =>
    have hholds : Holds l.image l.pageSize [] [] := fun k hk => absurd hk (Nat.not_lt_zero k)
    exact hholds.readFrom_eq l.pageSize_pos rfl (fun _ h => absurd h List.not_mem_nil) position
      count
  | some s =>
    exact (l.holds_image (l.mem_stored hs)).readFrom_eq l.pageSize_pos rfl
      (l.page_le_limit access (l.mem_stored hs)) position count

/-- The page lists are read off the words behind those that are known already. -/
theorem readPageLists_image (access : Access) (listed : List Listed) (known : List Nat)
    (hlisted : ∀ s ∈ listed, s ∈ l.streams)
    (hknown : l.entries = known ++ listed.flatMap Listed.pages) :
    readPageLists access l.image l.pageSize l.directoryStream (4 * known.length)
      (listed.map Listed.announced) = .ok (listed.map Listed.stream) := by
  induction listed generalizing known with
  | nil => rfl
  | cons s listed ih =>
    obtain ⟨hsize, hcount⟩ := l.listed_eq (hlisted s List.mem_cons_self)
    rw [List.flatMap_cons] at hknown
    have hinside : known.length + s.pages.length ≤ l.entries.length := by
      rw [hknown]
      simp
    obtain ⟨bytes, hread, hpages⟩ :=
      l.exists_words_directory access known.length s.pages.length hinside
    rw [hknown, List.drop_left' rfl, List.take_left' rfl] at hpages
    have hrest := ih (known ++ s.pages) (fun s hs => hlisted s (List.mem_cons_of_mem _ hs))
      (by rw [hknown, List.append_assoc])
    rw [List.length_append, Nat.mul_add] at hrest
    rw [List.map_cons, readPageLists, hsize, hcount]
    refine bind_eq_ok.mpr ⟨_, hread, bind_eq_ok.mpr ⟨_, hpages, ?_⟩⟩
    exact bind_eq_ok.mpr ⟨_, hrest, rfl⟩

/-- The container of an image. -/
def container (access : Access) : Msf :=
  ⟨access, l.image, l.pageSize, l.streams.map Listed.stream⟩

theorem pageSizeOf_image : pageSizeOf l.image = .ok l.pageSize := by
  have hlong : superblockSize ≤ l.image.length := by
    rw [length_image]
    exact l.superblockSize_le
  have hpageSize : l.image.littleAt 32 4 = l.pageSize :=
    l.littleAt_image 0 rfl (Nat.pow_lt_pow_right (by decide) l.pageBits_lt)
  refine pageSizeOf_eq_ok.mpr ⟨hlong, l.magic_image, ?_, hpageSize.symm⟩
  rw [hpageSize]
  exact l.isPowerOfTwo_pageSize

theorem directoryOf_image (access : Access) :
    directoryOf access l.image l.pageSize = .ok l.directoryStream := by
  have hsize : l.image.littleAt 44 4 = l.directory.content.length :=
    l.littleAt_image 3 rfl (l.content_lt l.directory_mem)
  have hmap : l.image.littleAt 52 4 = l.mapPage := l.littleAt_image 5 rfl l.mapPage_lt
  have hreach : l.mapPage * l.pageSize ≤ access.limit l.image := by
    have hlimit := access.length_le_limit l.image
    rw [length_image] at hlimit
    exact Nat.le_trans (Nat.le_trans (Nat.le_add_right _ _) l.map_inFile) hlimit
  rw [directoryOf, hsize, hmap]
  refine bind_eq_ok.mpr ⟨_, Access.readAt_eq_ok.mpr ⟨hreach, rfl⟩, ?_⟩
  exact bind_eq_ok.mpr ⟨_, l.wordsOf_blockMap, rfl⟩

theorem streamsOf_image (access : Access) :
    streamsOf access l.image l.pageSize l.directoryStream =
      .ok (l.streams.map Listed.stream) := by
  obtain ⟨countBytes, hcountRead, hcount⟩ :=
    l.exists_words_directory access 0 1 (by rw [Plan.entries]; simp)
  obtain ⟨sizeBytes, hsizeRead, hsizes⟩ := l.exists_words_directory access 1 l.streams.length (by
    rw [Plan.entries, List.length_cons, List.length_append, List.length_map]
    omega)
  rw [Plan.entries, List.drop_one, List.tail_cons, List.take_left' (List.length_map _)] at hsizes
  have hlists := l.readPageLists_image access l.streams
    (l.streams.length :: l.streams.map Listed.announced) (fun _ hs => hs) rfl
  rw [List.length_cons, List.length_map, Nat.mul_succ, Nat.add_comm] at hlists
  refine bind_eq_ok.mpr ⟨_, hcountRead, bind_eq_ok.mpr ⟨_, hcount, ?_⟩⟩
  exact bind_eq_ok.mpr ⟨_, hsizeRead, bind_eq_ok.mpr ⟨_, hsizes, hlists⟩⟩

theorem ofBytes_eq (access : Access) : ofBytes l.image access = .ok (l.container access) := by
  refine bind_eq_ok.mpr ⟨_, l.pageSizeOf_image, bind_eq_ok.mpr ⟨_, l.directoryOf_image access, ?_⟩⟩
  exact bind_eq_ok.mpr ⟨_, l.streamsOf_image access, rfl⟩

/-- **An image is read back**, however files are read. The container of an image has exactly the
streams of its layout, in their order, and every read of a stream gives the bytes of its content
from the position on, as many as were asked for and there are. -/
theorem ofBytes_image (access : Access) :
    ∃ m, ofBytes l.image access = .ok m ∧ m.pageSize = l.pageSize ∧
      m.streams = l.streams.map Listed.stream ∧
      ∀ i s, l.streams[i]? = some s → m.streamData i = .ok s.content ∧
        ∀ position, m.read i position none = .ok (s.content.drop position) ∧
          ∀ count, m.read i position (some count) = .ok (s.content.slice position count) := by
  refine ⟨_, l.ofBytes_eq access, rfl, rfl, ?_⟩
  intro i s hi
  have hs : s ∈ l.streams := List.mem_of_getElem? hi
  have hpart := l.readFrom_listed access hs
  have hstream : (l.container access).stream i = .ok s.stream := by
    rw [stream, container, List.getElem?_map, hi]
    rfl
  have hrest : ∀ position,
      (l.container access).read i position none = .ok (s.content.drop position) := by
    intro position
    have hall : s.content.slice position s.content.length = s.content.drop position :=
      List.take_of_length_le (by rw [List.length_drop]; omega)
    rw [read, hstream]
    exact (hpart position s.content.length).trans (congrArg Except.ok hall)
  refine ⟨hrest 0, fun position => ⟨hrest position, fun count => ?_⟩⟩
  rw [read, hstream]
  exact hpart position count

end Layout

/-- Three streams, one of them nil and one empty, in pages of 16 bytes. The directory and the first
stream take two pages each, both times the later one first. -/
def scattered : Layout where
  background := List.replicate 120 0 ++ List.replicate 8 0xEE ++ List.replicate 16 0
  pageBits := 4
  freeMap := 1
  reserved := 0
  mapPage := 4
  directoryPages := [6, 5]
  streams := [some ⟨(List.range 24).map fun i => UInt8.ofNat (0x41 + i), [8, 7]⟩, none,
    some ⟨[], []⟩]
  pageBits_lt := by decide
  fills := by decide
  size_lt := by decide
  distinct := by decide
  page_lt := by decide
  inFile := by decide +kernel
  behindSuperblock := by decide
  apartFromMap := by decide
  mapPage_lt := by decide
  map_inFile := by decide +kernel
  map_behindSuperblock := by decide

/-- Four bytes from both sides of the boundary of two pages. -/
theorem scattered_read : ∃ m, ofBytes scattered.image = .ok m ∧
    m.streams = [⟨24, [8, 7]⟩, ⟨0, []⟩, ⟨0, []⟩] ∧
    m.read 0 14 (some 4) = .ok [0x4F, 0x50, 0x51, 0x52] ∧ m.streamData 1 = .ok [] := by
  obtain ⟨m, hm, -, hstreams, hread⟩ := scattered.ofBytes_image .memory
  obtain ⟨-, hfirst⟩ := hread 0 _ rfl
  obtain ⟨hnil, -⟩ := hread 1 _ rfl
  exact ⟨m, hm, hstreams, (hfirst 14).2 4, hnil⟩

end KernelProfile.Msf
