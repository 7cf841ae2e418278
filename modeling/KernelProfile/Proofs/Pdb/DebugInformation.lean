import KernelProfile.Pdb.File
import KernelProfile.Proofs.Bytes
import KernelProfile.Proofs.Except
import KernelProfile.Proofs.Table
import Mathlib.Data.List.Nodup

/-! Debug information streams as they are put together. A header announces the sizes of six
substreams and of a debug header behind them, whose entries stand for streams by their places.
Whatever the substreams hold, the streams of the debug header are found, and with them the way
addresses are computed. -/
namespace KernelProfile.Pdb

namespace DebugInformation

/-- The header of a stream, field by field. -/
structure Header where
  signature : Int32
  version : UInt32
  age : UInt32
  globalStream : UInt16
  build : UInt16
  publicStream : UInt16
  library : UInt16
  symbolRecords : UInt16
  libraryBuild : UInt16
  modules : Int32
  contributions : Int32
  sectionMap : Int32
  sources : Int32
  typeServers : Int32
  typeServer : UInt32
  debugHeader : Int32
  edits : Int32
  flags : UInt16
  machine : UInt16
  padding : UInt32

namespace Header

variable (h : Header) (rest : Bytes)

/-- The bytes of the fields, in order. -/
def fields : List Bytes :=
  let word (n : UInt32) := Bytes.ofNatLittle 4 n.toNat
  let half (n : UInt16) := Bytes.ofNatLittle 2 n.toNat
  let size (n : Int32) := Bytes.ofIntLittle 4 n.toInt
  [size h.signature, word h.version, word h.age, half h.globalStream, half h.build,
    half h.publicStream, half h.library, half h.symbolRecords, half h.libraryBuild,
    size h.modules, size h.contributions, size h.sectionMap, size h.sources, size h.typeServers,
    word h.typeServer, size h.debugHeader, size h.edits, half h.flags, half h.machine,
    word h.padding]

def bytes : Bytes := h.fields.flatten

/-- The sizes of the six substreams. -/
def substreamSizes : List Int :=
  [h.modules, h.contributions, h.sectionMap, h.sources, h.typeServers, h.edits].map Int32.toInt

theorem length_bytes : h.bytes.length = headerSize := by
  simp [bytes, fields, headerSize, Bytes.length_ofNatLittle, Bytes.length_ofIntLittle]

theorem littleAt_field {i offset width : Nat} {field : Bytes} (hfield : h.fields[i]? = some field)
    (hwidth : field.length = width) (hoffset : (h.fields.take i).flatten.length = offset) :
    h.bytes.littleAt offset width = Bytes.littleNat field := by
  subst hwidth hoffset
  have hfields := Bytes.littleAt_flatten hfield []
  rwa [List.append_nil] at hfields

theorem littleAt_half {i offset : Nat} {n : UInt16}
    (hfield : h.fields[i]? = some (Bytes.ofNatLittle 2 n.toNat))
    (hoffset : (h.fields.take i).flatten.length = offset) : h.bytes.littleAt offset 2 = n.toNat :=
  (h.littleAt_field hfield (Bytes.length_ofNatLittle ..) hoffset).trans
    (Bytes.littleNat_ofNatLittle n.toNat_lt)

/-- A size is read with its sign. -/
theorem signed_size {i offset : Nat} {n : Int32}
    (hfield : h.fields[i]? = some (Bytes.ofIntLittle 4 n.toInt))
    (hoffset : (h.fields.take i).flatten.length = offset) :
    Bytes.signed 4 (h.bytes.littleAt offset 4) = n.toInt := by
  have hlow := n.le_toInt
  have hhigh := n.toInt_lt
  rw [h.littleAt_field hfield (Bytes.length_ofIntLittle ..) hoffset]
  exact Bytes.signed_ofIntLittle (by omega) (by omega)

theorem sizes_bytes : substreamSizeOffsets.map (fun offset =>
    Bytes.signed 4 (h.bytes.littleAt offset 4)) = h.substreamSizes := by
  have hmodules : Bytes.signed 4 (h.bytes.littleAt 24 4) = h.modules.toInt :=
    h.signed_size (i := 9) rfl rfl
  have hcontributions : Bytes.signed 4 (h.bytes.littleAt 28 4) = h.contributions.toInt :=
    h.signed_size (i := 10) rfl rfl
  have hsectionMap : Bytes.signed 4 (h.bytes.littleAt 32 4) = h.sectionMap.toInt :=
    h.signed_size (i := 11) rfl rfl
  have hsources : Bytes.signed 4 (h.bytes.littleAt 36 4) = h.sources.toInt :=
    h.signed_size (i := 12) rfl rfl
  have htypeServers : Bytes.signed 4 (h.bytes.littleAt 40 4) = h.typeServers.toInt :=
    h.signed_size (i := 13) rfl rfl
  have hedits : Bytes.signed 4 (h.bytes.littleAt 52 4) = h.edits.toInt :=
    h.signed_size (i := 16) rfl rfl
  simp only [substreamSizeOffsets, substreamSizes, List.map_cons, List.map_nil, hmodules,
    hcontributions, hsectionMap, hsources, htypeServers, hedits]

/-- A stream is read as its header says, unless one of the sizes is negative. -/
theorem ofBytes_bytes (rest : Bytes) : ofBytes (h.bytes ++ rest) =
    if h.substreamSizes.any (· < 0) || h.debugHeader.toInt < 0 then .error .negativeSize
    else
      let indices := streamIndices
        (rest.slice (h.substreamSizes.foldl (· + ·) 0).toNat h.debugHeader.toInt.toNat)
      .ok ⟨h.machine.toNat, h.symbolRecords.toNat,
        .ofList ((debugStreamNames.zip indices).filter fun e => e.2 != noStream)⟩ := by
  have hroom : headerSize ≤ (h.bytes ++ rest).length := by
    rw [List.length_append, h.length_bytes]
    exact Nat.le_add_right _ _
  have hdebugHeader : Bytes.signed 4 (h.bytes.littleAt 48 4) = h.debugHeader.toInt :=
    h.signed_size (i := 15) rfl rfl
  have hmachine : h.bytes.littleAt 58 2 = h.machine.toNat := h.littleAt_half (i := 18) rfl rfl
  have hsymbols : h.bytes.littleAt 20 2 = h.symbolRecords.toNat :=
    h.littleAt_half (i := 7) rfl rfl
  have hbehind (offset n : Nat) : (h.bytes ++ rest).slice (headerSize + offset) n =
      rest.slice offset n := by
    rw [← h.length_bytes, Bytes.slice_append_right]
  rw [ofBytes, if_neg (Nat.not_lt.mpr hroom), Bytes.split?_of_le hroom,
    List.take_left' h.length_bytes]
  simp only [h.sizes_bytes, hdebugHeader, hmachine, hsymbols, hbehind]

theorem ofBytes_of_negative (rest : Bytes)
    (h' : ∃ size ∈ h.debugHeader.toInt :: h.substreamSizes, size < 0) :
    ofBytes (h.bytes ++ rest) = .error .negativeSize := by
  rw [h.ofBytes_bytes, if_pos]
  simpa [or_comm] using h'

end Header

/-- The parts of a stream: its header, what the six substreams hold, the stream indices of the debug
header, and what stands behind that. The header announces the sizes. -/
structure Parts where
  header : Header
  substreams : List Bytes
  indices : List UInt16
  behind : Bytes
  substreams_announced : header.substreamSizes = substreams.map fun s => (s.length : Int)
  indices_announced : header.debugHeader.toInt = 2 * indices.length

namespace Parts

variable (p : Parts)

/-- The bytes of the debug header. -/
def debugHeader : Bytes := p.indices.flatMap fun i => Bytes.ofNatLittle 2 i.toNat

def bytes : Bytes := p.header.bytes ++ (p.substreams.flatten ++ (p.debugHeader ++ p.behind))

theorem length_debugHeader : p.debugHeader.length = 2 * p.indices.length := by
  rw [debugHeader, List.length_flatMap]
  simp [Bytes.length_ofNatLittle, Nat.mul_comm]

theorem foldl_sizes (substreams : List Bytes) (n : Nat) :
    (substreams.map fun s => (s.length : Int)).foldl (· + ·) (n : Int) =
      ((n + substreams.flatten.length : Nat) : Int) := by
  induction substreams generalizing n with
  | nil => rfl
  | cons s substreams ih =>
    rw [List.map_cons, List.foldl_cons, List.flatten_cons, List.length_append, ← Nat.add_assoc,
      ← ih, Int.natCast_add]

theorem streamIndices_debugHeader (indices : List UInt16) :
    streamIndices (indices.flatMap fun i => Bytes.ofNatLittle 2 i.toNat) =
      indices.map UInt16.toNat := by
  induction indices with
  | nil => rfl
  | cons i indices ih =>
    have hindex : Bytes.littleNat (Bytes.ofNatLittle 2 i.toNat) = i.toNat :=
      Bytes.littleNat_ofNatLittle i.toNat_lt
    rw [List.flatMap_cons, List.map_cons, ← ih]
    simp only [Bytes.ofNatLittle] at hindex
    simp only [Bytes.ofNatLittle, List.cons_append, List.nil_append, streamIndices, hindex]

/-- The debug header is found behind the substreams. -/
theorem slice_debugHeader :
    Bytes.slice (p.substreams.flatten ++ (p.debugHeader ++ p.behind))
      (p.header.substreamSizes.foldl (· + ·) 0).toNat p.header.debugHeader.toInt.toNat =
        p.debugHeader := by
  have hoffset : (p.header.substreamSizes.foldl (· + ·) 0).toNat = p.substreams.flatten.length := by
    have hsum := foldl_sizes p.substreams 0
    rw [Nat.zero_add] at hsum
    rw [p.substreams_announced]
    exact congrArg Int.toNat hsum
  have hsize : p.header.debugHeader.toInt.toNat = p.debugHeader.length := by
    rw [p.indices_announced, p.length_debugHeader]
    rfl
  rw [hoffset, hsize, Bytes.slice, List.drop_left, List.take_left]

/-- The streams of the debug header with their names. -/
def named : List (String × Nat) :=
  (debugStreamNames.zip (p.indices.map UInt16.toNat)).filter fun e => e.2 != noStream

theorem ofBytes_bytes : ofBytes p.bytes =
    .ok ⟨p.header.machine.toNat, p.header.symbolRecords.toNat, .ofList p.named⟩ := by
  have hsizes : ¬ (p.header.substreamSizes.any (· < 0) ||
      p.header.debugHeader.toInt < 0) = true := by
    rw [p.substreams_announced, p.indices_announced, Bool.or_eq_true, List.any_eq_true]
    rintro (⟨size, hsize, hnegative⟩ | hnegative)
    · obtain ⟨s, -, rfl⟩ := List.mem_map.mp hsize
      exact absurd (of_decide_eq_true hnegative) (by omega)
    · exact absurd (of_decide_eq_true hnegative) (by omega)
  rw [bytes, p.header.ofBytes_bytes, if_neg hsizes, p.slice_debugHeader, debugHeader,
    streamIndices_debugHeader]
  rfl

theorem nodup_debugStreamNames : debugStreamNames.Nodup := by decide

theorem keys_named : (p.named.map Prod.fst).Sublist debugStreamNames := by
  refine (List.filter_sublist.map Prod.fst).trans ?_
  rw [List.zip_eq_zip_take_min, List.map_fst_zip (by simp)]
  exact List.take_sublist _ _

/-- A name has a stream if the entry at its place is there and gives one. -/
theorem get?_named {name : String} {stream : Nat} :
    (Table.ofList p.named).get? name = some stream ↔
      ∃ (place : Nat) (index : UInt16), debugStreamNames[place]? = some name ∧
        p.indices[place]? = some index ∧ index ≠ 0xFFFF ∧ stream = index.toNat := by
  have hnodup : (p.named.map Prod.fst).Nodup := nodup_debugStreamNames.sublist p.keys_named
  rw [Table.get?_eq_some_iff, Table.entries_ofList hnodup, named, List.mem_filter,
    List.mem_iff_getElem?]
  have hpresent (index : UInt16) : (index.toNat != noStream) = true ↔ index ≠ 0xFFFF := by
    rw [bne_iff_ne, noStream, ne_eq, ne_eq, ← UInt16.toNat_inj]
    rfl
  constructor
  · rintro ⟨⟨place, hplace⟩, hstream⟩
    obtain ⟨hname, hvalue⟩ := List.getElem?_zip_eq_some.mp hplace
    rw [List.getElem?_map] at hvalue
    obtain ⟨index, hindex, rfl⟩ := Option.map_eq_some_iff.mp hvalue
    exact ⟨place, index, hname, hindex, (hpresent index).mp hstream, rfl⟩
  · rintro ⟨place, index, hname, hindex, hset, rfl⟩
    refine ⟨⟨place, List.getElem?_zip_eq_some.mpr ⟨hname, ?_⟩⟩, (hpresent index).mpr hset⟩
    rw [List.getElem?_map, hindex]
    rfl

end Parts
end DebugInformation

namespace File

variable {f : File}

/-- An address map of the section headers in one stream and, if there is one, of the rearrangement
in another. -/
structure MapsThrough (f : File) (headers : Nat) (omap : Option Nat) (m : AddressMap) : Prop where
  sections : ∃ data, f.container.streamData headers = .ok data ∧
    m.sections = (SectionHeader.ofBytes data).map fun s => (s.virtualAddress : Int)
  plain : omap = none → m.omap = []
  rearranged : ∀ index, omap = some index → ∃ data, f.container.streamData index = .ok data ∧
    m.omap = OmapEntry.sort (OmapEntry.ofBytes data)

theorem addressMap_none (h : f.debug.debugStreams.get? "section_header" = none) :
    f.addressMap = .error .noSectionHeaders := by
  simp only [addressMap, h]
  rfl

/-- Where both streams are there, addresses are found for the old arrangement and moved. -/
theorem addressMap_rearranged {plain omap old : Nat} {m : AddressMap}
    (hplain : f.debug.debugStreams.get? "section_header" = some plain)
    (homap : f.debug.debugStreams.get? "omap_from_src" = some omap)
    (hold : f.debug.debugStreams.get? "section_header_orig" = some old) :
    f.addressMap = .ok m ↔ f.MapsThrough old (some omap) m := by
  simp only [addressMap, hplain, homap, hold, stream, bind_eq_ok, mapError_eq_ok]
  constructor
  · rintro ⟨moves, hmoves, _, ⟨headers, hheaders, hsections⟩, hm⟩
    cases hsections
    cases hm
    exact ⟨⟨headers, hheaders, rfl⟩, nofun, fun _ h => ⟨moves, Option.some.inj h ▸ hmoves, rfl⟩⟩
  · rintro ⟨⟨headers, hheaders, hsections⟩, -, hrearranged⟩
    obtain ⟨moves, hmoves, hentries⟩ := hrearranged omap rfl
    refine ⟨moves, hmoves, _, ⟨headers, hheaders, rfl⟩, ?_⟩
    rw [← hsections, ← hentries]
    rfl

/-- Where one of them is missing, nothing moves. -/
theorem addressMap_plain {plain : Nat} {m : AddressMap}
    (hplain : f.debug.debugStreams.get? "section_header" = some plain)
    (hmissing : f.debug.debugStreams.get? "omap_from_src" = none ∨
      f.debug.debugStreams.get? "section_header_orig" = none) :
    f.addressMap = .ok m ↔ f.MapsThrough plain none m := by
  have hmap : f.addressMap = (do
      let sections ← (do
        return (SectionHeader.ofBytes (← stream f.container plain)).map fun s =>
          (s.virtualAddress : Int))
      return ⟨sections, []⟩) := by
    rcases hmissing with homap | hold
    · simp only [addressMap, hplain, homap]
    · simp only [addressMap, hplain, hold]
      cases f.debug.debugStreams.get? "omap_from_src" <;> rfl
  simp only [hmap, stream, bind_eq_ok, mapError_eq_ok]
  constructor
  · rintro ⟨_, ⟨headers, hheaders, hsections⟩, hm⟩
    cases hsections
    cases hm
    exact ⟨⟨headers, hheaders, rfl⟩, fun _ => rfl, nofun⟩
  · rintro ⟨⟨headers, hheaders, hsections⟩, hempty, -⟩
    refine ⟨_, ⟨headers, hheaders, rfl⟩, ?_⟩
    rw [← hsections, ← hempty rfl]
    rfl

end File

namespace DebugInformation

/-- The streams of the debug header are found behind whatever the substreams hold, and exactly
those whose entries give a stream; sizes below zero are refused. Addresses are found through the
old section headers where both they and the rearrangement are there, otherwise through the section
headers alone, which have to be there. -/
theorem debug_streams_located :
    (∀ p : Parts, ∃ d, ofBytes p.bytes = .ok d ∧ d.machine = p.header.machine.toNat ∧
      d.symbolRecords = p.header.symbolRecords.toNat ∧
      ∀ name stream, d.debugStreams.get? name = some stream ↔
        ∃ (place : Nat) (index : UInt16), debugStreamNames[place]? = some name ∧
          p.indices[place]? = some index ∧ index ≠ 0xFFFF ∧ stream = index.toNat) ∧
    (∀ (h : Header) (rest : Bytes), (∃ size ∈ h.debugHeader.toInt :: h.substreamSizes, size < 0) →
      ofBytes (h.bytes ++ rest) = .error .negativeSize ∧
        (Error.ofHeader .negativeSize).isFormat = true) ∧
    ∀ f : File,
      (f.debug.debugStreams.get? "section_header" = none →
        f.addressMap = .error .noSectionHeaders ∧ Error.noSectionHeaders.isFormat = true) ∧
      ∀ plain, f.debug.debugStreams.get? "section_header" = some plain →
        (∀ omap old, f.debug.debugStreams.get? "omap_from_src" = some omap →
          f.debug.debugStreams.get? "section_header_orig" = some old →
          ∀ m, f.addressMap = .ok m ↔ f.MapsThrough old (some omap) m) ∧
        (f.debug.debugStreams.get? "omap_from_src" = none ∨
            f.debug.debugStreams.get? "section_header_orig" = none →
          ∀ m, f.addressMap = .ok m ↔ f.MapsThrough plain none m) := by
  refine ⟨?located, ?refused, fun f => ⟨?missing, ?addresses⟩⟩
  case located =>
    intro p
    exact ⟨_, p.ofBytes_bytes, rfl, rfl, fun _ _ => p.get?_named⟩
  case refused =>
    intro h rest hnegative
    exact ⟨h.ofBytes_of_negative rest hnegative, rfl⟩
  case missing =>
    intro hmissing
    exact ⟨File.addressMap_none hmissing, rfl⟩
  case addresses =>
    intro plain hplain
    exact ⟨fun _ _ homap hold _ => File.addressMap_rearranged hplain homap hold,
      fun hmissing _ => File.addressMap_plain hplain hmissing⟩

/-- A header of a debug header of this size behind a substream of three bytes and one of one. -/
def sampleHeader (debugHeader : Int32) : Header where
  signature := -1
  version := 19990903
  age := 1
  globalStream := 4
  build := 0
  publicStream := 5
  library := 0
  symbolRecords := 6
  libraryBuild := 0
  modules := 3
  contributions := 0
  sectionMap := 0
  sources := 0
  typeServers := 0
  typeServer := 0
  debugHeader
  edits := 1
  flags := 0
  machine := 0x8664
  padding := 0

/-- Twelve entries, one more than there are names, of which three give a stream that has a name. -/
def sampleParts : Parts where
  header := sampleHeader 24
  substreams := [[1, 2, 3], [], [], [], [], [9]]
  indices := [0xFFFF, 0xFFFF, 0xFFFF, 0xFFFF, 1, 0, 0xFFFF, 0xFFFF, 0xFFFF, 0xFFFF, 2, 7]
  behind := [0xEE]
  substreams_announced := by decide
  indices_announced := by decide

/-- A file of three streams that lie one behind the other: section headers, a rearrangement and
the old section headers. -/
def sampleFile (debugStreams : Table Nat) : File where
  container :=
    { access := .memory
      file := List.replicate 12 0 ++ [0, 0x30] ++ List.replicate 26 0 ++
        [0, 0x10, 0, 0, 0, 0x20, 0, 0] ++ List.replicate 12 0 ++ [0, 0x10] ++ List.replicate 26 0
      pageSize := 8
      streams := [⟨40, [0, 1, 2, 3, 4]⟩, ⟨8, [5]⟩, ⟨40, [6, 7, 8, 9, 10]⟩] }
  debug := ⟨0x8664, 6, debugStreams⟩
  types := ⟨0x1000, 0x1000, []⟩

theorem sampleParts_located :
    (∃ d, ofBytes sampleParts.bytes = .ok d ∧ d.machine = 0x8664 ∧ d.symbolRecords = 6 ∧
      d.debugStreams.get? "section_header" = some 0 ∧
      d.debugStreams.get? "omap_from_src" = some 1 ∧
      d.debugStreams.get? "section_header_orig" = some 2 ∧ d.debugStreams.get? "fpo" = none) ∧
    ofBytes ((sampleHeader (-2)).bytes ++ [1, 2, 3, 9]) = .error .negativeSize ∧
    (sampleFile .empty).addressMap = .error .noSectionHeaders ∧
    (sampleFile (.ofList [("section_header", 0)])).addressMap = .ok ⟨[0x3000], []⟩ ∧
    (sampleFile (.ofList [("omap_from_src", 1), ("section_header", 0),
      ("section_header_orig", 2)])).addressMap = .ok ⟨[0x1000], [⟨0x1000, 0x2000⟩]⟩ := by
  obtain ⟨hlocated, hrefused, haddresses⟩ := debug_streams_located
  refine ⟨?located, ?refused, ?missing, ?plain, ?rearranged⟩
  case located =>
    obtain ⟨d, hd, hmachine, hsymbols, hstreams⟩ := hlocated sampleParts
    refine ⟨d, hd, hmachine, hsymbols, ?_, ?_, ?_, ?_⟩
    · exact (hstreams _ _).mpr ⟨5, 0, rfl, rfl, by decide, rfl⟩
    · exact (hstreams _ _).mpr ⟨4, 1, rfl, rfl, by decide, rfl⟩
    · exact (hstreams _ _).mpr ⟨10, 2, rfl, rfl, by decide, rfl⟩
    · refine Option.eq_none_iff_forall_ne_some.mpr fun stream hstream => ?_
      obtain ⟨place, index, hname, hindex, hset, -⟩ := (hstreams _ _).mp hstream
      have hplace : place = 0 :=
        ((List.getElem?_inj (by decide) Parts.nodup_debugStreamNames).mp
          (hname.trans (by rfl : some "fpo" = debugStreamNames[0]?)).symm).symm
      subst hplace
      exact hset (Option.some.inj hindex).symm
  case refused => exact (hrefused (sampleHeader (-2)) [1, 2, 3, 9] ⟨-2, by decide, by decide⟩).1
  case missing => exact ((haddresses (sampleFile .empty)).1 rfl).1
  case plain =>
    refine (((haddresses _).2 0 (by decide)).2 (.inl (by decide)) _).mpr ?_
    refine ⟨⟨List.replicate 12 0 ++ [0, 0x30] ++ List.replicate 26 0, ?_, rfl⟩, fun _ => rfl, nofun⟩
    with_unfolding_all rfl
  case rearranged =>
    refine (((haddresses _).2 0 (by decide)).1 1 2 (by decide) (by decide) _).mpr ?_
    refine ⟨⟨List.replicate 12 0 ++ [0, 0x10] ++ List.replicate 26 0, ?_, rfl⟩, nofun, ?_⟩
    · with_unfolding_all rfl
    · intro index hindex
      cases hindex
      refine ⟨[0, 0x10, 0, 0, 0, 0x20, 0, 0], ?_, ?_⟩ <;> with_unfolding_all rfl

end DebugInformation
end KernelProfile.Pdb
