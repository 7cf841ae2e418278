import KernelProfile.Proofs.CodeView.Collect
import KernelProfile.Proofs.Except
import KernelProfile.Proofs.Frame
import KernelProfile.Proofs.Table

/-! Type records and the streams that hold them. The region that a header announces is cut into
exactly the records that it was put together from, whatever they are, and the table counts them from
the first index of the header. A stream is accepted only if its region is such a run of records with
at most three bytes behind it. -/
namespace KernelProfile.CodeView

/-- A table has the records of a list under the indices that follow each other from the first one
on. Below 0x1000 are the built-in types, and everything else is out of range. The records are
visited in order, each as it is looked up, up to the first one that cannot be read. -/
structure RecordTable.Exposes (t : RecordTable) (first : Nat) (fs : List Frame) : Prop where
  size : t.rows.length = fs.length
  record : ∀ (k : Nat) f, fs[k]? = some f →
    t.get ((first + k : Nat) : Int) = decodeRecord f.kind f.payload
  builtIn : ∀ i : Int, i < 0x1000 → t.get i = .ok (.primitive i)
  outside : ∀ i : Int, 0x1000 ≤ i → i < first ∨ (first + fs.length : Nat) ≤ i →
    t.get i = .error (.outOfRange i)
  contains : ∀ i : Int, t.contains i = true ↔ t.get i ≠ .error (.outOfRange i)
  visited : ∀ (k : Nat) (e : Int × TypeRecord), t.listing.1[k]? = some e →
    e.1 = (first + k : Nat) ∧ t.get ((first + k : Nat) : Int) = .ok e.2
  whole : t.listing.2 = none → t.listing.1.length = fs.length
  fault : ∀ e, t.listing.2 = some e → t.listing.1.length < fs.length ∧
    t.get ((first + t.listing.1.length : Nat) : Int) = .error e

theorem decodeRecord_ne_outOfRange {leaf : Nat} {payload : Bytes} {i : Int} :
    decodeRecord leaf payload ≠ .error (.outOfRange i) := by
  unfold decodeRecord
  split <;> simp

namespace RecordTable

variable {t : RecordTable} {i : Int}

theorem get_of_le (h : firstRecordIndex ≤ i) :
    t.get i = (t.rows.lookup i).getD (.error (.outOfRange i)) := by
  rw [get, if_neg (Int.not_lt.mpr h)]
  cases t.rows.lookup i <;> rfl

/-- A table has an index unless looking it up is out of range, if no row says so itself. -/
theorem contains_iff (hrow : ∀ record, t.rows.lookup i = some record →
    record ≠ .error (.outOfRange i)) : t.contains i = true ↔ t.get i ≠ .error (.outOfRange i) := by
  by_cases hi : i < firstRecordIndex
  · simp [contains, get, hi]
  · rw [get_of_le (Int.not_lt.mp hi), contains]
    cases hlookup : t.rows.lookup i with
    | none => simp [hi]
    | some record => simp [hrow record hlookup]

end RecordTable

namespace TypeStream

variable {bound offset first : Nat} {region data rest : Bytes} {fs : List Frame}

/-- A record as a stream keeps it: leaf and payload. -/
def ofFrame (f : Frame) : Nat × Bytes := (f.kind, f.payload)

/-! ## Cutting a region into records -/

theorem frames_of_short (h : region.length < 4) : frames bound offset region = .ok [] := by
  cases bound with
  | zero => rfl
  | succ bound => rw [frames, if_pos h]

/-- The step lemma: a record is cut off, and the next one is looked for behind it. -/
theorem frames_bytes (f : Frame) : frames (bound + 1) offset (f.bytes ++ rest) =
    (do return ofFrame f :: (← frames bound (offset + f.bytes.length) rest)) := by
  rw [frames, if_neg (f.not_short rest), f.split?_bytes]
  simp only [f.littleAt_header_length, f.littleAt_header_kind, Bool.or_eq_true, decide_eq_true_eq,
    f.not_overrun rest, if_false, f.next_offset, Nat.add_sub_cancel, List.take_left',
    List.drop_left', ofFrame]

theorem frames_of_ends (hends : Frame.Ends region) (hlong : 4 ≤ region.length) :
    frames (bound + 1) offset region = .error (.badLength (region.littleAt 0 2) offset) := by
  obtain ⟨hheader, hover⟩ := hends.overrun hlong
  rw [frames, if_neg (Nat.not_lt.mpr hlong), Bytes.split?_of_le hlong]
  simp only [hheader, Bool.or_eq_true, decide_eq_true_eq, hover, if_true]

/-- The run lemma: records are cut off one after the other, and what is behind them is left over
or refused. -/
theorem frames_concat (hends : Frame.Ends rest)
    (hbound : (Frame.concat fs ++ rest).length ≤ bound) :
    frames bound offset (Frame.concat fs ++ rest) =
      if rest.length < 4 then .ok (fs.map ofFrame)
      else .error (.badLength (rest.littleAt 0 2) (offset + (Frame.concat fs).length)) := by
  induction fs generalizing bound offset with
  | nil =>
    rw [Frame.concat_nil, List.nil_append] at hbound ⊢
    by_cases hshort : rest.length < 4
    · rw [if_pos hshort, frames_of_short hshort]
      rfl
    · obtain ⟨bound, rfl⟩ : ∃ b, bound = b + 1 := ⟨bound - 1, by omega⟩
      rw [if_neg hshort, frames_of_ends hends (Nat.not_lt.mp hshort)]
      rfl
  | cons f fs ih =>
    rw [Frame.concat_cons, List.append_assoc, List.length_append, f.length_bytes] at hbound
    obtain ⟨bound, rfl⟩ : ∃ b, bound = b + 1 := ⟨bound - 1, by omega⟩
    rw [Frame.concat_cons, List.append_assoc, frames_bytes, ih (by omega)]
    split
    · rfl
    · rw [List.length_append, Nat.add_assoc]
      rfl

/-- A larger bound changes nothing: cutting ends by itself. -/
theorem frames_eq (hbound : region.length ≤ bound) :
    frames bound offset region = frames region.length offset region := by
  obtain ⟨fs, rest, rfl, hends⟩ := Frame.exists_concat region
  rw [frames_concat hends hbound, frames_concat hends (Nat.le_refl _)]

/-! ## Indices -/

/-- The rows of records whose first index is given. -/
def rowsFrom (first : Nat) (framed : List (Nat × Bytes)) :
    List (Int × Except RecordError TypeRecord) :=
  framed.mapIdx fun i e => ((first + i : Nat), decodeRecord e.1 e.2)

theorem rowsFrom_cons (e : Nat × Bytes) (framed : List (Nat × Bytes)) :
    rowsFrom first (e :: framed) =
      ((first : Int), decodeRecord e.1 e.2) :: rowsFrom (first + 1) framed := by
  have hnext : (fun i (e : Nat × Bytes) =>
      (((first + (i + 1) : Nat) : Int), decodeRecord e.1 e.2)) =
      fun i e => (((first + 1 + i : Nat) : Int), decodeRecord e.1 e.2) := by
    funext i e
    rw [Nat.add_right_comm, Nat.add_assoc]
  rw [rowsFrom, List.mapIdx_cons, hnext]
  rfl

theorem lookup_rowsFrom (framed : List (Nat × Bytes)) (k : Nat) :
    (rowsFrom first framed).lookup ((first + k : Nat) : Int) =
      framed[k]?.map fun e => decodeRecord e.1 e.2 := by
  induction framed generalizing first k with
  | nil => rfl
  | cons e framed ih =>
    rw [rowsFrom_cons, lookup_cons_ite]
    cases k with
    | zero => rw [Nat.add_zero, if_pos rfl, List.getElem?_cons_zero, Option.map_some]
    | succ k =>
      have hindex : first + (k + 1) = first + 1 + k := by omega
      have hlater : ((first + 1 + k : Nat) : Int) ≠ first := by omega
      rw [hindex, if_neg hlater, ih, List.getElem?_cons_succ]

theorem lookup_rowsFrom_of_lt {i : Int} (h : i < first) (framed : List (Nat × Bytes)) :
    (rowsFrom first framed).lookup i = none := by
  induction framed generalizing first with
  | nil => rfl
  | cons e framed ih =>
    rw [rowsFrom_cons, lookup_cons_ite, if_neg (by dsimp only; omega), ih (by omega)]

section

variable {s : TypeStream}

theorem lookup_table (hframed : s.framed = fs.map ofFrame) (i : Int) : s.table.rows.lookup i =
    if i < s.firstIndex then none
    else fs[(i - s.firstIndex).toNat]?.map fun f => decodeRecord f.kind f.payload := by
  change (rowsFrom s.firstIndex s.framed).lookup i = _
  by_cases hlow : i < s.firstIndex
  · rw [if_pos hlow, lookup_rowsFrom_of_lt hlow]
  · have hindex : i = ((s.firstIndex + (i - s.firstIndex).toNat : Nat) : Int) := by omega
    have hlookup := @lookup_rowsFrom s.firstIndex s.framed (i - s.firstIndex).toNat
    rw [← hindex, hframed, List.getElem?_map, Option.map_map] at hlookup
    rw [if_neg hlow, hframed]
    exact hlookup

theorem index_of_row {k : Nat} {index : Int}
    (h : (s.table.rows.map Prod.fst)[k]? = some index) :
    index = ((s.firstIndex + k : Nat) : Int) := by
  simp only [TypeStream.table, List.getElem?_map, List.getElem?_mapIdx, Option.map_map,
    Option.map_eq_some_iff, Function.comp] at h
  obtain ⟨e, -, rfl⟩ := h
  rfl

/-- A record that has a fault is not out of range. -/
theorem row_ne_outOfRange (hframed : s.framed = fs.map ofFrame) {i : Int}
    {record : Except RecordError TypeRecord} (h : s.table.rows.lookup i = some record) :
    record ≠ .error (.outOfRange i) := by
  rw [lookup_table hframed] at h
  split at h
  · cases h
  · obtain ⟨f, -, rfl⟩ := Option.map_eq_some_iff.mp h
    exact decodeRecord_ne_outOfRange

/-- The table of a stream exposes its records, if none has the index of a built-in type. -/
theorem table_exposes (hfirst : 0x1000 ≤ s.firstIndex) (hframed : s.framed = fs.map ofFrame) :
    s.table.Exposes s.firstIndex fs := by
  have hrows : s.table.rows.length = fs.length := by
    rw [TypeStream.table, List.length_mapIdx, hframed, List.length_map]
  obtain ⟨hvisited, hwhole, hfault⟩ := RecordTable.listing_go (t := s.table) s.table.rows
  refine ⟨hrows, ?record, fun i hi => if_pos hi, ?outside,
    fun i => RecordTable.contains_iff fun _ => row_ne_outOfRange hframed, ?visited,
    fun hnone => (hwhole hnone).trans hrows, ?fault⟩
  case record =>
    intro k f hf
    have hrecord : firstRecordIndex ≤ ((s.firstIndex + k : Nat) : Int) := by
      rw [firstRecordIndex]
      omega
    have hat : ¬ ((s.firstIndex + k : Nat) : Int) < s.firstIndex := by omega
    have hk : (((s.firstIndex + k : Nat) : Int) - s.firstIndex).toNat = k := by omega
    rw [RecordTable.get_of_le hrecord, lookup_table hframed, if_neg hat, hk, hf]
    rfl
  case outside =>
    intro i hi hout
    have hnone : s.table.rows.lookup i = none := by
      rw [lookup_table hframed]
      split
      · rfl
      · rw [List.getElem?_eq_none (by omega)]
        rfl
    rw [RecordTable.get_of_le hi, hnone, Option.getD_none]
  case visited =>
    intro k e he
    obtain ⟨hindex, hrecord⟩ := hvisited k e he
    have hat := index_of_row hindex
    exact ⟨hat, hat ▸ hrecord⟩
  case fault =>
    intro e he
    obtain ⟨index, hindex, hfails⟩ := hfault e he
    have hlt : s.table.listing.1.length < (s.table.rows.map Prod.fst).length :=
      (List.getElem?_eq_some_iff.mp hindex).1
    rw [List.length_map, hrows] at hlt
    exact ⟨hlt, index_of_row hindex ▸ hfails⟩

end

/-! ## The header -/

/-- The parts of a stream: the numbers of its header and what fills it up, the records, and what
stands behind them. -/
structure Parts where
  version : Nat
  firstIndex : Nat
  endIndex : Nat
  fill : Bytes
  records : List Frame
  left : Bytes
  behind : Bytes
  version_lt : version < 256 ^ 4
  firstIndex_ge : 0x1000 ≤ firstIndex
  firstIndex_lt : firstIndex < 256 ^ 4
  endIndex_lt : endIndex < 256 ^ 4
  fill_ge : headerSize ≤ 20 + fill.length
  fill_lt : 20 + fill.length < 256 ^ 4
  left_le : left.length ≤ 3
  region_lt : (Frame.concat records ++ left).length < 256 ^ 4

namespace Parts

variable (p : Parts)

/-- The region that the header announces. -/
def announced : Bytes := Frame.concat p.records ++ p.left

/-- The bytes of a stream: five words, the rest of the header, its region and what is behind. -/
def bytes : Bytes :=
  Bytes.ofNatLittle 4 p.version ++ (Bytes.ofNatLittle 4 (20 + p.fill.length) ++
    (Bytes.ofNatLittle 4 p.firstIndex ++ (Bytes.ofNatLittle 4 p.endIndex ++
      (Bytes.ofNatLittle 4 p.announced.length ++ (p.fill ++ (p.announced ++ p.behind))))))

theorem length_bytes :
    p.bytes.length = 20 + p.fill.length + p.announced.length + p.behind.length := by
  simp only [bytes, List.length_append, Bytes.length_ofNatLittle]
  omega

/-- A word of the header is passed over. -/
theorem littleAt_word (n : Nat) (rest : Bytes) (offset : Nat) :
    (Bytes.ofNatLittle 4 n ++ rest).littleAt (4 + offset) 4 = rest.littleAt offset 4 :=
  Bytes.littleAt_append_right (Bytes.length_ofNatLittle 4 n) rest offset 4

theorem littleAt_headerSize : p.bytes.littleAt 4 4 = 20 + p.fill.length :=
  (littleAt_word _ _ 0).trans (Bytes.littleAt_ofNatLittle p.fill_lt _)

theorem littleAt_firstIndex : p.bytes.littleAt 8 4 = p.firstIndex :=
  (littleAt_word _ _ 4).trans
    ((littleAt_word _ _ 0).trans (Bytes.littleAt_ofNatLittle p.firstIndex_lt _))

theorem littleAt_endIndex : p.bytes.littleAt 12 4 = p.endIndex :=
  (littleAt_word _ _ 8).trans ((littleAt_word _ _ 4).trans
    ((littleAt_word _ _ 0).trans (Bytes.littleAt_ofNatLittle p.endIndex_lt _)))

theorem littleAt_regionSize : p.bytes.littleAt 16 4 = p.announced.length :=
  (littleAt_word _ _ 12).trans ((littleAt_word _ _ 8).trans ((littleAt_word _ _ 4).trans
    ((littleAt_word _ _ 0).trans (Bytes.littleAt_ofNatLittle p.region_lt _))))

theorem slice_announced : p.bytes.slice (20 + p.fill.length) p.announced.length = p.announced := by
  have hfront : p.bytes = (Bytes.ofNatLittle 4 p.version ++
      (Bytes.ofNatLittle 4 (20 + p.fill.length) ++ (Bytes.ofNatLittle 4 p.firstIndex ++
        (Bytes.ofNatLittle 4 p.endIndex ++ (Bytes.ofNatLittle 4 p.announced.length ++ p.fill))))) ++
      (p.announced ++ p.behind) := by
    simp only [bytes, List.append_assoc]
  rw [hfront, Bytes.slice, List.drop_left', List.take_left]
  simp only [List.length_append, Bytes.length_ofNatLittle]
  omega

end Parts

/-- Where a stream is long enough for its header and for the region that this announces, the region
is cut into records. -/
theorem ofBytes_eq (data : Bytes) : ofBytes data =
    if data.length < headerSize then .error .shortHeader
    else if data.length < data.littleAt 4 4 + data.littleAt 16 4 then
      .error (.overrun (data.littleAt 4 4 + data.littleAt 16 4) data.length)
    else do
      return ⟨data.littleAt 8 4, data.littleAt 12 4, ← frames data.length (data.littleAt 4 4)
        (data.slice (data.littleAt 4 4) (data.littleAt 16 4))⟩ := by
  have hfield : ∀ offset ≤ 52,
      Bytes.littleAt (data.take headerSize) offset 4 = data.littleAt offset 4 :=
    fun offset h => Bytes.littleAt_take (Nat.add_le_add_right h 4)
  rw [ofBytes]
  by_cases hshort : data.length < headerSize
  · rw [if_pos hshort, Bytes.split?, if_neg (Nat.not_le.mpr hshort)]
  · rw [if_neg hshort, Bytes.split?_of_le (Nat.not_lt.mp hshort)]
    simp only [hfield 4 (by decide), hfield 8 (by decide), hfield 12 (by decide),
      hfield 16 (by decide), Nat.add_sub_cancel_left]

/-- Its records are kept, unless what is behind them is long enough for the header of one. -/
theorem ofBytes_of_concat (hheader : headerSize ≤ data.length)
    (hregion : data.littleAt 4 4 + data.littleAt 16 4 ≤ data.length)
    (heq : data.slice (data.littleAt 4 4) (data.littleAt 16 4) = Frame.concat fs ++ rest)
    (hends : Frame.Ends rest) : ofBytes data =
      if rest.length < 4 then .ok ⟨data.littleAt 8 4, data.littleAt 12 4, fs.map ofFrame⟩
      else .error (.badLength (rest.littleAt 0 2)
        (data.littleAt 4 4 + (Frame.concat fs).length)) := by
  have hbound := Bytes.length_slice_le data (data.littleAt 4 4) (data.littleAt 16 4)
  rw [heq] at hbound
  rw [ofBytes_eq, if_neg (Nat.not_lt.mpr hheader), if_neg (Nat.not_lt.mpr hregion), heq,
    frames_concat hends hbound]
  split <;> rfl

/-- A stream is accepted exactly if its region is a run of records with at most three bytes behind
it, and these are the records that it keeps. -/
theorem ofBytes_eq_ok {s : TypeStream} : ofBytes data = .ok s ↔
    headerSize ≤ data.length ∧ data.littleAt 4 4 + data.littleAt 16 4 ≤ data.length ∧
      ∃ fs rest, data.slice (data.littleAt 4 4) (data.littleAt 16 4) = Frame.concat fs ++ rest ∧
        rest.length ≤ 3 ∧ s = ⟨data.littleAt 8 4, data.littleAt 12 4, fs.map ofFrame⟩ := by
  constructor
  · intro h
    have hheader : headerSize ≤ data.length := by
      refine Nat.not_lt.mp fun hshort => ?_
      rw [ofBytes_eq, if_pos hshort] at h
      cases h
    have hregion : data.littleAt 4 4 + data.littleAt 16 4 ≤ data.length := by
      refine Nat.not_lt.mp fun hover => ?_
      rw [ofBytes_eq, if_neg (Nat.not_lt.mpr hheader), if_pos hover] at h
      cases h
    obtain ⟨fs, rest, heq, hends⟩ :=
      Frame.exists_concat (data.slice (data.littleAt 4 4) (data.littleAt 16 4))
    rw [ofBytes_of_concat hheader hregion heq hends] at h
    split at h
    · rename_i hshort
      cases h
      exact ⟨hheader, hregion, fs, rest, heq, Nat.le_of_lt_succ hshort, rfl⟩
    · cases h
  · rintro ⟨hheader, hregion, fs, rest, heq, hrest, rfl⟩
    have hshort : rest.length < 4 := Nat.lt_succ_of_le hrest
    rw [ofBytes_of_concat hheader hregion heq (.inl hshort), if_pos hshort]

/-- Every other stream is refused for its header, its region or the length of a record. -/
theorem ofBytes_ne_endOfData : ofBytes data ≠ .error .endOfData := by
  intro h
  by_cases hheader : headerSize ≤ data.length
  · by_cases hregion : data.littleAt 4 4 + data.littleAt 16 4 ≤ data.length
    · obtain ⟨fs, rest, heq, hends⟩ :=
        Frame.exists_concat (data.slice (data.littleAt 4 4) (data.littleAt 16 4))
      rw [ofBytes_of_concat hheader hregion heq hends] at h
      split at h <;> cases h
    · rw [ofBytes_eq, if_neg (Nat.not_lt.mpr hheader), if_pos (Nat.not_le.mp hregion)] at h
      cases h
  · rw [ofBytes_eq, if_pos (Nat.not_le.mp hheader)] at h
    cases h

/-- The stream that is read back from its parts. -/
def Parts.stream (p : Parts) : TypeStream := ⟨p.firstIndex, p.endIndex, p.records.map ofFrame⟩

theorem ofBytes_parts (p : Parts) : ofBytes p.bytes = .ok p.stream := by
  have hlength := p.length_bytes
  have hfill := p.fill_ge
  refine ofBytes_eq_ok.mpr ⟨by omega, ?_, p.records, p.left, ?_, p.left_le, ?_⟩
  · rw [p.littleAt_headerSize, p.littleAt_regionSize]
    omega
  · rw [p.littleAt_headerSize, p.littleAt_regionSize, p.slice_announced]
    rfl
  · rw [p.littleAt_firstIndex, p.littleAt_endIndex]
    rfl

/-- **The framing of type records is exact.** A stream that is put together of records is read back
as these, and its table exposes them: each under its index as it is decoded, the built-in types
below, nothing else, and all in order. The other way round, a stream is accepted exactly if it has
a header and a region, and the region is a run of the records that the stream keeps with at most
three bytes behind it; every other one is refused for what is wrong with it, and never by running
out of data. Cutting ends by itself: no bound that the region fits in changes anything. -/
theorem framing_exact :
    (∀ p : Parts, ofBytes p.bytes = .ok p.stream ∧
      p.stream.table.Exposes p.firstIndex p.records) ∧
    (∀ (data : Bytes) (s : TypeStream), ofBytes data = .ok s ↔
      headerSize ≤ data.length ∧ data.littleAt 4 4 + data.littleAt 16 4 ≤ data.length ∧
        ∃ fs rest, data.slice (data.littleAt 4 4) (data.littleAt 16 4) = Frame.concat fs ++ rest ∧
          rest.length ≤ 3 ∧ s = ⟨data.littleAt 8 4, data.littleAt 12 4, fs.map ofFrame⟩) ∧
    (∀ data : Bytes, ofBytes data ≠ .error .endOfData) ∧
    ∀ (bound offset : Nat) (region : Bytes), region.length ≤ bound →
      frames bound offset region = frames region.length offset region :=
  ⟨fun p => ⟨ofBytes_parts p, table_exposes p.firstIndex_ge rfl⟩, fun _ _ => ofBytes_eq_ok,
    fun _ => ofBytes_ne_endOfData, fun _ _ _ h => frames_eq h⟩

/-- A qualified type and a pointer that breaks off, with two bytes left over. -/
def qualifiedParts : Parts where
  version := 20040203
  firstIndex := 0x1000
  endIndex := 0x1003
  fill := List.replicate 36 0
  records := [⟨0x1001, [0x74, 0, 0, 0, 1, 0], by decide, by decide⟩,
    ⟨0x1002, [0x75], by decide, by decide⟩]
  left := [0xF2, 0xF1]
  behind := [0]
  version_lt := by decide
  firstIndex_ge := by decide
  firstIndex_lt := by decide
  endIndex_lt := by decide
  fill_ge := by decide
  fill_lt := by decide
  left_le := by decide
  region_lt := by decide

/-- The first record is read and visited, the second one has a fault and ends the visit. -/
theorem qualifiedParts_exposed :
    ofBytes qualifiedParts.bytes = .ok qualifiedParts.stream ∧
      qualifiedParts.stream.table.get 0x1000 = .ok (.modifier 0x74 1) ∧
      qualifiedParts.stream.table.get 0x1001 = .error (.truncated 0x1002) ∧
      qualifiedParts.stream.table.get 0x1002 = .error (.outOfRange 0x1002) ∧
      frames 100 56 qualifiedParts.announced =
        frames qualifiedParts.announced.length 56 qualifiedParts.announced := by
  obtain ⟨hparts, -, -, hbound⟩ := framing_exact
  obtain ⟨hread, hexposes⟩ := hparts qualifiedParts
  exact ⟨hread, (hexposes.record 0 _ rfl).trans rfl, (hexposes.record 1 _ rfl).trans rfl,
    hexposes.outside 0x1002 (by decide) (.inr (by decide)), hbound 100 56 _ (by decide)⟩

end TypeStream
end KernelProfile.CodeView
