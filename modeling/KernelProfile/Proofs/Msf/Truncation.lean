import KernelProfile.Proofs.Msf.Layout

/-! Files that end too early. A container is read as soon as its directory is, and a stream of it is
then read without an error whether or not the file reaches as far as the stream's pages, unless a
page is so far away that one cannot go there. Its bytes are the stream's exactly if the file does;
otherwise those that are missing are left out, and the bytes of later pages move up. -/
namespace KernelProfile.Msf

variable {m : Msf} {s : PageStream}

/-- The bytes of a stream: as many as its size says, each from the page that is listed for it. -/
def IsContentOf (m : Msf) (s : PageStream) (data : Bytes) : Prop :=
  data.length = s.size ∧ ∀ k < s.size, ∃ page, s.pages[k / m.pageSize]? = some page ∧
    data[k]? = m.file[page * m.pageSize + k % m.pageSize]?

/-- Every page of a stream lies in the file, as far as the stream reaches into it. -/
def Complete (m : Msf) (s : PageStream) : Prop :=
  ∀ i page, s.pages[i]? = some page →
    page * m.pageSize + min m.pageSize (s.size - i * m.pageSize) ≤ m.file.length

theorem complete_iff (hp : 0 < m.pageSize) (hs : Paged m.pageSize s) :
    m.Complete s ↔ ∀ k < s.size, (byteAt m.file m.pageSize s.pages k).isSome := by
  constructor
  · intro h k hk
    obtain ⟨page, hpage⟩ := hs.exists_page hp hk
    have hreach := h _ _ hpage
    have hmod : k % m.pageSize < m.pageSize := Nat.mod_lt _ hp
    have hplace : k / m.pageSize * m.pageSize + k % m.pageSize = k := Nat.div_add_mod' _ _
    rw [byteAt, hpage, Option.bind_some, List.getElem?_eq_getElem (by omega)]
    rfl
  · intro h i page hpage
    have hstart : i * m.pageSize < s.size := hs.start_lt hp hpage
    -- the last byte that the stream has on the page
    generalize hlast : min m.pageSize (s.size - i * m.pageSize) - 1 = last
    have hlt : last < m.pageSize := by omega
    have hplace : last + m.pageSize * i = i * m.pageSize + last := by
      rw [Nat.mul_comm, Nat.add_comm]
    obtain ⟨hdiv, hmod⟩ := (Nat.div_mod_unique hp).mpr ⟨hplace, hlt⟩
    have hsome := h (i * m.pageSize + last) (by omega)
    rw [byteAt, hdiv, hmod, hpage, Option.bind_some, Option.isSome_iff_exists] at hsome
    obtain ⟨b, hb⟩ := hsome
    have hfile := (List.getElem?_eq_some_iff.mp hb).1
    omega

/-- Where reading a whole stream goes, it can go: to the start of each of its pages, and to the byte
behind its last whole window. -/
def InReach (m : Msf) (s : PageStream) : Prop :=
  ∀ k < s.size, (k % m.pageSize = 0 ∨ k = s.size / m.access.window * m.access.window) →
    ∀ page, s.pages[k / m.pageSize]? = some page →
      page * m.pageSize + k % m.pageSize ≤ m.access.limit m.file

/-- What reading a whole stream yields: of the whole windows what the file has of them, and of the
window behind them what it has there, up to as many bytes as are left of the size. -/
def remains (m : Msf) (s : PageStream) : Bytes :=
  let whole := s.size / m.access.window * m.access.window
  present m.file m.pageSize s.pages 0 whole ++
    (present m.file m.pageSize s.pages whole m.access.window).take (s.size - whole)

theorem cuts_zero (window n : Nat) : cuts window 0 n =
    [⟨0, window, 0, 0⟩, ⟨0, n / window * window, 0, n / window * window⟩,
      ⟨n / window * window, window, 0, n - n / window * window⟩] := by
  simp [cuts]

theorem flatMap_kept_whole : (cuts m.access.window 0 s.size).flatMap
    (Cut.kept m.file m.pageSize s.pages) = m.remains s := by
  rw [cuts_zero, remains]
  generalize s.size / m.access.window * m.access.window = whole
  have hall : (present m.file m.pageSize s.pages 0 whole).take whole =
      present m.file m.pageSize s.pages 0 whole :=
    List.take_of_length_le (length_present_le 0 whole)
  simp only [List.flatMap_cons, List.flatMap_nil, List.append_nil, Cut.kept, Bytes.slice,
    List.drop_zero, List.take_zero, List.nil_append, hall]

/-- Pages that are listed for a stream begin within it. -/
theorem reachable_whole_iff (hp : 0 < m.pageSize) (hs : Paged m.pageSize s) :
    (∀ c ∈ cuts m.access.window 0 s.size, c.Reachable m.access m.file m.pageSize s.pages) ↔
      m.InReach s := by
  have hle : s.size / m.access.window * m.access.window ≤ s.size := Nat.div_mul_le_self _ _
  have hwindow : s.size < s.size / m.access.window * m.access.window + m.access.window := by
    have hdiv := Nat.div_add_mod' s.size m.access.window
    have hmod := Nat.mod_lt s.size m.access.window_pos
    omega
  simp only [cuts_zero, List.forall_mem_cons, List.not_mem_nil, false_implies, implies_true,
    and_true, Cut.Reachable, InReach]
  generalize s.size / m.access.window * m.access.window = whole at hle hwindow ⊢
  constructor
  · rintro ⟨-, hmiddle, htail⟩ k hk hstart page hpage
    rcases Nat.lt_or_ge k whole with hlt | hge
    · refine hmiddle (by omega) k (Nat.zero_le k) (by omega) ?_ page hpage
      omega
    · refine htail (by omega) k hge (by omega) ?_ page hpage
      omega
  · intro h
    refine ⟨fun hne => absurd rfl hne, fun _ => ?_, fun _ => ?_⟩
    · intro k _ hlt hk page hpage
      have hzero : k % m.pageSize = 0 := by
        rcases hk with rfl | hk
        · exact Nat.zero_mod _
        · exact hk
      exact h k (by omega) (.inl hzero) page hpage
    · intro k hge _ hk page hpage
      rcases hk with rfl | hk
      · exact h k (by omega) (.inr rfl) page hpage
      · have hstart : k / m.pageSize * m.pageSize < s.size := hs.start_lt hp hpage
        have hplace := Nat.div_add_mod' k m.pageSize
        exact h k (by omega) (.inl hk) page hpage

/-- A stream that the file has all of is in reach. -/
theorem Complete.inReach (h : m.Complete s) (hp : 0 < m.pageSize) : m.InReach s := by
  intro k hk _ page hpage
  have hfile := h _ _ hpage
  have hmod : k % m.pageSize < m.pageSize := Nat.mod_lt _ hp
  have hplace : k / m.pageSize * m.pageSize + k % m.pageSize = k := Nat.div_add_mod' _ _
  have hlimit := m.access.length_le_limit m.file
  omega

/-- Every stream is in reach where offsets of 63 bits are. -/
theorem Sound.inReach (h : m.Sound) (hs : s ∈ m.streams) (hreach : 2 ^ 63 - 1 ≤ m.access.reach) :
    m.InReach s := by
  intro k _ _ page hpage
  have hmod : k % m.pageSize < m.pageSize := Nat.mod_lt _ h.pageSize_pos
  have hpage : page + 1 ≤ 2 ^ 32 := (h.paged s hs).page_lt page (List.mem_of_getElem? hpage)
  have hplace : (page + 1) * m.pageSize ≤ 2 ^ 32 * 2 ^ 31 := Nat.mul_le_mul hpage h.pageSize_le
  have hlimit : m.access.reach ≤ m.access.limit m.file := Nat.le_max_left _ _
  rw [Nat.succ_mul] at hplace
  omega

theorem length_remains_le (m : Msf) (s : PageStream) : (m.remains s).length ≤ s.size := by
  have hle : s.size / m.access.window * m.access.window ≤ s.size := Nat.div_mul_le_self _ _
  rw [remains]
  generalize s.size / m.access.window * m.access.window = whole at hle ⊢
  have hwhole : (present m.file m.pageSize s.pages 0 whole).length ≤ whole := length_present_le 0 _
  rw [List.length_append, List.length_take]
  omega

/-- What remains of a stream is its content exactly if nothing is missing. -/
theorem isContentOf_remains_iff (hp : 0 < m.pageSize) (hs : Paged m.pageSize s) :
    m.IsContentOf s (m.remains s) ↔ m.Complete s := by
  rw [complete_iff hp hs]
  constructor
  · rintro ⟨hlen, hbytes⟩ k hk
    obtain ⟨page, hpage, hbyte⟩ := hbytes k hk
    have hin : k < (m.remains s).length := by omega
    rw [byteAt, hpage, Option.bind_some, ← hbyte, List.getElem?_eq_getElem hin]
    rfl
  · intro h
    -- the content is what is at the places of the stream, all of which the file has
    generalize hcontent : (List.range s.size).map (fun k =>
      (byteAt m.file m.pageSize s.pages k).getD 0) = content
    have hlen : content.length = s.size := by rw [← hcontent]; simp
    have hbyte : ∀ k < s.size, byteAt m.file m.pageSize s.pages k = content[k]? := by
      intro k hk
      obtain ⟨b, hb⟩ := Option.isSome_iff_exists.mp (h k hk)
      rw [← hcontent]
      simp [hk, hb]
    have hholds : Holds m.file m.pageSize s.pages content := fun k hk => hbyte k (hlen ▸ hk)
    have hread : m.remains s = content := by
      rw [← flatMap_kept_whole, hholds.flatMap_kept m.access.window_pos (by omega), ← hlen]
      exact List.take_length
    rw [hread]
    refine ⟨hlen, fun k hk => ?_⟩
    obtain ⟨page, hpage⟩ := hs.exists_page hp hk
    refine ⟨page, hpage, ?_⟩
    rw [← hbyte k hk, byteAt, hpage, Option.bind_some]

/-- **A stream of a container that was read is given, unless a page of it is out of reach.** What is
given is the stream's content exactly if every page of the stream lies in the file as far as the
stream reaches into it. Otherwise it is what the file has, one after the other, so that every
missing byte moves the later ones up; nothing tells this from the content, and in its place may
stand what lies behind the stream's end on its last page. -/
theorem streamData_complete_iff {file : Bytes} {access : Access} {m : Msf}
    (h : ofBytes file access = .ok m) {i : Nat} {s : PageStream} (hs : m.streams[i]? = some s) :
    (∀ data, m.streamData i = .ok data ↔ m.InReach s ∧ data = m.remains s) ∧
    (∀ e, m.streamData i = .error e →
      ∃ offset, e = .outOfReach offset ∧ access.limit file < offset) ∧
    (2 ^ 63 - 1 ≤ access.reach → m.InReach s) ∧ (m.remains s).length ≤ s.size ∧
    (m.IsContentOf s (m.remains s) ↔ m.Complete s) ∧ (m.Complete s → m.InReach s) := by
  obtain ⟨rfl, rfl, -, hsound⟩ := ofBytes_sound h
  have hmem := List.mem_of_getElem? hs
  have hpaged := hsound.paged s hmem
  have hp := hsound.pageSize_pos
  have hread : m.streamData i = readFrom m.access m.file m.pageSize s 0 s.size := by
    have hstream : m.stream i = .ok s := by rw [stream, hs]
    rw [streamData, read, hstream]
    rfl
  refine ⟨fun data => ?_, fun e he => ?_, hsound.inReach hmem, length_remains_le m s,
    isContentOf_remains_iff hp hpaged, fun hcomplete => hcomplete.inReach hp⟩
  · rw [hread, readFrom_eq_ok hp, Nat.sub_zero, Nat.min_self, reachable_whole_iff hp hpaged,
      flatMap_kept_whole]
  · rw [hread] at he
    obtain ⟨place, rfl, hfar, -⟩ := readFrom_failsOnly s 0 s.size e he
    exact ⟨place, rfl, hfar⟩

/-- The image of three streams, cut off in the middle of the first page of the first one. -/
def truncated : Bytes := scattered.image.take 136

def truncatedContainer : Msf := ⟨.memory, truncated, 16, [⟨24, [8, 7]⟩, ⟨0, []⟩, ⟨0, []⟩]⟩

set_option maxRecDepth 20000 in
theorem ofBytes_truncated : ofBytes truncated = .ok truncatedContainer := by
  with_unfolding_all rfl

/-- The first stream of the file that was cut off is given without the missing bytes, and the nil
stream as it is. -/
theorem truncated_not_complete :
    ofBytes truncated = .ok truncatedContainer ∧
      truncatedContainer.streams[0]? = some ⟨24, [8, 7]⟩ ∧
      truncatedContainer.streamData 0 = .ok (truncatedContainer.remains ⟨24, [8, 7]⟩) ∧
      ¬ truncatedContainer.IsContentOf ⟨24, [8, 7]⟩ (truncatedContainer.remains ⟨24, [8, 7]⟩) ∧
      truncatedContainer.IsContentOf ⟨0, []⟩ (truncatedContainer.remains ⟨0, []⟩) := by
  have hfirst : truncatedContainer.streams[0]? = some ⟨24, [8, 7]⟩ := rfl
  have hnil : truncatedContainer.streams[1]? = some ⟨0, []⟩ := rfl
  have hcut : ¬ truncatedContainer.Complete ⟨24, [8, 7]⟩ := by
    intro h
    have hreach := h 0 8 rfl
    have hlen : truncatedContainer.file.length = 136 := by decide +kernel
    rw [hlen] at hreach
    exact absurd hreach (by decide)
  have hempty : truncatedContainer.Complete ⟨0, []⟩ := by
    intro i page hpage
    simp at hpage
  obtain ⟨hread, -, hreach, -, hcontent, -⟩ := streamData_complete_iff ofBytes_truncated hfirst
  obtain ⟨-, -, -, -, hnone, -⟩ := streamData_complete_iff ofBytes_truncated hnil
  exact ⟨ofBytes_truncated, hfirst, (hread _).mpr ⟨hreach (Nat.le_refl _), rfl⟩,
    fun h => hcut (hcontent.mp h), hnone.mpr hempty⟩

/-- The first eight bytes of the first stream, the last eight, and eight that are not its own. -/
def shifted : Bytes :=
  [0x41, 0x42, 0x43, 0x44, 0x45, 0x46, 0x47, 0x48] ++
    [0x51, 0x52, 0x53, 0x54, 0x55, 0x56, 0x57, 0x58] ++ List.replicate 8 0xEE

set_option maxRecDepth 20000 in
/-- What is given for the first stream has as many bytes as its size says. The eight bytes that are
missing are made up for at the end with what lies behind the stream on its other page. -/
theorem truncated_stream_shifted :
    ∃ m, ofBytes truncated = .ok m ∧ m.streams[0]? = some ⟨24, [8, 7]⟩ ∧
      m.streamData 0 = .ok shifted ∧ shifted.length = 24 ∧
      ¬ ((∃ e, m.streamData 0 = .error e) ∨
        ∃ data, m.streamData 0 = .ok data ∧ m.IsContentOf ⟨24, [8, 7]⟩ data) := by
  have hread : truncatedContainer.streamData 0 = .ok shifted := by with_unfolding_all rfl
  refine ⟨truncatedContainer, ofBytes_truncated, rfl, hread, rfl, ?_⟩
  rintro (⟨e, he⟩ | ⟨data, hdata, -, hbytes⟩)
  · rw [hread] at he
    cases he
  · rw [hread] at hdata
    cases hdata
    obtain ⟨page, hpage, hbyte⟩ := hbytes 8 (by decide)
    cases hpage
    -- byte 8 would have to be the one at 136, where the file ends
    have hend : truncatedContainer.file[8 * 16 + 8]? = none := by decide +kernel
    exact absurd (hbyte.trans hend) (by decide)

end KernelProfile.Msf
