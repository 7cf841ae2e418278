import KernelProfile.Pdb.File
import KernelProfile.Proofs.CodeView.Collect
import KernelProfile.Proofs.Msf.Directory
import KernelProfile.Proofs.Pdb.AddressMap

/-! Program databases fail in the ways that are announced, but for one. Whatever the bytes are, what
comes of them is a profile, an error of the file's form, or an architecture that is not known: every
read, look-up and value on the way is checked before, or its failure is turned into such an error.
Only going to a place in the file is not: page numbers of 32 bits and a large page size lead further
than the system may let one go. -/
namespace KernelProfile.Pdb

open CodeView (Reader TypeStream Context EnumRecord)

/-- An error of the file's form, or an architecture that is not known. -/
def Error.Announced (e : Error) : Prop := e.isFormat = true ∨ ∃ a, e = .architecture a

/-- An announced error, or a place out of reach that a page number of the file leads to. -/
def Error.Possible (access : Access) (bytes : Bytes) (e : Error) : Prop :=
  e.Announced ∨ ∃ offset, e = .container (.outOfReach offset) ∧
    Msf.WithinPages access bytes (bytes.littleAt 32 4) (.outOfReach offset)

namespace Error

variable {access : Access} {bytes : Bytes}

theorem possible_ofMsf {e : MsfError} (h : Msf.WithinPages access bytes (bytes.littleAt 32 4) e) :
    (ofMsf e).Possible access bytes := by
  cases e with
  | outOfReach offset => exact .inr ⟨offset, rfl, h⟩
  | _ => exact .inl (.inl rfl)

theorem announced_ofHeader (e : HeaderError) : (ofHeader e).Announced := by
  cases e <;> exact .inl rfl

theorem announced_ofTypeStream (e : CodeView.StreamError) : (ofTypeStream e).Announced := by
  cases e <;> exact .inl rfl

end Error

namespace File

open Error (Possible)

variable {access : Access} {bytes : Bytes}

theorem stream_fails {container : Msf} (h : Msf.ofBytes bytes access = .ok container)
    (index : Nat) : FailsOnly (Possible access bytes) (stream container index) :=
  .mapError fun e he => Error.possible_ofMsf (Msf.read_failsOnly h index 0 none e he)

theorem ofBytes_fails (bytes : Bytes) (access : Access) :
    FailsOnly (Possible access bytes) (ofBytes bytes access) := by
  have hcontainers := Msf.ofBytes_failsOnly bytes access
  refine .bind (.mapError fun e he => Error.possible_ofMsf (hcontainers e he)) ?_
  intro container hcontainer
  have hcontainer := mapError_eq_ok.mp hcontainer
  refine (stream_fails hcontainer debugStreamIndex).bind ?_
  intro debugData _
  refine .bind (.mapError fun e _ => .inl (Error.announced_ofHeader e)) ?_
  intro debug _
  refine (stream_fails hcontainer typeStreamIndex).bind ?_
  intro typeData _
  refine .bind (.mapError fun e _ => .inl (Error.announced_ofTypeStream e)) ?_
  intro types _
  exact .ok _

theorem container_of_ofBytes {f : File} (h : ofBytes bytes access = .ok f) :
    Msf.ofBytes bytes access = .ok f.container := by
  obtain ⟨container, hcontainer, h⟩ := bind_eq_ok.mp h
  obtain ⟨_, -, h⟩ := bind_eq_ok.mp h
  obtain ⟨_, -, h⟩ := bind_eq_ok.mp h
  obtain ⟨_, -, h⟩ := bind_eq_ok.mp h
  obtain ⟨_, -, h⟩ := bind_eq_ok.mp h
  cases h
  exact mapError_eq_ok.mp hcontainer

variable {f : File}

theorem addressMap_fails (h : Msf.ofBytes bytes access = .ok f.container) :
    FailsOnly (Possible access bytes) f.addressMap := by
  have haddresses : ∀ index, FailsOnly (Possible access bytes) (do
      return (SectionHeader.ofBytes (← stream f.container index)).map fun s =>
        (s.virtualAddress : Int)) := by
    intro index
    exact (stream_fails h index).bind fun _ _ => .ok _
  unfold addressMap
  simp only
  split
  · exact .error (.inl (.inl rfl))
  · split
    · refine (stream_fails h _).bind ?_
      intro omapData _
      exact (haddresses _).bind fun _ _ => .ok _
    · exact (haddresses _).bind fun _ _ => .ok _

/-- The symbols' errors are those of framing; the addresses have none. -/
theorem symbols_fails (h : Msf.ofBytes bytes access = .ok f.container) :
    FailsOnly (Possible access bytes) f.symbols := by
  refine (addressMap_fails h).bind ?_
  intro map _
  refine (stream_fails h f.debug.symbolRecords).bind ?_
  intro data _
  split
  · refine .mapError ?_
    intro e he
    obtain ⟨table, htable⟩ := map.exists_symbolTable ‹_›
    rw [htable] at he
    cases he
  · rename_i e hlist
    have hne := PublicSymbol.listFrom_ne_endOfData data.length 0 data
    have he : (PublicSymbol.listFrom data.length 0 data).2 = some e := congrArg Prod.snd hlist
    rw [he] at hne
    refine .error (.inl ?_)
    cases e with
    | endOfData => exact absurd rfl hne
    | badLength length offset => exact .inl rfl
    | truncated offset => exact .inl rfl

theorem profile_fails (h : Msf.ofBytes bytes access = .ok f.container) :
    FailsOnly (Possible access bytes) f.profile := by
  refine .bind (.mapError fun e _ => .inl (.inr ⟨e, rfl⟩)) ?_
  intro architecture _
  refine (symbols_fails h).bind ?_
  intro symbols _
  refine .bind (.mapError ?_) fun collected _ => .ok _
  intro e he
  obtain ⟨fault, rfl⟩ := f.types.table_sound.collect_fails architecture.pointerSize e he
  exact .inl (.inl rfl)

end File

theorem profileOf_fails (bytes : Bytes) (access : Access) :
    FailsOnly (Error.Possible access bytes) (profileOf bytes access) := by
  refine (File.ofBytes_fails bytes access).bind fun f hf => ?_
  exact File.profile_fails (File.container_of_ofBytes hf)

/-- **Every byte string gives a profile or an announced error, except where the file leads out of
reach.** An offset out of reach is one that a page with a number of 32 bits lies at; there is none
where offsets of 63 bits can be gone to, and a block map that lies out of reach is always met. Every
number of a record is a variant of the kind that its label names, so that every enumeration of every
stream of type records has its definition. -/
theorem profileOf_announced_or_outOfReach (bytes : Bytes) (access : Access) :
    ((∃ p, profileOf bytes access = .ok p) ∨
      (∃ e, profileOf bytes access = .error e ∧
        (e.isFormat = true ∨ ∃ a, e = .architecture a)) ∨
      ∃ offset, profileOf bytes access = .error (.container (.outOfReach offset)) ∧
        access.limit bytes < offset ∧ offset < 2 ^ 32 * bytes.littleAt 32 4) ∧
    (2 ^ 63 - 1 ≤ access.reach →
      ∀ offset, profileOf bytes access ≠ .error (.container (.outOfReach offset))) ∧
    (Msf.superblockSize ≤ bytes.length → bytes.take 32 = Msf.magic →
      Msf.isPowerOfTwo (bytes.littleAt 32 4) = true →
      access.limit bytes < bytes.littleAt 52 4 * bytes.littleAt 32 4 →
      profileOf bytes access =
        .error (.container (.outOfReach (bytes.littleAt 52 4 * bytes.littleAt 32 4)))) ∧
    Reader.Ensures Reader.numeric (fun n => ∃ v, Variant.ofLabel n.2 n.1 = .ok v) ∧
    ∀ (s : TypeStream) (pointerSize : Int) (sizes : Table Int) (r : EnumRecord),
      ∃ d, (⟨s.table, pointerSize, sizes⟩ : Context).enumDef r = .ok d := by
  have hfails := profileOf_fails bytes access
  refine ⟨?outcome, ?memory, ?map, Reader.numeric_fits, ?enumerations⟩
  case outcome =>
    cases hresult : profileOf bytes access with
    | ok p => exact .inl ⟨p, rfl⟩
    | error e =>
      obtain hannounced | ⟨offset, rfl, hwithin⟩ := hfails e hresult
      · exact .inr (.inl ⟨e, rfl, hannounced⟩)
      · obtain ⟨hfar, hlt, -⟩ := hwithin offset rfl
        exact .inr (.inr ⟨offset, rfl, hfar, hlt⟩)
  case memory =>
    intro hreach offset hresult
    obtain (hformat | ⟨_, harch⟩) | ⟨_, -, hwithin⟩ := hfails _ hresult
    · cases hformat
    · cases harch
    · exact hwithin.ne_outOfReach hreach _ rfl
  case map =>
    intro hlong hmagic hpower hfar
    have hcontainer := Msf.ofBytes_eq_outOfReach hlong hmagic hpower hfar
    have hfile : File.ofBytes bytes access =
        .error (.container (.outOfReach (bytes.littleAt 52 4 * bytes.littleAt 32 4))) := by
      refine bind_eq_error.mpr (.inl ?_)
      rw [hcontainer]
      rfl
    exact bind_eq_error.mpr (.inl hfile)
  case enumerations =>
    intro s pointerSize sizes r
    exact Context.exists_enumDef s.table_sound r

/-- A superblock alone, whose block map would lie on the last page that has a number. -/
def distant : Bytes := Msf.magic ++ Msf.wordBytes [65536, 1, 1, 4, 0, 0xFFFFFFFF]

theorem distant_outOfReach :
    Msf.superblockSize ≤ distant.length ∧ distant.take 32 = Msf.magic ∧
      Msf.isPowerOfTwo (distant.littleAt 32 4) = true ∧
      Access.disk.limit distant < distant.littleAt 52 4 * distant.littleAt 32 4 ∧
      profileOf distant = .error (.container (.outOfReach 0xFFFFFFFF0000)) ∧
      2 ^ 63 - 1 ≤ Access.memory.reach ∧
      ∀ offset, profileOf distant .memory ≠ .error (.container (.outOfReach offset)) := by
  have hlong : Msf.superblockSize ≤ distant.length := by decide
  have hmagic : distant.take 32 = Msf.magic := by decide
  have hpower : Msf.isPowerOfTwo (distant.littleAt 32 4) = true := by decide
  have hfar : Access.disk.limit distant < distant.littleAt 52 4 * distant.littleAt 32 4 := by decide
  obtain ⟨-, -, hmap, -⟩ := profileOf_announced_or_outOfReach distant .disk
  obtain ⟨-, hmemory, -⟩ := profileOf_announced_or_outOfReach distant .memory
  exact ⟨hlong, hmagic, hpower, hfar, hmap hlong hmagic hpower hfar, Nat.le_refl _,
    hmemory (Nat.le_refl _)⟩

/-- On a disk the file ends in an error that is not announced. Held in memory it is truncated. -/
theorem distant_unannounced :
    profileOf distant .disk = .error (.container (.outOfReach 0xFFFFFFFF0000)) ∧
      ¬ ((∃ p, profileOf distant .disk = .ok p) ∨
        ∃ e, profileOf distant .disk = .error e ∧
          (e.isFormat = true ∨ ∃ a, e = .architecture a)) ∧
      profileOf distant .memory = .error .truncated := by
  have hdisk : profileOf distant .disk = .error (.container (.outOfReach 0xFFFFFFFF0000)) := rfl
  refine ⟨hdisk, ?_, rfl⟩
  rw [hdisk]
  rintro (⟨p, hp⟩ | ⟨e, he, hformat | ⟨a, rfl⟩⟩)
  · cases hp
  · cases he
    cases hformat
  · cases he

end KernelProfile.Pdb
