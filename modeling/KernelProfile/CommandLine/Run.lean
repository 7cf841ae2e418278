import KernelProfile.CommandLine.Failure
import KernelProfile.CommandLine.Invocation
import KernelProfile.Log.Basic

/-! A run of the program over files held in memory: the settings, the result of the command, what
the log tells, and the files that are written. -/
namespace KernelProfile.CommandLine

/-- Files by the text of their paths. -/
abbrev Files := Table Bytes

/-- What a command results in: a line to show, or a profile to save. -/
inductive Reply where
  | line (s : String)
  | profile (p : Profile)

/-- A file's bytes. -/
def Files.bytes (files : Files) (file : Path) : Except Failure Bytes :=
  match files.get? file.text with
  | some bytes => .ok bytes
  | none => .error (.missing file)

/-- The text of a file's bytes. -/
def textOf (bytes : Bytes) : Except Text.Utf8.Fault String :=
  match Text.Utf8.fault? bytes with
  | some f => .error f
  | none => .ok (Text.Utf8.decodeLossy bytes)

/-- The place of a field as a line shows it. -/
def describePlace : Descriptor → String
  | .plain s => "offset=0x" ++ Text.hex s.offset ++ " size=" ++ Text.decimal s.size
  | .bits s =>
    "offset=0x" ++ Text.hex s.offset ++ " size=" ++ Text.decimal s.size ++ " bit_position=" ++
      Text.decimal s.position ++ " bit_length=" ++ Text.decimal s.length

/-- The name before the first full stop of a path, and the name behind it. -/
def splitField (path : String) : String × String :=
  let owner := path.toList.takeWhile (· != '.')
  (String.ofList owner, String.ofList (path.toList.drop (owner.length + 1)))

/-- The answer to a question, as a line. An empty name of a symbol or field asks for nothing. -/
def answer (p : Profile) : Question → Except Failure String
  | .symbol "" => .error .nothingAsked
  | .field "" => .error .nothingAsked
  | .symbol name => do
    let (name, address) ← (p.symbolAddress name []).mapError .lookup
    return name ++ " = 0x" ++ Text.hex address
  | .field path => do
    let (owner, field) := splitField path
    if field.isEmpty then throw (.noFieldName path)
    let d ← (p.fieldDescriptor owner field).mapError .lookup
    return path ++ ": " ++ describePlace d
  | .size name =>
    match p.findStruct? name with
    | some s => .ok (name ++ ": " ++ Text.decimal s.size ++ " bytes")
    | none => .error (.lookup (.type name))

/-- Carry out a command. The symbol map is asked for only after the image was opened. -/
def Command.carryOut (files : Files) (architecture : Option String) : Command → Except Failure Reply
  | .query file question => do
    let text ← (textOf (← files.bytes file)).mapError .undecodable
    let profile ← (Profile.load text).mapError .document
    return .line (← answer profile question)
  | .pdb file => do
    return .profile (← (Pdb.profileOf (← files.bytes file)).mapError .pdb)
  | .dwarf image systemMap => do
    let given ← (Dwarf.givenArchitecture architecture).mapError .dwarf
    let opened ← (Dwarf.File.ofBytes image.text given (← files.bytes image)).mapError .dwarf
    return .profile (← (opened.profile (← files.bytes systemMap)).mapError .dwarf)

def Command.name : Command → String
  | .pdb _ => "pdb"
  | .dwarf .. => "dwarf"
  | .query .. => "query"

/-- The files that a command reads. -/
def Command.files : Command → List Path
  | .pdb file => [file]
  | .dwarf image systemMap => [image, systemMap]
  | .query profile _ => [profile]

/-- The settings of a run. -/
def settingsFor (files : Files) (environment : Table String) (given : Overrides) :
    Except SettingsError Settings := do
  let envText ← match files.get? Settings.envFile.text with
    | none => pure none
    | some bytes => some <$> (textOf bytes).mapError .undecodable
  let settings := (← (Settings.read environment envText).mapError .name).override given
  settings.check.mapError .architecture
  return settings

/-- A run whose settings were sound. -/
structure Session where
  settings : Settings
  result : Except Failure Reply
  log : Log.State

/-- How a run ends. -/
inductive Conclusion where
  | stopped (s : Stop)
  | misconfigured (e : SettingsError)
  | ran (s : Session)

/-- Who tells of a run. -/
def logSource : String := "isr.commandline"

/-- Carry out an invocation. The stamp names the log file. -/
def Invocation.run (files : Files) (environment : Table String) (stamp : String) (i : Invocation) :
    Conclusion :=
  match settingsFor files environment i.given with
  | .error e => .misconfigured e
  | .ok settings =>
    let result := i.command.carryOut files settings.architecture
    let closing : List Log.Record := match result with
      | .ok (.line _) => []
      | .ok (.profile _) => [⟨logSource, .info, "Profile written to " ++ settings.output.text⟩]
      | .error e => if e.isUnforeseen then [] else [⟨logSource, .error, e.message⟩]
    let log := (({} : Log.State).start ⟨settings.logDirectory, settings.verbose, stamp⟩).tell
      ⟨logSource, .debug, "Command: " ++ i.command.name⟩
    .ran ⟨settings, result, closing.foldl Log.State.tell log⟩

/-- The run that arguments ask for. -/
def run (files : Files) (environment : Table String) (stamp : String) (args : List String) :
    Conclusion :=
  match Invocation.ofArguments args with
  | .error stop => .stopped stop
  | .ok i => i.run files environment stamp

namespace Conclusion

def exitCode : Conclusion → Nat
  | stopped .help => 0
  | stopped .usage => 2
  | misconfigured _ => 1
  | ran s => if s.result.isOk then 0 else 1

/-- How the program is called. -/
def usageText : String :=
  "usage: isr pdb FILE [-o PATH]\n" ++
  "       isr dwarf IMAGE SYSTEM_MAP [-o PATH] [--architecture TAG]\n" ++
  "       isr query PROFILE (--symbol NAME | --field STRUCT.FIELD | --size STRUCT)\n" ++
  "every command takes [-v] [--log-dir PATH] [-h]\n"

/-- The standard output. -/
def output : Conclusion → String
  | stopped .help => usageText
  | ran ⟨_, .ok (.line s), _⟩ => s ++ "\n"
  | _ => ""

/-- What is told as an error, if anything is. -/
def error? : Conclusion → Option String
  | misconfigured e => some ("Configuration error: " ++ e.message)
  | ran ⟨_, .error e, _⟩ => some e.message
  | _ => none

/-- The profile to save, and where. -/
def saved? : Conclusion → Option (Path × String)
  | ran ⟨settings, .ok (.profile p), _⟩ => some (settings.output, p.dump none)
  | _ => none

/-- The log file that is started, if there is one. -/
def logFile? : Conclusion → Option Path
  | ran s => s.log.setup.bind Log.Setup.file?
  | _ => none

/-- The files that a run writes, with steps up carried out, in the order of listings; log files
have no fixed text. -/
def written (c : Conclusion) : List (Path × Option String) :=
  let log := c.logFile?.map fun f => (f.direct, none)
  let profile := c.saved?.map fun (f, text) => (f.direct, some text)
  (log.toList ++ profile.toList).mergeSort fun a b => a.1.before b.1

end Conclusion
end KernelProfile.CommandLine
