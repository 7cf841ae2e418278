import KernelProfile.CommandLine.Run
import KernelProfile.Log.Stamp

/-! The program: it reads the files and variables that its arguments ask for, has the run carried
out, and shows and writes what comes of it. -/
namespace KernelProfile.Program

/-- The bytes of a file, if it can be read. -/
def readFile? (file : Path) : IO (Option Bytes) := do
  try
    return some (← IO.FS.readBinFile file.text).toList
  catch _ => return none

/-- The files that are there. -/
def readFiles (paths : List Path) : IO CommandLine.Files := do
  let mut files : CommandLine.Files := .empty
  for p in paths do
    if let some bytes ← readFile? p then files := files.insert p.text bytes
  return files

/-- The variables of some names that are set. -/
def readVariables (names : List String) : IO (Table String) := do
  let mut found : Table String := .empty
  for name in names do
    if let some value ← IO.getEnv name then found := found.insert name value
  return found

/-- The time, read off a file that was just made. -/
def now : IO Log.Stamp := do
  let (_, file) ← IO.FS.createTempFile
  let seconds := (← file.metadata).modified.sec
  IO.FS.removeFile file
  return .ofSeconds seconds.toNat

def appendLog (file : Path) (time : String) (records : List Log.Record) : IO Unit := do
  IO.FS.createDirAll file.parent.text
  let handle ← IO.FS.Handle.mk file.text .append
  for r in records do
    handle.putStrLn (r.fileText time)

def saveProfile (file : Path) (text : String) : IO Unit := do
  IO.FS.createDirAll file.parent.text
  IO.FS.writeFile file.text text

/-- What goes to standard error. -/
def errorText : CommandLine.Conclusion → String
  | .stopped .usage => CommandLine.Conclusion.usageText
  | .stopped .help => ""
  | .misconfigured e => "Configuration error: " ++ e.message ++ "\n"
  | .ran s => String.join (s.log.console.map fun r => r.consoleText ++ "\n")

end KernelProfile.Program

open KernelProfile in
/-- Run the program on its arguments. -/
def main (args : List String) : IO UInt32 := do
  let commandFiles := match CommandLine.Invocation.ofArguments args with
    | .ok i => i.command.files
    | .error _ => []
  let files ← Program.readFiles (Settings.envFile :: commandFiles)
  let envText := ((files.get? Settings.envFile.text).map Text.Utf8.decodeLossy).getD ""
  let environment ← Program.readVariables (Settings.names ++ EnvFile.mentioned envText)
  let stamp ← Program.now
  let conclusion := CommandLine.run files environment stamp.fileText args
  IO.print conclusion.output
  IO.eprint (Program.errorText conclusion)
  if let .ran s := conclusion then
    if let some file := conclusion.logFile? then
      Program.appendLog file stamp.lineText (s.log.files.map Prod.snd)
  if let some (file, text) := conclusion.saved? then
    Program.saveProfile file text
  return conclusion.exitCode.toUInt32
