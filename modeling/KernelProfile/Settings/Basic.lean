import KernelProfile.Architecture
import KernelProfile.Path
import KernelProfile.Settings.EnvFile

/-! Settings of a run: where the profile goes, where the log goes, how much is shown, and the
architecture where it is not to be found out. What is given with the command goes before the
environment, and the environment before the environment file. -/
namespace KernelProfile

structure Settings where
  output : Path
  /-- The directory of the log file, if there is to be one. -/
  logDirectory : Option Path
  verbose : Bool
  architecture : Option String
  deriving DecidableEq, Repr

/-- What may be given with a command. -/
structure Overrides where
  output : Option Path := none
  logDirectory : Option Path := none
  verbose : Bool := false
  architecture : Option String := none
  deriving DecidableEq, Repr

namespace Settings

def default : Settings where
  output := .ofText "profile.json"
  logDirectory := some (.ofText "logs")
  verbose := false
  architecture := none

/-- The file that is read before the environment is asked. -/
def envFile : Path := .ofText ".env"

/-- The variables that hold the output path, the log directory, the verbosity and the
architecture. -/
def outputName : String := "ISR_OUTPUT_PATH"

def logDirectoryName : String := "ISR_LOG_DIR"

def verboseName : String := "ISR_VERBOSE"

def architectureName : String := "ISR_ARCHITECTURE"

def names : List String := [outputName, logDirectoryName, verboseName, architectureName]

/-- Values that switch a setting on, in any mixture of cases. -/
def switchOn : List String := ["true", "1", "yes", "on"]

def isOn (value : String) : Bool := value.toLower ∈ switchOn

/-- A value that is not empty. -/
def filled? (value : Option String) : Option String := value.filter fun v => !v.isEmpty

/-- The settings of an environment. An empty log directory means that there is no log file. -/
def ofEnvironment (environment : Table String) : Settings where
  output := ((filled? (environment.get? outputName)).map Path.ofText).getD default.output
  logDirectory :=
    match environment.get? logDirectoryName with
    | none => default.logDirectory
    | some "" => none
    | some directory => some (.ofText directory)
  verbose := ((environment.get? verboseName).map isOn).getD default.verbose
  architecture := filled? (environment.get? architectureName)

/-- The settings of an environment and the text of an environment file, if there is one. -/
def read (environment : Table String) (envFile : Option String) :
    Except EnvFile.NameFault Settings :=
  match envFile with
  | none => .ok (ofEnvironment environment)
  | some text => (EnvFile.load environment text).map ofEnvironment

/-- Settings with what was given with the command; verbosity can only be switched on there. -/
def override (s : Settings) (given : Overrides) : Settings where
  output := given.output.getD s.output
  logDirectory := given.logDirectory.or s.logDirectory
  verbose := given.verbose || s.verbose
  architecture := given.architecture.or s.architecture

/-- Settings are sound if their architecture is a known one or is left open. -/
def check (s : Settings) : Except UnsupportedArchitecture Unit :=
  match s.architecture with
  | none => .ok ()
  | some tag => (Architecture.parse tag).map fun _ => ()

end Settings
end KernelProfile
