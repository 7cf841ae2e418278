import KernelProfile.Path

/-! The log of a run: records with levels, shown on the console from a level on and written in full
to a file where a directory for it is given. Logging is set up once and stays as it is until it is
reset; without a set-up nothing is shown or written. -/
namespace KernelProfile.Log

inductive Level where
  | debug | info | warning | error | critical
  deriving DecidableEq, Repr

namespace Level

def all : List Level := [debug, info, warning, error, critical]

def name : Level → String
  | debug => "DEBUG"
  | info => "INFO"
  | warning => "WARNING"
  | error => "ERROR"
  | critical => "CRITICAL"

def ofName? (s : String) : Option Level := all.find? fun l => l.name == s

def rank : Level → Nat
  | debug => 10
  | info => 20
  | warning => 30
  | error => 40
  | critical => 50

end Level

/-- Something to be told: by whom, how grave, and what. -/
structure Record where
  source : String
  level : Level
  text : String
  deriving DecidableEq, Repr

namespace Record

/-- A record as the console shows it. -/
def consoleText (r : Record) : String := r.level.name ++ ": " ++ r.text

/-- A record as it stands in a file. -/
def fileText (time : String) (r : Record) : String :=
  time ++ " - " ++ r.source ++ " - " ++ r.level.name ++ " - " ++ r.text

end Record

/-- How logging was set up: the file, if there is one, is named for the time of the set-up. -/
structure Setup where
  directory : Option Path
  verbose : Bool
  stamp : String
  deriving DecidableEq, Repr

namespace Setup

/-- The lowest level that the console shows. -/
def consoleLevel (s : Setup) : Level := if s.verbose then .debug else .info

def file? (s : Setup) : Option Path :=
  s.directory.map fun d => d.child ("isr_" ++ s.stamp ++ ".log")

/-- The lowest levels of the console and, where there is one, of the file. -/
def levels (s : Setup) : List Level :=
  s.consoleLevel :: (s.directory.map fun _ => Level.debug).toList

def shows (s : Setup) (r : Record) : Bool := s.consoleLevel.rank ≤ r.level.rank

/-- Who tells of the set-up. -/
def source : String := "isr.log"

/-- What a set-up tells of itself. -/
def opening (s : Setup) : List Record :=
  (s.file?.map fun f => ⟨source, .info, "Logging initialized. Log file: " ++ f.text⟩).toList ++
    [⟨source, .debug, "Verbose mode: " ++ if s.verbose then "True" else "False"⟩]

end Setup

/-- The state of logging: the set-up in force, the console so far, and the lines of files. -/
structure State where
  setup : Option Setup := none
  console : List Record := []
  files : List (Path × Record) := []
  deriving DecidableEq, Repr

namespace State

/-- Tell a record. -/
def tell (s : State) (r : Record) : State :=
  match s.setup with
  | none => s
  | some setup =>
    { s with
      console := if setup.shows r then s.console ++ [r] else s.console
      files := s.files ++ (setup.file?.map fun f => (f, r)).toList }

/-- Set logging up, unless it is. -/
def start (s : State) (setup : Setup) : State :=
  match s.setup with
  | some _ => s
  | none => setup.opening.foldl tell { s with setup := some setup }

/-- Forget the set-up; what was written stays. -/
def reset (s : State) : State := { s with setup := none }

/-- The records of files, those of one file together, files in the order of listings. -/
def fileRecords (s : State) : List Record :=
  let paths := (s.files.map Prod.fst).eraseDups.mergeSort Path.before
  paths.flatMap fun p => (s.files.filter fun e => e.1 = p).map Prod.snd

end State
end KernelProfile.Log
