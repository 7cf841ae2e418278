import KernelProfile.Log.Basic
import KernelProfile.Text.Numeral

/-! Progress of a long run: how many units and entries were processed and how many duplicates were
passed over, the operations under way, and what the log tells of them. Times are measured outside
and are put into the texts. -/
namespace KernelProfile.Log

/-- Something that happens in a run and that the log tells. -/
inductive Event where
  | operationStarted (name : String)
  | operationCompleted (name : String)
  | operationFailed (name reason : String)
  | unitStarted (number : Nat) (offset : Int)
  | unitCompleted (number entries : Nat)
  | unitFailed (number : Nat) (context reason : String)
  | summary (units entries skipped : Nat)
  | callStarted (name : String)
  | callCompleted (name : String)
  | callFailed (name reason : String)
  deriving DecidableEq, Repr

namespace Event

def level : Event → Level
  | operationFailed .. | unitFailed .. | callFailed .. => .error
  | summary .. => .info
  | _ => .debug

/-- What the texts of events take from outside: the noun for entries, the seconds that passed, and
the entries per second. -/
structure Figures where
  entryNoun : String
  seconds : String
  rate : String
  deriving DecidableEq, Repr

def text (f : Figures) : Event → String
  | operationStarted name => "Starting operation: " ++ name
  | operationCompleted name => "Completed operation: " ++ name ++ " in " ++ f.seconds ++ "s"
  | operationFailed name reason =>
    "Failed operation: " ++ name ++ " after " ++ f.seconds ++ "s: " ++ reason
  | unitStarted number offset =>
    "Processing unit #" ++ Text.decimal number ++ " at 0x" ++ Text.hex offset
  | unitCompleted number entries =>
    "Unit #" ++ Text.decimal number ++ " completed in " ++ f.seconds ++ "s (" ++
      Text.decimal entries ++ " " ++ f.entryNoun ++ " processed)"
  | unitFailed number context reason =>
    "Unit #" ++ Text.decimal number ++ " failed during " ++ context ++ " after " ++ f.seconds ++
      "s: " ++ reason
  | summary units entries skipped =>
    "Processing complete: " ++ Text.decimal units ++ " units, " ++ Text.decimal entries ++ " " ++
      f.entryNoun ++ ", " ++ Text.decimal skipped ++ " duplicates skipped in " ++ f.seconds ++
      "s (" ++ f.rate ++ " " ++ f.entryNoun ++ "/s)"
  | callStarted name => "Starting " ++ name
  | callCompleted name => "Completed " ++ name ++ " in " ++ f.seconds ++ "s"
  | callFailed name reason => "Failed " ++ name ++ " after " ++ f.seconds ++ "s: " ++ reason

end Event

/-- Counts of a run, the names of the operations under way from the outermost to the innermost, and
what happened so far. -/
structure Progress where
  units : Nat := 0
  entries : Nat := 0
  skipped : Nat := 0
  operations : List String := []
  events : List Event := []
  deriving DecidableEq, Repr

namespace Progress

def note (p : Progress) (e : Event) : Progress := { p with events := p.events ++ [e] }

/-- What is under way. -/
def context (p : Progress) : String :=
  if p.operations.isEmpty then "idle" else " -> ".intercalate p.operations

def countEntry (p : Progress) : Progress := { p with entries := p.entries + 1 }

def countSkipped (p : Progress) : Progress := { p with skipped := p.skipped + 1 }

/-- An operation begins. -/
def beginOperation (p : Progress) (name : String) : Progress :=
  { p with operations := p.operations ++ [name] }.note (.operationStarted name)

/-- The innermost operation ends, with a reason if it failed. -/
def endOperation (p : Progress) (name : String) (fault : Option String) : Progress :=
  let told := p.note (match fault with
    | none => .operationCompleted name
    | some reason => .operationFailed name reason)
  { told with operations := p.operations.dropLast }

/-- The next unit begins. -/
def beginUnit (p : Progress) (offset : Int) : Progress :=
  { p with units := p.units + 1 }.note (.unitStarted (p.units + 1) offset)

/-- A unit ends, with a reason if it failed. Units within it have been counted on, and what is told
shows the count that was then reached, with the entries since the unit began. -/
def endUnit (p : Progress) (entriesBefore : Nat) (fault : Option String) : Progress :=
  p.note (match fault with
    | none => .unitCompleted p.units (p.entries - entriesBefore)
    | some reason => .unitFailed p.units p.context reason)

/-- Tell the counts. -/
def report (p : Progress) : Progress := p.note (.summary p.units p.entries p.skipped)

/-- What a call tells: that it starts, and how it ends. -/
def callEvents {α : Type} (name : String) : Except String α → List Event
  | .ok _ => [.callStarted name, .callCompleted name]
  | .error reason => [.callStarted name, .callFailed name reason]

end Progress
end KernelProfile.Log
