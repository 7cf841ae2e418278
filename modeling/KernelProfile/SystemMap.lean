import KernelProfile.Table
import KernelProfile.Text.Blank
import KernelProfile.Text.Lines
import KernelProfile.Text.Quoted
import KernelProfile.Text.Numeral
import KernelProfile.Text.Utf8

/-! Symbol maps: lines of a hexadecimal address, a kind and a name. Symbols of text and data kinds
are kept. A line that is neither blank nor of that form means that the whole is no symbol map. -/
namespace KernelProfile.SystemMap

/-- What is wrong with a line. -/
inductive Reason where
  | missingFields
  | badAddress
  deriving DecidableEq, Repr

def Reason.text : Reason → String
  | missingFields => "expected address, kind and name"
  | badAddress => "address is not hexadecimal"

/-- The first line that has not the form, counted from one. -/
structure InvalidLine where
  number : Nat
  line : String
  reason : Reason
  deriving DecidableEq, Repr

def InvalidLine.message (e : InvalidLine) : String :=
  "invalid System.map line " ++ Text.decimal e.number ++ ": " ++ e.reason.text ++ ": " ++
    Text.quoted e.line

/-- The number of one or more ASCII hexadecimal digits. -/
def address? (cs : List Char) : Option Nat :=
  if cs.isEmpty then none
  else (cs.mapM Text.hexDigitValue?).map fun ds => ds.foldl (fun n d => n * 16 + d) 0

/-- The kinds of symbols that are kept: text and data, local and global. -/
def keptKinds : List (List Char) := [['d'], ['D'], ['t'], ['T']]

/-- What a line of a symbol map says. -/
inductive Line where
  | blank
  | dropped
  | symbol (name : String) (address : Nat)
  | invalid (reason : Reason)
  deriving DecidableEq, Repr

def Line.ofChars (cs : List Char) : Line :=
  match Text.fields cs with
  | [] => .blank
  | address :: kind :: name :: _ =>
    match address? address with
    | none => .invalid .badAddress
    | some n => if kind ∈ keptKinds then .symbol (String.ofList name) n else .dropped
  | _ => .invalid .missingFields

/-- Read lines, the first of which has the given number, into a table of symbols. -/
def readFrom (number : Nat) (table : Table Int) :
    List (List Char) → Except InvalidLine (Table Int)
  | [] => .ok table
  | cs :: rest =>
    match Line.ofChars cs with
    | .blank => readFrom (number + 1) table rest
    | .dropped => readFrom (number + 1) table rest
    | .symbol name address => readFrom (number + 1) (table.insert name address) rest
    | .invalid reason => .error ⟨number, String.ofList cs, reason⟩

/-- The symbols of lines; the last address of a name stands at the place of its first. -/
def ofLines (lines : List (List Char)) : Except InvalidLine (Table Int) :=
  readFrom 1 .empty lines

/-- The symbols of a text held in memory. -/
def ofText (text : String) : Except InvalidLine (Table Int) :=
  ofLines (Text.splitLines text.toList)

/-- The symbols of a file, whose invalid bytes are replaced. -/
def ofFile (bytes : List UInt8) : Except InvalidLine (Table Int) :=
  ofLines (Text.fileLines (Text.Utf8.decodeLossy bytes).toList)

end KernelProfile.SystemMap
