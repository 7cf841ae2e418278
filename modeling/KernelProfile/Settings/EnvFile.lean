import KernelProfile.Table
import KernelProfile.Text.Blank
import KernelProfile.Text.Lines

/-! Environment files: lines of the form `NAME=value`, perhaps after the word `export`, and
comments. A value stands in apostrophes, in double quotes, or without quotes up to a comment; a
quoted one may go over several lines. A statement that is not of this form is passed over to the
end of its line. -/
namespace KernelProfile.EnvFile

/-- A statement: a name and its value, if it gives one. -/
structure Binding where
  name : List Char
  value : Option (List Char)
  deriving DecidableEq, Repr

/-- White space within a line. -/
def isInlineBlank (c : Char) : Bool := Text.isBlank c && c != '\n' && c != '\r'

def isLineEnd (c : Char) : Bool := c == '\n' || c == '\r'

def dropInline (cs : List Char) : List Char := cs.dropWhile isInlineBlank

/-- The text up to a closing quote and the text behind it. A quote behind a backslash closes
nothing, unless no other quote is left to close. -/
def quotedBody (quote : Char) : List Char → Option (List Char × List Char)
  | [] => none
  | [c] => if c = quote then some ([], []) else none
  | c :: d :: rest =>
    if c = quote then some ([], d :: rest)
    else if c = '\\' && d = quote then
      match quotedBody quote rest with
      | some (body, rest) => some (c :: d :: body, rest)
      | none => some ([c], rest)
    else (quotedBody quote (d :: rest)).map fun (body, rest) => (c :: body, rest)

/-- What a backslash and a letter stand for between double quotes. -/
def doubleEscape? : Char → Option Char
  | '\\' => some '\\'
  | '\'' => some '\''
  | '"' => some '"'
  | 'a' => some '\x07'
  | 'b' => some '\x08'
  | 'f' => some '\x0C'
  | 'n' => some '\n'
  | 'r' => some '\r'
  | 't' => some '\t'
  | 'v' => some '\x0B'
  | _ => none

/-- Between apostrophes only the backslash and the apostrophe can be escaped. -/
def singleEscape? : Char → Option Char
  | '\\' => some '\\'
  | '\'' => some '\''
  | _ => none

/-- Replace escapes; a backslash before anything else stands for itself. -/
def unescape (escape? : Char → Option Char) : List Char → List Char
  | [] => []
  | [c] => [c]
  | c :: d :: rest =>
    if c = '\\' then
      match escape? d with
      | some e => e :: unescape escape? rest
      | none => c :: unescape escape? (d :: rest)
    else c :: unescape escape? (d :: rest)

/-- The text before the first number sign that follows a blank. -/
def beforeComment : List Char → List Char
  | [] => []
  | [c] => [c]
  | c :: d :: rest => if Text.isBlank c && d = '#' then [] else c :: beforeComment (d :: rest)

/-- The value behind an equals sign, and what follows it. -/
def readValue (cs : List Char) : Option (List Char × List Char) :=
  match cs with
  | '\'' :: rest =>
    (quotedBody '\'' rest).map fun (body, rest) => (unescape singleEscape? body, rest)
  | '"' :: rest =>
    (quotedBody '"' rest).map fun (body, rest) => (unescape doubleEscape? body, rest)
  | _ =>
    let line := cs.takeWhile (!isLineEnd ·)
    some (Text.trimEnd Text.isBlank (beforeComment line), cs.drop line.length)

/-- The word that may stand before a name, passed over with the blanks behind it. -/
def dropExport (cs : List Char) : List Char :=
  let word := "export".toList
  let rest := cs.drop word.length
  if cs.take word.length = word && (rest.head?.map isInlineBlank).getD false then dropInline rest
  else cs

/-- The name at the start of a statement. In front of a comment there is none, which is no fault. -/
def readName (cs : List Char) : Option (Option (List Char) × List Char) :=
  match cs with
  | '#' :: _ => some (none, cs)
  | '\'' :: rest =>
    let name := rest.takeWhile (· != '\'')
    if name.isEmpty || name.length = rest.length then none
    else some (some name, rest.drop (name.length + 1))
  | _ =>
    let name := cs.takeWhile fun c => c != '=' && c != '#' && !Text.isBlank c
    if name.isEmpty then none else some (some name, cs.drop name.length)

/-- A comment, which has to follow blanks or stand alone. -/
def dropComment (cs : List Char) : List Char :=
  match dropInline cs with
  | '#' :: rest => rest.dropWhile (!isLineEnd ·)
  | _ => cs

/-- The end of a line, perhaps behind blanks. -/
def dropLineEnd (cs : List Char) : Option (List Char) :=
  match dropInline cs with
  | [] => some []
  | '\r' :: '\n' :: rest => some rest
  | c :: rest => if isLineEnd c then some rest else none

/-- How far reading came: where a statement that has not the form stops being read. -/
structure Fault where
  rest : List Char

def orFault {α : Type} (rest : List Char) : Option α → Except Fault α
  | some a => .ok a
  | none => .error ⟨rest⟩

/-- The statement at the start of a text, which may be a comment alone, and what follows it. -/
def readStatement (cs : List Char) : Except Fault (Option Binding × List Char) := do
  let start := dropExport cs
  let (name, afterName) ← orFault start (readName start)
  let afterName := dropInline afterName
  let (value, afterValue) ← match afterName with
    | '=' :: rest => do
      let rest := dropInline rest
      let (value, rest) ← orFault rest (readValue rest)
      pure (some value, rest)
    | _ => pure (none, afterName)
  let afterComment := dropComment afterValue
  let rest ← orFault afterComment (dropLineEnd afterComment)
  return (name.map fun n => ⟨n, value⟩, rest)

/-- The rest of a line is passed over with one character that ends it. -/
def dropLine (cs : List Char) : List Char := (cs.dropWhile (!isLineEnd ·)).drop 1

/-- Statements up to the end; every one takes at least a character. -/
def bindingsFrom : Nat → List Char → List Binding
  | 0, _ => []
  | bound + 1, cs =>
    match cs.dropWhile Text.isBlank with
    | [] => []
    | start =>
      match readStatement start with
      | .ok (binding, rest) => binding.toList ++ bindingsFrom bound rest
      | .error fault => bindingsFrom bound (dropLine fault.rest)

/-- The statements of an environment file. -/
def bindings (text : List Char) : List Binding :=
  let cs := Text.foldNewlines text
  bindingsFrom (cs.length + 1) cs

/-! Values may refer to variables: `${NAME}` stands for the value of a variable, and
`${NAME:-default}` gives what stands for it where there is none. -/

/-- A piece of a value. -/
inductive Piece where
  | literal (c : Char)
  | reference (name : List Char) (default : List Char)
  deriving DecidableEq, Repr

/-- The reference at the start of a text, and what follows it. -/
def reference? : List Char → Option (Piece × List Char)
  | '$' :: '\x7b' :: cs =>
    let name := cs.takeWhile fun c => c != '\x7d' && c != ':'
    match cs.drop name.length with
    | '\x7d' :: rest => some (.reference name [], rest)
    | ':' :: '-' :: rest =>
      let default := rest.takeWhile (· != '\x7d')
      match rest.drop default.length with
      | _ :: rest => some (.reference name default, rest)
      | [] => none
    | _ => none
  | _ => none

def piecesFrom : Nat → List Char → List Piece
  | 0, _ => []
  | _, [] => []
  | bound + 1, c :: rest =>
    match reference? (c :: rest) with
    | some (piece, rest) => piece :: piecesFrom bound rest
    | none => .literal c :: piecesFrom bound rest

/-- The pieces of a value. -/
def pieces (cs : List Char) : List Piece := piecesFrom cs.length cs

/-- Variables with their values; a name may be known without a value. -/
abbrev Variables := Table (Option String)

/-- What a piece stands for. -/
def Piece.resolve (lookup : String → Option (Option String)) : Piece → List Char
  | .literal c => [c]
  | .reference name default =>
    match lookup (String.ofList name) with
    | none => default
    | some value => (value.getD "").toList

/-- What a name stands for while a file is read: the environment goes before the file. -/
def lookupIn (environment : Table String) (known : Variables) (name : String) :
    Option (Option String) :=
  match environment.get? name with
  | some value => some (some value)
  | none => known.get? name

/-- The variables of statements, each seeing those before it. -/
def definitions (environment : Table String) (bs : List Binding) : Variables :=
  bs.foldl (fun known b =>
    known.insert (String.ofList b.name) (b.value.map fun v =>
      String.ofList ((pieces v).flatMap (Piece.resolve (lookupIn environment known))))) .empty

/-- The names that a file's text gives values to or refers to. -/
def mentioned (text : String) : List String :=
  (bindings text.toList).flatMap fun b =>
    String.ofList b.name :: ((b.value.map pieces).getD []).filterMap fun
      | .reference name _ => some (String.ofList name)
      | .literal _ => none

/-- Why a variable cannot be put into an environment. -/
inductive NameFault where
  | nul
  | equalsSign
  deriving DecidableEq, Repr

def NameFault.message : NameFault → String
  | nul => "embedded null byte"
  | equalsSign => "illegal environment variable name"

/-- Put a variable into an environment that does not have it. -/
def define (environment : Table String) (name : String) : Option String →
    Except NameFault (Table String)
  | none => .ok environment
  | some value =>
    if environment.contains name then .ok environment
    else if name.toList.contains '\x00' || value.toList.contains '\x00' then .error .nul
    else if name.toList.contains '=' then .error .equalsSign
    else .ok (environment.insert name value)

/-- An environment with the variables of a file's text that it does not have yet. -/
def load (environment : Table String) (text : String) : Except NameFault (Table String) :=
  (definitions environment (bindings text.toList)).entries.foldlM
    (fun known (name, value) => define known name value) environment

end KernelProfile.EnvFile
