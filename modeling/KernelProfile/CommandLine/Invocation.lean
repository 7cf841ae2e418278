import KernelProfile.CommandLine.Arguments
import KernelProfile.Settings.Basic

/-! What the program can be asked to do: build a profile from a program database, build one from an
image with debugging information and its symbol map, or answer a question to a saved profile. -/
namespace KernelProfile.CommandLine

/-- A question to a profile. -/
inductive Question where
  | symbol (name : String)
  | field (path : String)
  | size (name : String)
  deriving DecidableEq, Repr

/-- Whether two questions are of one kind. -/
def Question.sameKind : Question → Question → Bool
  | symbol _, symbol _ | field _, field _ | size _, size _ => true
  | _, _ => false

inductive Command where
  | pdb (file : Path)
  | dwarf (image systemMap : Path)
  | query (profile : Path) (question : Question)
  deriving DecidableEq, Repr

/-- A command and what is given with it. -/
structure Invocation where
  command : Command
  given : Overrides
  deriving DecidableEq, Repr

/-- What options stand for. -/
inductive Key where
  | help | verbose | logDirectory | output | architecture | symbol | field | size
  deriving DecidableEq, Repr

/-- What options have set. -/
structure Values where
  given : Overrides := {}
  question : Option Question := none
  deriving DecidableEq, Repr

namespace Values

/-- Ask a question. Only one kind of question may be asked, the last one of which counts. -/
def ask (v : Values) (q : Question) : Except Stop Values :=
  match v.question with
  | none => .ok { v with question := some q }
  | some before => if before.sameKind q then .ok { v with question := some q } else .error .usage

/-- What an option does. -/
def take (key : Key) (value : Option String) (v : Values) : Except Stop Values :=
  let text := value.getD ""
  match key with
  | .help => .error .help
  | .verbose => .ok { v with given := { v.given with verbose := true } }
  | .logDirectory => .ok { v with given := { v.given with logDirectory := some (.ofText text) } }
  | .output => .ok { v with given := { v.given with output := some (.ofText text) } }
  | .architecture =>
    if (Architecture.ofTag? text).isSome then
      .ok { v with given := { v.given with architecture := some text } }
    else .error .usage
  | .symbol => v.ask (.symbol text)
  | .field => v.ask (.field text)
  | .size => v.ask (.size text)

end Values

def helpSpec : OptionSpec Key := ⟨.help, ["-h", "--help"], false⟩

/-- Options of every command. -/
def commonSpecs : List (OptionSpec Key) :=
  [helpSpec, ⟨.verbose, ["-v", "--verbose"], false⟩, ⟨.logDirectory, ["--log-dir"], true⟩]

def outputSpec : OptionSpec Key := ⟨.output, ["-o", "--output"], true⟩

def pdbGrammar : Grammar Key Values := ⟨commonSpecs ++ [outputSpec], 1, Values.take⟩

def dwarfGrammar : Grammar Key Values :=
  ⟨commonSpecs ++ [outputSpec, ⟨.architecture, ["--architecture"], true⟩], 2, Values.take⟩

def queryGrammar : Grammar Key Values :=
  ⟨commonSpecs ++ [⟨.symbol, ["--symbol"], true⟩, ⟨.field, ["--field"], true⟩,
    ⟨.size, ["--size"], true⟩], 1, Values.take⟩

namespace Invocation

/-- The invocation of a command by its name. -/
def ofCommand (name : String) (args : List String) : Except Stop Invocation := do
  match name with
  | "pdb" =>
    match ← pdbGrammar.read {} args with
    | (v, file :: _) => return ⟨.pdb (.ofText file), v.given⟩
    | _ => throw .usage
  | "dwarf" =>
    match ← dwarfGrammar.read {} args with
    | (v, image :: systemMap :: _) =>
      return ⟨.dwarf (.ofText image) (.ofText systemMap), v.given⟩
    | _ => throw .usage
  | "query" =>
    match ← queryGrammar.read {} args with
    | (⟨given, some question⟩, profile :: _) => return ⟨.query (.ofText profile) question, given⟩
    | _ => throw .usage
  | _ => throw .usage

/-- Pass over what stands before the name of a command: nothing that would be of use, but a request
for help is heeded, and so is one behind the name. -/
def ofArgumentsAfter (stray : Bool) : List String → Except Stop Invocation
  | [] => .error .usage
  | "--" :: _ => .error .usage
  | s :: rest => do
    match ← Token.ofArgument [helpSpec] s with
    | .plain name =>
      let invocation ← ofCommand name rest
      if stray then throw .usage else return invocation
    | .option o =>
      let _ ← settle [helpSpec] o []
      throw .help
    | _ => ofArgumentsAfter true rest

/-- The invocation that arguments stand for. -/
def ofArguments (args : List String) : Except Stop Invocation := ofArgumentsAfter false args

end Invocation
end KernelProfile.CommandLine
