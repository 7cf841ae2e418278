import KernelProfile.Text.Numeral

/-! Arguments of a command: options with and without values, and plain arguments. An option may be
shortened as long as it stays clear, its value may stand behind an equals sign or in the next
argument, and short options may be run together. Behind a double dash everything is plain. -/
namespace KernelProfile.CommandLine

/-- Why reading arguments stops before there is a command to carry out. -/
inductive Stop where
  | help
  | usage
  deriving DecidableEq, Repr

/-- An option: what it stands for, how it may be spelled, and whether it takes a value. -/
structure OptionSpec (κ : Type) where
  key : κ
  names : List String
  takesValue : Bool

/-- What is attached to an option: its text, and whether an equals sign stands before it. -/
structure Attached where
  afterSign : Bool
  text : List Char
  deriving DecidableEq, Repr

/-- An option as it occurs; the short spelling has one dash. -/
structure Occurrence (κ : Type) where
  spec : OptionSpec κ
  short : Bool
  attached : Option Attached

/-- What an argument is. -/
inductive Token (κ : Type) where
  | plain (s : String)
  | separator
  | option (o : Occurrence κ)
  | unknown

/-- A text cut at its first equals sign, if it has one. -/
def cutAtSign (cs : List Char) : Option (List Char × List Char) :=
  let before := cs.takeWhile (· != '=')
  match cs.drop before.length with
  | _ :: after => some (before, after)
  | [] => none

def isDigit (c : Char) : Bool := (Text.digitValue? c).isSome

/-- Whether a text reads as a negative number, which makes it a plain argument. -/
def isNegativeNumber : List Char → Bool
  | '-' :: rest =>
    let whole := rest.takeWhile isDigit
    match rest.drop whole.length with
    | [] => !whole.isEmpty
    | '.' :: fraction => !fraction.isEmpty && fraction.all isDigit
    | _ => false
  | _ => false

/-- Every spelling with its option. -/
def spellings {κ : Type} (specs : List (OptionSpec κ)) : List (List Char × OptionSpec κ) :=
  specs.flatMap fun s => s.names.map fun n => (n.toList, s)

def named? {κ : Type} (specs : List (OptionSpec κ)) (name : List Char) : Option (OptionSpec κ) :=
  (spellings specs).lookup name

/-- The options that a text with dashes may be short for. Behind one dash the letters after the
first are attached to it. -/
def candidates {κ : Type} (specs : List (OptionSpec κ)) (cs : List Char) : List (Occurrence κ) :=
  match cs with
  | '-' :: '-' :: _ =>
    let cut := cutAtSign cs
    let start := (cut.map Prod.fst).getD cs
    let attached := cut.map fun c => Attached.mk true c.2
    ((spellings specs).filter fun s => start.isPrefixOf s.1).map fun s => ⟨s.2, false, attached⟩
  | _ =>
    (spellings specs).filterMap fun s =>
      if s.1 = cs.take 2 then some ⟨s.2, true, some ⟨false, cs.drop 2⟩⟩
      else if cs.isPrefixOf s.1 then some ⟨s.2, false, none⟩
      else none

/-- Whether a spelling has one dash. -/
def isShort (name : List Char) : Bool := (name.drop 1).head? != some '-'

/-- What an argument before any double dash is. -/
def Token.ofArgument {κ : Type} (specs : List (OptionSpec κ)) (s : String) :
    Except Stop (Token κ) :=
  let cs := s.toList
  if cs.head? != some '-' then .ok (.plain s)
  else
    match named? specs cs with
    | some spec => .ok (.option ⟨spec, isShort cs, none⟩)
    | none =>
      if cs.length = 1 then .ok (.plain s)
      else
        let bySign := (cutAtSign cs).bind fun (name, value) =>
          (named? specs name).map fun spec =>
            (⟨spec, isShort name, some ⟨true, value⟩⟩ : Occurrence κ)
        match bySign with
        | some o => .ok (.option o)
        | none =>
          match candidates specs cs with
          | _ :: _ :: _ => .error .usage
          | [o] => .ok (.option o)
          | [] =>
            if isNegativeNumber cs || cs.contains ' ' then .ok (.plain s) else .ok .unknown

/-- What arguments are. -/
def tokens {κ : Type} (specs : List (OptionSpec κ)) : List String → Except Stop (List (Token κ))
  | [] => .ok []
  | "--" :: rest => .ok (.separator :: rest.map .plain)
  | s :: rest => do return (← Token.ofArgument specs s) :: (← tokens specs rest)

/-- What an option and the options run together with it set, and whether letters are left over. -/
structure Settled (κ : Type) where
  values : List (κ × Option String)
  leftOver : Bool

/-- Take an option that occurs with something attached: as its value, or as further short options.
The last of those may still need a value, which is then returned. -/
def settleAttached {κ : Type} (specs : List (OptionSpec κ)) :
    OptionSpec κ → Bool → Bool → List Char → Except Stop (Settled κ × Option (OptionSpec κ))
  | spec, short, afterSign, text =>
    if spec.takesValue then .ok (⟨[(spec.key, some (String.ofList text))], false⟩, none)
    else
      match text with
      | [] => .error .usage
      | c :: rest =>
        if !short || afterSign || c = '-' then .error .usage
        else
          match named? specs ['-', c] with
          | none => .ok (⟨[(spec.key, none)], true⟩, none)
          | some next =>
            match rest with
            | [] => .ok (⟨[(spec.key, none)], false⟩, some next)
            | '=' :: value => do
              let (settled, last) ← settleAttached specs next true true value
              return (⟨(spec.key, none) :: settled.values, settled.leftOver⟩, last)
            | d :: more => do
              let (settled, last) ← settleAttached specs next true false (d :: more)
              return (⟨(spec.key, none) :: settled.values, settled.leftOver⟩, last)
termination_by _ _ _ text => text.length

/-- Take an option without anything attached; its value is the next argument, if that is plain. -/
def settleAlone {κ : Type} (spec : OptionSpec κ) (rest : List (Token κ)) :
    Except Stop ((κ × Option String) × List (Token κ)) :=
  if spec.takesValue then
    match rest with
    | .plain value :: rest => .ok ((spec.key, some value), rest)
    | _ => .error .usage
  else .ok ((spec.key, none), rest)

/-- What an occurrence sets, whether letters are left over, and the arguments behind it. -/
def settle {κ : Type} (specs : List (OptionSpec κ)) (o : Occurrence κ) (rest : List (Token κ)) :
    Except Stop (Settled κ × List (Token κ)) := do
  match o.attached with
  | none =>
    let (value, rest) ← settleAlone o.spec rest
    return (⟨[value], false⟩, rest)
  | some a =>
    match ← settleAttached specs o.spec o.short a.afterSign a.text with
    | (settled, none) => return (settled, rest)
    | (settled, some last) =>
      let (value, rest) ← settleAlone last rest
      return (⟨settled.values ++ [value], settled.leftOver⟩, rest)

/-- The arguments of a command: its options, how many plain arguments it takes, and what an option
does to the values so far. -/
structure Grammar (κ σ : Type) where
  specs : List (OptionSpec κ)
  plainCount : Nat
  take : κ → Option String → σ → Except Stop σ

/-- Arguments read so far. -/
structure Reading (σ : Type) where
  values : σ
  plain : List String
  /-- Whether there was an argument that belongs nowhere. -/
  stray : Bool
  /-- Whether the last argument was a plain one that belongs to the command. -/
  afterPlain : Bool

namespace Grammar

variable {κ σ : Type}

/-- Read tokens from the left, taking what options set at once. -/
def readTokens (g : Grammar κ σ) : Nat → Reading σ → List (Token κ) → Except Stop (Reading σ)
  | 0, r, _ => .ok r
  | _, r, [] => .ok r
  | bound + 1, r, .plain s :: rest =>
    if r.plain.length < g.plainCount then
      g.readTokens bound { r with plain := r.plain ++ [s], afterPlain := true } rest
    else g.readTokens bound { r with stray := true, afterPlain := false } rest
  | bound + 1, r, .separator :: rest =>
    let belongs := r.afterPlain || (r.plain.length < g.plainCount && !rest.isEmpty)
    g.readTokens bound { r with stray := r.stray || !belongs, afterPlain := false } rest
  | bound + 1, r, .unknown :: rest =>
    g.readTokens bound { r with stray := true, afterPlain := false } rest
  | bound + 1, r, .option o :: rest => do
    let (settled, rest) ← settle g.specs o rest
    let values ← settled.values.foldlM (fun values v => g.take v.1 v.2 values) r.values
    g.readTokens bound
      { r with values, stray := r.stray || settled.leftOver, afterPlain := false } rest

/-- The values and plain arguments of a command, of which there have to be enough. -/
def read (g : Grammar κ σ) (start : σ) (args : List String) : Except Stop (σ × List String) := do
  let ts ← tokens g.specs args
  let r ← g.readTokens ts.length ⟨start, [], false, false⟩ ts
  if r.stray || r.plain.length < g.plainCount then throw .usage
  else return (r.values, r.plain)

end Grammar
end KernelProfile.CommandLine
