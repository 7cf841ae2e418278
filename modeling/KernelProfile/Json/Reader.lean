import KernelProfile.Json.Basic

/-! Reading JSON text. The reader accepts the standard grammar and the three names `NaN`,
`Infinity` and `-Infinity`; of repeated keys the last value stays, at the place of the first.
Recursion is bounded by the length of the text, which no value can exceed in depth. -/
namespace KernelProfile.Json

/-- Why a text is not read: it is no JSON, an integer in it has too many digits, or a string in it
spells half of a surrogate pair on its own, which no text here can hold. -/
inductive Fault where
  | malformed
  | tooLong (digits : Nat)
  | loneSurrogate
  deriving DecidableEq, Repr

/-- The white space of JSON. -/
def isSpace (c : Char) : Bool := c == ' ' || c == '\t' || c == '\n' || c == '\r'

def skipSpace (cs : List Char) : List Char := cs.dropWhile isSpace

/-- The value of four hexadecimal digits and the rest of the text. -/
def readUnit : List Char → Option (Nat × List Char)
  | a :: b :: c :: d :: rest => do
    let a ← Text.hexDigitValue? a
    let b ← Text.hexDigitValue? b
    let c ← Text.hexDigitValue? c
    let d ← Text.hexDigitValue? d
    return (((a * 16 + b) * 16 + c) * 16 + d, rest)
  | _ => none

/-- The character of a unit. A surrogate without its other half has none. -/
def unitChar (u : Nat) : Except Fault Char :=
  if u.isValidChar then .ok (Char.ofNat u) else .error .loneSurrogate

/-- The character of an escape whose first unit is `u`: two units that form a pair are one
character, and a first half with no second half stands alone. -/
def readPair (u : Nat) (rest : List Char) : Except Fault (Char × List Char) :=
  match rest with
  | '\\' :: 'u' :: tail =>
    if 0xD800 ≤ u && u < 0xDC00 then
      match readUnit tail with
      | none => .error .malformed
      | some (w, tail) =>
        if 0xDC00 ≤ w && w < 0xE000 then
          .ok (Char.ofNat (0x10000 + (u - 0xD800) * 1024 + (w - 0xDC00)), tail)
        else (unitChar u).map (·, rest)
    else (unitChar u).map (·, rest)
  | _ => (unitChar u).map (·, rest)

/-- The character that an escape stands for, and the text behind it. -/
def readEscape : List Char → Except Fault (Char × List Char)
  | '"' :: rest => .ok ('"', rest)
  | '\\' :: rest => .ok ('\\', rest)
  | '/' :: rest => .ok ('/', rest)
  | 'b' :: rest => .ok ('\x08', rest)
  | 'f' :: rest => .ok ('\x0c', rest)
  | 'n' :: rest => .ok ('\n', rest)
  | 'r' :: rest => .ok ('\r', rest)
  | 't' :: rest => .ok ('\t', rest)
  | 'u' :: rest =>
    match readUnit rest with
    | none => .error .malformed
    | some (u, rest) => readPair u rest
  | _ => .error .malformed

/-- The characters of a string up to its closing quote. -/
def readChars : Nat → List Char → Except Fault (List Char × List Char)
  | 0, _ => .error .malformed
  | _ + 1, [] => .error .malformed
  | fuel + 1, c :: rest =>
    if c = '"' then .ok ([], rest)
    else if c = '\\' then do
      let (d, rest) ← readEscape rest
      let (ds, rest) ← readChars fuel rest
      return (d :: ds, rest)
    else if c.toNat < 0x20 then .error .malformed
    else do
      let (ds, rest) ← readChars fuel rest
      return (c :: ds, rest)

/-- A string behind its opening quote. -/
def readString (cs : List Char) : Except Fault (String × List Char) :=
  (readChars (cs.length + 1) cs).map fun (ds, rest) => (String.ofList ds, rest)

/-- The digits at the start of a text, as numbers, and the rest. -/
def readDigits : List Char → List Nat × List Char
  | [] => ([], [])
  | c :: rest =>
    if c.isDigit then
      let (ds, tail) := readDigits rest
      ((c.toNat - 0x30) :: ds, tail)
    else ([], c :: rest)

/-- A fraction: the digits behind a point, of which there is at least one. -/
def readFraction : List Char → Option (List Nat × List Char)
  | '.' :: rest =>
    match readDigits rest with
    | ([], _) => none
    | (ds, tail) => some (ds, tail)
  | _ => none

/-- An exponent: a sign and at least one digit behind the letter. -/
def readExponent : List Char → Option (Int × List Char)
  | c :: rest =>
    if c = 'e' || c = 'E' then
      let (negative, rest) : Bool × List Char := match rest with
        | '-' :: tail => (true, tail)
        | '+' :: tail => (false, tail)
        | tail => (false, tail)
      match readDigits rest with
      | ([], _) => none
      | (ds, tail) =>
        let n : Int := Text.ofDigits ds
        some (if negative then -n else n, tail)
    else none
  | [] => none

/-- The digits in front of a point: a zero stands alone. -/
def readWhole : List Char → List Nat × List Char
  | '0' :: rest => ([0], rest)
  | cs => readDigits cs

/-- An unsigned number: an integer unless a fraction or an exponent follows its digits. -/
def readNumber (negative : Bool) (cs : List Char) : Except Fault (Json × List Char) :=
  let (whole, rest) := readWhole cs
  if whole.isEmpty then .error .malformed
  else
    let fraction := readFraction rest
    let afterFraction := (fraction.map Prod.snd).getD rest
    let exponent := readExponent afterFraction
    let places := (fraction.map Prod.fst).getD []
    if fraction.isNone && exponent.isNone then
      match Text.boundedDigits whole with
      | .error _ => .error (.tooLong whole.length)
      | .ok n => .ok (.int (if negative then -(n : Int) else n), rest)
    else
      let power := (exponent.map Prod.fst).getD 0 - places.length
      .ok (.float (Binary64.ofDecimal negative (Text.ofDigits (whole ++ places)) power),
        (exponent.map Prod.snd).getD afterFraction)

/-- The rest of a text behind a word that it starts with. -/
def afterWord? : List Char → List Char → Option (List Char)
  | [], cs => some cs
  | _ :: _, [] => none
  | w :: word, c :: cs => if w = c then afterWord? word cs else none

/-- A value spelled as a word. -/
def readWord (word : String) (value : Json) (cs : List Char) : Except Fault (Json × List Char) :=
  match afterWord? word.toList cs with
  | none => .error .malformed
  | some rest => .ok (value, rest)

/-- A value that is neither a string, an array nor an object. -/
def readScalar (cs : List Char) : Except Fault (Json × List Char) :=
  match cs with
  | 'n' :: _ => readWord "null" .null cs
  | 't' :: _ => readWord "true" (.bool true) cs
  | 'f' :: _ => readWord "false" (.bool false) cs
  | 'N' :: _ => readWord "NaN" (.float .nan) cs
  | 'I' :: _ => readWord "Infinity" (.float (.infinite false)) cs
  | '-' :: 'I' :: _ => readWord "-Infinity" (.float (.infinite true)) cs
  | '-' :: rest => readNumber true rest
  | cs => readNumber false cs

mutual

/-- One value at the start of a text. -/
def readValue : Nat → List Char → Except Fault (Json × List Char)
  | 0, _ => .error .malformed
  | fuel + 1, cs =>
    match cs with
    | '"' :: rest => (readString rest).map fun (s, rest) => (.str s, rest)
    | '[' :: rest =>
      match skipSpace rest with
      | ']' :: rest => .ok (.arr [], rest)
      | rest => (readItems fuel rest).map fun (items, rest) => (.arr items, rest)
    | '{' :: rest =>
      match skipSpace rest with
      | '}' :: rest => .ok (.obj [], rest)
      | rest => (readMembers fuel [] rest).map fun (members, rest) => (.obj members, rest)
    | cs => readScalar cs

/-- The items of an array up to its bracket; there is at least one. -/
def readItems : Nat → List Char → Except Fault (List Json × List Char)
  | 0, _ => .error .malformed
  | fuel + 1, cs => do
    let (item, rest) ← readValue fuel cs
    match skipSpace rest with
    | ']' :: rest => .ok ([item], rest)
    | ',' :: rest =>
      let (items, rest) ← readItems fuel (skipSpace rest)
      .ok (item :: items, rest)
    | _ => .error .malformed

/-- The members of an object up to its brace, put behind those read before. -/
def readMembers : Nat → List (String × Json) → List Char →
    Except Fault (List (String × Json) × List Char)
  | 0, _, _ => .error .malformed
  | fuel + 1, before, cs =>
    match cs with
    | '"' :: rest => do
      let (key, rest) ← readString rest
      match skipSpace rest with
      | ':' :: rest =>
        let (value, rest) ← readValue fuel (skipSpace rest)
        let members := putEntry key value before
        match skipSpace rest with
        | '}' :: rest => .ok (members, rest)
        | ',' :: rest => readMembers fuel members (skipSpace rest)
        | _ => .error .malformed
      | _ => .error .malformed
    | _ => .error .malformed

end

/-- The value of a whole text, which may stand between white space and nothing else. -/
def readChars? (cs : List Char) : Except Fault Json := do
  let (value, rest) ← readValue (cs.length + 1) (skipSpace cs)
  if (skipSpace rest).isEmpty then .ok value else .error .malformed

def read (text : String) : Except Fault Json := readChars? text.toList

end KernelProfile.Json
