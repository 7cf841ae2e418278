import KernelProfile.Power
import KernelProfile.Text.Blank
import KernelProfile.Text.Quoted

/-! Integers as text: decimal and hexadecimal writing, and the reading of decimal literals as they
occur in profile documents, where any Unicode decimal digit counts, single underscores may
stand between digits, and white space may surround the whole. -/
namespace KernelProfile.Text

/-- The decimal digits of a natural number, most significant first. -/
def naturalDigits (n : Nat) : List Char := Nat.toDigits 10 n

/-- The decimal text of an integer. -/
def decimalChars : Int → List Char
  | .ofNat n => naturalDigits n
  | .negSucc n => '-' :: naturalDigits (n + 1)

def decimal (n : Int) : String := String.ofList (decimalChars n)

/-- The lower-case hexadecimal text of an integer. -/
def hex (n : Int) : String :=
  let digits := String.ofList (Nat.toDigits 16 n.natAbs)
  if n < 0 then "-" ++ digits else digits

/-- The value of a hexadecimal digit of either case. -/
def hexDigitValue? (c : Char) : Option Nat :=
  let n := c.toNat
  if 0x30 ≤ n && n ≤ 0x39 then some (n - 0x30)
  else if 0x61 ≤ n && n ≤ 0x66 then some (n - 0x61 + 10)
  else if 0x41 ≤ n && n ≤ 0x46 then some (n - 0x41 + 10)
  else none

/-- The zeros of the decimal digit sets of Unicode; each is followed by its other nine digits. -/
def decimalZeros : List Nat := [
  0x30, 0x660, 0x6F0, 0x7C0, 0x966, 0x9E6, 0xA66, 0xAE6, 0xB66, 0xBE6, 0xC66, 0xCE6, 0xD66,
  0xDE6, 0xE50, 0xED0, 0xF20, 0x1040, 0x1090, 0x17E0, 0x1810, 0x1946, 0x19D0, 0x1A80, 0x1A90,
  0x1B50, 0x1BB0, 0x1C40, 0x1C50, 0xA620, 0xA8D0, 0xA900, 0xA9D0, 0xA9F0, 0xAA50, 0xABF0,
  0xFF10, 0x104A0, 0x10D30, 0x11066, 0x110F0, 0x11136, 0x111D0, 0x112F0, 0x11450, 0x114D0,
  0x11650, 0x116C0, 0x11730, 0x118E0, 0x11950, 0x11C50, 0x11D50, 0x11DA0, 0x16A60, 0x16AC0,
  0x16B50, 0x1D7CE, 0x1D7D8, 0x1D7E2, 0x1D7EC, 0x1D7F6, 0x1E140, 0x1E2F0, 0x1E950, 0x1FBF0]

/-- The value of a decimal digit of any script. -/
def digitValue? (c : Char) : Option Nat :=
  (decimalZeros.find? fun z => z ≤ c.toNat && c.toNat ≤ z + 9).map (c.toNat - ·)

/-- White space that may surround a literal. The four ASCII separator controls, although blank
between the fields of a line, do not count here. -/
def surroundsLiteral (c : Char) : Bool := isBlank c && !(0x1C ≤ c.toNat && c.toNat ≤ 0x1F)

/-- The digits that a text starts with and the rest. Single underscores may stand between digits;
the text is read after a digit (`afterDigit`) or where a digit has to follow. -/
def digitRun (afterDigit : Bool) : List Char → Option (List Nat × List Char)
  | [] => if afterDigit then some ([], []) else none
  | c :: rest =>
    if c = '_' then (if afterDigit then digitRun false rest else none)
    else
      match digitValue? c with
      | some d => (digitRun true rest).map fun (ds, tail) => (d :: ds, tail)
      | none => if afterDigit then some ([], c :: rest) else none

def ofDigits (digits : List Nat) : Nat := digits.foldl (fun n d => n * 10 + d) 0

/-- The most decimal digits that a literal may have. -/
def literalLimit : Nat := 4300

/-- Why a text is no integer literal. -/
inductive LiteralError where
  | notDecimal
  | tooLong (digits : Nat)
  deriving DecidableEq, Repr

/-- Digits as a number, unless there are too many. -/
def boundedDigits (digits : List Nat) : Except LiteralError Nat :=
  if literalLimit < digits.length then .error (.tooLong digits.length) else .ok (ofDigits digits)

/-- The integer that a decimal literal denotes. Too many digits are noticed before what follows
them. -/
def readInteger (cs : List Char) : Except LiteralError Int :=
  let (negative, unsigned) := match trim surroundsLiteral cs with
    | '-' :: rest => (true, rest)
    | '+' :: rest => (false, rest)
    | rest => (false, rest)
  match digitRun false unsigned with
  | none => .error .notDecimal
  | some (digits, rest) => do
    let n ← boundedDigits digits
    if !rest.isEmpty then throw .notDecimal
    return if negative then -(n : Int) else n

/-- The wording of a literal's fault; of a long text only the first 200 characters are quoted. -/
def LiteralError.message (text : String) : LiteralError → String
  | .notDecimal =>
    "invalid literal for int() with base 10: " ++ String.ofList ((quoted text).toList.take 200)
  | .tooLong digits =>
    "Exceeds the limit (4300 digits) for integer string conversion: value has " ++
      decimal digits ++ " digits; use sys.set_int_max_str_digits() to increase the limit"

end KernelProfile.Text
