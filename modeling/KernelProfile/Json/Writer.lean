import KernelProfile.Json.Basic

/-! JSON text. All of it is ASCII: other characters are written as escapes of their UTF-16 units.
Without an indent everything stands on one line; with one, every member and item has a line of
its own, and an empty array or object keeps its two brackets together. -/
namespace KernelProfile.Json

/-- The escape of one UTF-16 unit. -/
def unitEscape (n : Nat) : List Char := '\\' :: 'u' :: Text.hexPadded 4 n

/-- One character as it stands in a JSON string. -/
def escapeChar (c : Char) : List Char :=
  let n := c.toNat
  if c == '"' then ['\\', '"']
  else if c == '\\' then ['\\', '\\']
  else if c == '\n' then ['\\', 'n']
  else if c == '\r' then ['\\', 'r']
  else if c == '\t' then ['\\', 't']
  else if n == 0x0C then ['\\', 'f']
  else if n == 0x08 then ['\\', 'b']
  else if 0x20 ≤ n && n < 0x7F then [c]
  else if n < 0x10000 then unitEscape n
  else unitEscape (0xD800 + (n - 0x10000) / 1024) ++ unitEscape (0xDC00 + (n - 0x10000) % 1024)

def stringChars (s : String) : List Char :=
  '"' :: s.toList.flatMap escapeChar ++ ['"']

/-- The text of a double. -/
def floatChars : Binary64 → List Char
  | .nan => "NaN".toList
  | .infinite negative => (if negative then "-Infinity" else "Infinity").toList
  | x@(.finite ..) => x.display.toList

/-- What separates the pieces of a text: the line break and indentation at a depth, and what
follows the comma between two items on one line. -/
structure Layout where
  indent : Option Nat

namespace Layout

def lineBreak (layout : Layout) (depth : Nat) : List Char :=
  match layout.indent with
  | none => []
  | some width => '\n' :: List.replicate (width * depth) ' '

def separator (layout : Layout) (depth : Nat) : List Char :=
  match layout.indent with
  | none => [',', ' ']
  | some _ => ',' :: layout.lineBreak depth

end Layout

mutual

/-- The text of a value whose first line starts at the given depth. -/
def valueChars (layout : Layout) (depth : Nat) : Json → List Char
  | .null => "null".toList
  | .bool true => "true".toList
  | .bool false => "false".toList
  | .int n => Text.decimalChars n
  | .float x => floatChars x
  | .str s => stringChars s
  | .arr [] => ['[', ']']
  | .arr (item :: items) =>
    '[' :: layout.lineBreak (depth + 1) ++ valueChars layout (depth + 1) item ++
      itemsChars layout (depth + 1) items ++ layout.lineBreak depth ++ [']']
  | .obj [] => ['{', '}']
  | .obj ((key, value) :: members) =>
    '{' :: layout.lineBreak (depth + 1) ++ stringChars key ++ [':', ' '] ++
      valueChars layout (depth + 1) value ++
      membersChars layout (depth + 1) members ++ layout.lineBreak depth ++ ['}']

/-- The further items of an array, each behind its separator. -/
def itemsChars (layout : Layout) (depth : Nat) : List Json → List Char
  | [] => []
  | item :: items =>
    layout.separator depth ++ valueChars layout depth item ++ itemsChars layout depth items

/-- The further members of an object, each behind its separator. -/
def membersChars (layout : Layout) (depth : Nat) : List (String × Json) → List Char
  | [] => []
  | (key, value) :: members =>
    layout.separator depth ++ stringChars key ++ [':', ' '] ++ valueChars layout depth value ++
      membersChars layout depth members

end

/-- The text of a value, on one line or with an indent per level. -/
def write (indent : Option Nat) (value : Json) : String :=
  String.ofList (valueChars ⟨indent⟩ 0 value)

end KernelProfile.Json
