/-! White space in symbol tables: which characters separate fields, and the fields of a line. -/
namespace KernelProfile.Text

/-- The characters that separate fields: the ASCII layout and separator controls, the next-line
control, and every space and line or paragraph separator of Unicode. -/
def isBlank (c : Char) : Bool :=
  let n := c.toNat
  (0x09 ≤ n && n ≤ 0x0D) || (0x1C ≤ n && n ≤ 0x20) || n == 0x85 || n == 0xA0 || n == 0x1680 ||
  (0x2000 ≤ n && n ≤ 0x200A) || n == 0x2028 || n == 0x2029 || n == 0x202F || n == 0x205F ||
  n == 0x3000

/-- Put a character in front of the first field. -/
def prependTo (c : Char) : List (List Char) → List (List Char)
  | [] => [[c]]
  | f :: fs => (c :: f) :: fs

/-- The maximal runs of characters that are not blank, in order. -/
def fields : List Char → List (List Char)
  | [] => []
  | [c] => if isBlank c then [] else [[c]]
  | c :: d :: rest =>
    if isBlank c then fields (d :: rest)
    else if isBlank d then [c] :: fields (d :: rest)
    else prependTo c (fields (d :: rest))

/-- A text without the characters of a kind at its end. -/
def trimEnd (kind : Char → Bool) (cs : List Char) : List Char :=
  (cs.reverse.dropWhile kind).reverse

/-- A text without the characters of a kind at its two ends. -/
def trim (kind : Char → Bool) (cs : List Char) : List Char := trimEnd kind (cs.dropWhile kind)

end KernelProfile.Text
