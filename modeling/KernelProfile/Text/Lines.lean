/-! Two notions of line. A text held in memory ends its lines at every boundary character and
drops them; a file ends its lines at line feed, carriage return or the two together, and each
line keeps a line feed for whichever ended it. -/
namespace KernelProfile.Text

/-- The characters that end a line of a text held in memory. -/
def isLineBoundary (c : Char) : Bool :=
  let n := c.toNat
  (0x0A ≤ n && n ≤ 0x0D) || (0x1C ≤ n && n ≤ 0x1E) || n == 0x85 || n == 0x2028 || n == 0x2029

/-- Lines of a text, `line` being the reversed start of the current one. A carriage return
followed by a line feed is one boundary; a text that ends with a boundary has no empty last line. -/
def splitLinesFrom (line : List Char) : List Char → List (List Char)
  | [] => if line.isEmpty then [] else [line.reverse]
  | '\r' :: '\n' :: rest => line.reverse :: splitLinesFrom [] rest
  | c :: rest =>
    if isLineBoundary c then line.reverse :: splitLinesFrom [] rest
    else splitLinesFrom (c :: line) rest

def splitLines (cs : List Char) : List (List Char) := splitLinesFrom [] cs

/-- Every carriage return, alone or before a line feed, read as a line feed. -/
def foldNewlines : List Char → List Char
  | [] => []
  | '\r' :: '\n' :: rest => '\n' :: foldNewlines rest
  | '\r' :: rest => '\n' :: foldNewlines rest
  | c :: rest => c :: foldNewlines rest

/-- Cut after every line feed. -/
def cutAfterNewline (line : List Char) : List Char → List (List Char)
  | [] => if line.isEmpty then [] else [line.reverse]
  | '\n' :: rest => ('\n' :: line).reverse :: cutAfterNewline [] rest
  | c :: rest => cutAfterNewline (c :: line) rest

/-- The lines of a file, each with the line feed that stands for its end. -/
def fileLines (cs : List Char) : List (List Char) := cutAfterNewline [] (foldNewlines cs)

end KernelProfile.Text
