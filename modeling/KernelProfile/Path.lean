/-! Paths of files. A path is kept without empty parts and without parts that stand for the place
itself, so that one place has fewer spellings; a step up is kept, because it may lead through a
link. -/
namespace KernelProfile

/-- A path: how many slashes it starts with, and its parts. -/
structure Path where
  root : Nat
  parts : List String
  deriving DecidableEq, Repr

namespace Path

/-- The parts between slashes. -/
def split : List Char → List (List Char)
  | [] => [[]]
  | c :: rest =>
    if c = '/' then [] :: split rest
    else
      match split rest with
      | [] => [[c]]
      | part :: parts => (c :: part) :: parts

/-- Whether a part is a step to somewhere else. -/
def isStep (part : List Char) : Bool := part != [] && part != ['.']

/-- The slashes that a path starts with: two are kept apart from one, more are as good as one. -/
def rootOf (cs : List Char) : Nat :=
  match (cs.takeWhile (· == '/')).length with
  | 0 => 0
  | 2 => 2
  | _ => 1

def ofChars (cs : List Char) : Path where
  root := rootOf cs
  parts := ((split cs).filter isStep).map String.ofList

def ofText (s : String) : Path := ofChars s.toList

/-- The path as text; the empty path is the place itself. -/
def text (p : Path) : String :=
  if p.root = 0 && p.parts.isEmpty then "."
  else String.ofList (List.replicate p.root '/') ++ "/".intercalate p.parts

/-- A name in the directory of a path. -/
def child (p : Path) (name : String) : Path := { p with parts := p.parts ++ [name] }

/-- The directory that holds what a path leads to. -/
def parent (p : Path) : Path := { p with parts := p.parts.dropLast }

/-- One part more, a step up taking back the part before it where there is one. -/
def follow (parts : List String) (part : String) : List String :=
  if part = ".." && !parts.isEmpty && parts.getLast? != some ".." then parts.dropLast
  else parts ++ [part]

/-- The path with steps up carried out. -/
def direct (p : Path) : Path := { p with parts := p.parts.foldl follow [] }

/-- The order of listings, part by part. -/
def partsBefore : List String → List String → Bool
  | [], _ => true
  | _ :: _, [] => false
  | a :: as, b :: bs => if a = b then partsBefore as bs else decide (a < b)

def before (p q : Path) : Bool :=
  if p.root = q.root then partsBefore p.parts q.parts else decide (p.root < q.root)

end Path
end KernelProfile
