import KernelProfile.Table
import KernelProfile.Text.Numeral

/-! Registering definitions that many compilation units repeat. A definition is worked on once per
declaration site; where two definitions share a name, the one with strictly more fields stays,
so that the outcome does not hang on the order of the units. -/
namespace KernelProfile

universe u

/-- Where a definition was declared. -/
structure Site where
  file : String
  line : Int
  column : Int
  deriving DecidableEq, Repr

namespace Site

def display (s : Site) : String :=
  s.file ++ ":" ++ Text.decimal s.line ++ ":" ++ Text.decimal s.column

end Site

/-- The declaration sites whose definitions have been taken up, latest first. -/
structure Claims where
  sites : List Site := []
  deriving DecidableEq

namespace Claims

def contains (c : Claims) (site : Site) : Bool := site ∈ c.sites

def size (c : Claims) : Nat := c.sites.length

/-- Claim a site: whether it was still free, and the claims with it. -/
def claim (c : Claims) (site : Site) : Bool × Claims :=
  if site ∈ c.sites then (false, c) else (true, ⟨site :: c.sites⟩)

/-- Whether a definition has to be taken up. One without a complete site cannot be recognised
again and always has to be. -/
def admit? (c : Claims) : Option Site → Bool × Claims
  | none => (true, c)
  | some site => c.claim site

end Claims

namespace Table

/-- Put a definition under a name unless the one there has at least as many fields; the second
component tells whether it was put. -/
def register {α : Type u} (fieldCount : α → Nat) (t : Table α) (name : String) (d : α) :
    Table α × Bool :=
  match t.get? name with
  | none => (t.insert name d, true)
  | some old => if fieldCount old < fieldCount d then (t.insert name d, true) else (t, false)

end Table
end KernelProfile
