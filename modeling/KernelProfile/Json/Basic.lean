import KernelProfile.Binary64
import KernelProfile.Table

/-! JSON values. Integers keep every digit, other numbers are doubles, and an object keeps its
members in the order of their first key. -/
namespace KernelProfile

inductive Json where
  | null
  | bool (b : Bool)
  | int (n : Int)
  | float (x : Binary64)
  | str (s : String)
  | arr (items : List Json)
  | obj (members : List (String × Json))
  deriving Inhabited

namespace Json

/-- The member of an object under a key; other values have none. -/
def get? (key : String) : Json → Option Json
  | .obj members => members.lookup key
  | _ => none

def ofNat (n : Nat) : Json := .int n

end Json
end KernelProfile
