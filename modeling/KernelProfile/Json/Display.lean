import KernelProfile.Json.Basic

/-! How an error message shows a document value that stands where another kind was wanted. -/
namespace KernelProfile.Json

mutual

/-- A value as a message shows it. -/
def display : Json → String
  | .null => "None"
  | .bool true => "True"
  | .bool false => "False"
  | .int n => Text.decimal n
  | .float x => x.display
  | .str s => Text.quoted s
  | .arr [] => "[]"
  | .arr (item :: items) => "[" ++ display item ++ displayItems items ++ "]"
  | .obj [] => "\x7b\x7d"
  | .obj ((key, value) :: members) =>
    "\x7b" ++ Text.quoted key ++ ": " ++ display value ++ displayMembers members ++ "\x7d"

def displayItems : List Json → String
  | [] => ""
  | item :: items => ", " ++ display item ++ displayItems items

def displayMembers : List (String × Json) → String
  | [] => ""
  | (key, value) :: members =>
    ", " ++ Text.quoted key ++ ": " ++ display value ++ displayMembers members

end

end KernelProfile.Json
