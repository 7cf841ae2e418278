import KernelProfile.Text.Numeral

/-! The architectures that a profile can be for, and how the two file formats name them. -/
namespace KernelProfile

inductive Architecture where
  | x86 | arm | amd64 | arm64
  deriving DecidableEq, Repr

/-- An architecture that is none of the known ones, as the message shows it. -/
structure UnsupportedArchitecture where
  shown : String
  deriving DecidableEq, Repr

def UnsupportedArchitecture.message (e : UnsupportedArchitecture) : String :=
  "unsupported architecture: " ++ e.shown

namespace Architecture

def all : List Architecture := [x86, arm, amd64, arm64]

def tag : Architecture → String
  | x86 => "X86"
  | arm => "Arm"
  | amd64 => "Amd64"
  | arm64 => "Arm64"

def ofTag? (s : String) : Option Architecture := all.find? fun a => a.tag == s

/-- The architecture of a tag; the spelling has to be exact. -/
def parse (s : String) : Except UnsupportedArchitecture Architecture :=
  match ofTag? s with
  | some a => .ok a
  | none => .error ⟨Text.quoted s⟩

/-- The size of a pointer in bytes. -/
def pointerSize : Architecture → Nat
  | x86 | arm => 4
  | amd64 | arm64 => 8

/-- The architecture of a machine number of the portable executable format. -/
def ofPeMachine (machine : Int) : Except UnsupportedArchitecture Architecture :=
  if machine = 0x14C then .ok x86
  else if machine = 0x8664 then .ok amd64
  else if machine = 0x1C0 || machine = 0x1C4 then .ok arm
  else if machine = 0xAA64 then .ok arm64
  else .error ⟨Text.quoted ("PE machine 0x" ++ Text.hex machine)⟩

/-- The architecture of a machine name of the executable and linkable format. -/
def ofElfMachine (machine : String) : Except UnsupportedArchitecture Architecture :=
  if machine = "EM_386" then .ok x86
  else if machine = "EM_X86_64" then .ok amd64
  else if machine = "EM_ARM" then .ok arm
  else if machine = "EM_AARCH64" then .ok arm64
  else .error ⟨Text.quoted machine⟩

theorem ofTag?_tag (a : Architecture) : ofTag? a.tag = some a := by
  cases a <;> rfl

end Architecture
end KernelProfile
