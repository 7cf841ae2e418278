import KernelProfile.Dwarf.File
import KernelProfile.Pdb.File
import KernelProfile.Profile.Document
import KernelProfile.Profile.Resolve
import KernelProfile.Settings.Basic

/-! What can go wrong in a run, and how the run words it. -/
namespace KernelProfile.CommandLine

/-- The wording of bytes that are no text. -/
def undecodableText (f : Text.Utf8.Fault) : String :=
  let place := if f.length = 1 then
      "byte 0x" ++ String.ofList (Text.hexPadded 2 f.first.toNat) ++ " in position " ++
        Text.decimal f.position
    else
      "bytes in position " ++ Text.decimal f.position ++ "-" ++
        Text.decimal (f.position + f.length - 1)
  let defect := match f.defect with
    | .badStart => "invalid start byte"
    | .badContinuation => "invalid continuation byte"
    | .endOfData => "unexpected end of data"
  "'utf-8' codec can't decode " ++ place ++ ": " ++ defect

/-- Why settings cannot be used. -/
inductive SettingsError where
  | undecodable (f : Text.Utf8.Fault)
  | name (f : EnvFile.NameFault)
  | architecture (e : UnsupportedArchitecture)
  deriving DecidableEq, Repr

def SettingsError.message : SettingsError → String
  | undecodable f => undecodableText f
  | name f => f.message
  | architecture e => e.message

/-- Why a command has no result. -/
inductive Failure where
  | missing (file : Path)
  | undecodable (f : Text.Utf8.Fault)
  | document (e : LoadError)
  | lookup (e : LookupError)
  | noFieldName (path : String)
  | nothingAsked
  | pdb (e : Pdb.Error)
  | dwarf (e : Dwarf.Error)

namespace Failure

def message : Failure → String
  | missing file => "File not found: " ++ file.text
  | undecodable f => undecodableText f
  | document e => e.message
  | lookup e => e.message
  | noFieldName path => "expected STRUCT.FIELD, got " ++ Text.quoted path
  | nothingAsked => "type not found: None"
  | pdb e => e.message
  | dwarf e => e.message

/-- Failures that are no fault of a file's form but a case that was not foreseen: they end the run
without being told as an error of the input. -/
def isUnforeseen : Failure → Bool
  | document .infiniteAddress => true
  | document .loneSurrogate => true
  | pdb (.container (.outOfReach _)) => true
  | pdb (.collect (.notAnAggregate _)) => true
  | pdb (.symbols .endOfData) => true
  | pdb (.noPlace _) => true
  | dwarf (.noEntry _) => true
  | _ => false

end Failure
end KernelProfile.CommandLine
