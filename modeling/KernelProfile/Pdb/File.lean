import KernelProfile.CodeView.Collect
import KernelProfile.Msf
import KernelProfile.Pdb.AddressMap
import KernelProfile.Pdb.DebugInformation
import KernelProfile.Profile.Basic

/-! Profiles of program databases: the architecture from the machine of the debug information, the
symbols from the public symbol records, and the types from the type records. -/
namespace KernelProfile.Pdb

/-- Why a program database gives no profile. -/
inductive Error where
  | truncated
  | container (e : MsfError)
  | header (e : HeaderError)
  | typeStream (e : CodeView.StreamError)
  | symbols (e : SymbolError)
  | noSectionHeaders
  | noPlace (e : NoPlace)
  | collect (e : CodeView.CollectError)
  | architecture (e : UnsupportedArchitecture)
  deriving DecidableEq, Repr

namespace Error

def message : Error → String
  | truncated => "truncated PDB"
  | container e => e.message
  | header e => e.message
  | typeStream e => e.message
  | symbols e => e.message
  | noSectionHeaders => "PDB has no section header stream"
  | noPlace _ => ""
  | collect e => e.message
  | architecture e => e.message

/-- A container's error as one of the whole file: data that ends too early truncates it. -/
def ofMsf : MsfError → Error
  | .endOfData => truncated
  | e => container e

/-- An error of the debug information as one of the whole file. -/
def ofHeader : HeaderError → Error
  | .endOfData => truncated
  | e => header e

/-- An error of the type records' framing as one of the whole file. -/
def ofTypeStream : CodeView.StreamError → Error
  | .endOfData => truncated
  | e => typeStream e

/-- Errors that tell what is wrong with the form of the file. The others are an architecture that
is not known, an offset that the system does not let one go to, and what the checks in front of a
read, a look-up or a value are there to prevent. -/
def isFormat : Error → Bool
  | container .endOfData | container (.outOfReach _) => false
  | header .endOfData | typeStream .endOfData | symbols .endOfData => false
  | noPlace _ => false
  | collect (.notAnAggregate _) | collect (.variant _) => false
  | architecture _ => false
  | _ => true

end Error

/-- A program database with its debug information and type records. -/
structure File where
  container : Msf
  debug : DebugInformation
  types : CodeView.TypeStream

namespace File

/-- The stream of type records. -/
def typeStreamIndex : Nat := 2

/-- The stream of debug information. -/
def debugStreamIndex : Nat := 3

def stream (container : Msf) (index : Nat) : Except Error Bytes :=
  (container.streamData index).mapError .ofMsf

/-- The program database of a file's bytes. -/
def ofBytes (bytes : Bytes) (access : Access := .disk) : Except Error File := do
  let container ← (Msf.ofBytes bytes access).mapError Error.ofMsf
  let debug ← (DebugInformation.ofBytes (← stream container debugStreamIndex)).mapError
    Error.ofHeader
  let types ← (CodeView.TypeStream.ofBytes (← stream container typeStreamIndex)).mapError
    Error.ofTypeStream
  return ⟨container, debug, types⟩

/-- How addresses are found: through the old section headers and the rearrangement where both are
there, otherwise through the section headers alone. -/
def addressMap (f : File) : Except Error AddressMap := do
  let streams := f.debug.debugStreams
  match streams.get? "section_header" with
  | none => throw .noSectionHeaders
  | some plain =>
    let addresses (index : Nat) : Except Error (List Int) := do
      return (SectionHeader.ofBytes (← stream f.container index)).map fun s => s.virtualAddress
    match streams.get? "omap_from_src", streams.get? "section_header_orig" with
    | some omapStream, some oldHeaders =>
      let omap := OmapEntry.sort (OmapEntry.ofBytes (← stream f.container omapStream))
      return ⟨← addresses oldHeaders, omap⟩
    | _, _ => return ⟨← addresses plain, []⟩

/-- The public symbols with their addresses. -/
def symbols (f : File) : Except Error (Table Int) := do
  let map ← f.addressMap
  match PublicSymbol.list (← stream f.container f.debug.symbolRecords) with
  | (list, none) => (map.symbolTable list).mapError .noPlace
  | (_, some e) => throw (.symbols e)

/-- The profile of a program database. -/
def profile (f : File) : Except Error Profile := do
  let architecture ← (Architecture.ofPeMachine f.debug.machine).mapError .architecture
  let symbols ← f.symbols
  let collected ← (f.types.table.collect architecture.pointerSize).mapError .collect
  return ⟨architecture, symbols, collected.types⟩

end File

/-- The profile of a program database's bytes. -/
def profileOf (bytes : Bytes) (access : Access := .disk) : Except Error Profile := do
  (← File.ofBytes bytes access).profile

end KernelProfile.Pdb
