import KernelProfile.Bytes
import KernelProfile.Table
import KernelProfile.Text.Numeral

/-! The header of the debug information stream: the machine, the stream of symbol records, and the
streams of the optional debug header, which lies behind six substreams. -/
namespace KernelProfile.Pdb

inductive HeaderError where
  | tooShort (size : Nat)
  | endOfData
  | negativeSize
  deriving DecidableEq, Repr

def HeaderError.message : HeaderError → String
  | tooShort size => "DBI stream too short (" ++ Text.decimal size ++ " bytes)"
  | endOfData => ""
  | negativeSize => "negative DBI substream size"

/-- What the entries of the optional debug header stand for, in their order. -/
def debugStreamNames : List String :=
  ["fpo", "exception", "fixup", "omap_to_src", "omap_from_src", "section_header",
    "token_rid_map", "xdata", "pdata", "new_fpo", "section_header_orig"]

structure DebugInformation where
  machine : Nat
  symbolRecords : Nat
  debugStreams : Table Nat

namespace DebugInformation

def headerSize : Nat := 64

/-- The offsets of the announced substream sizes. -/
def substreamSizeOffsets : List Nat := [24, 28, 32, 36, 40, 52]

/-- The 16-bit stream indices of a debug header; an odd byte at the end is left over. -/
def streamIndices : Bytes → List Nat
  | a :: b :: rest => Bytes.littleNat [a, b] :: streamIndices rest
  | _ => []

/-- The stream index that stands for no stream. -/
def noStream : Nat := 0xFFFF

def ofBytes (data : Bytes) : Except HeaderError DebugInformation :=
  if data.length < headerSize then .error (.tooShort data.length)
  else
    match data.split? headerSize with
    | none => .error .endOfData
    | some (header, _) =>
      let sizeAt (offset : Nat) : Int := Bytes.signed 4 (header.littleAt offset 4)
      let substreams := substreamSizeOffsets.map sizeAt
      let debugSize := sizeAt 48
      if substreams.any (· < 0) || debugSize < 0 then .error .negativeSize
      else
        let offset := headerSize + (substreams.foldl (· + ·) 0).toNat
        let indices := streamIndices (data.slice offset debugSize.toNat)
        let present := (debugStreamNames.zip indices).filter fun e => e.2 != noStream
        .ok ⟨header.littleAt 58 2, header.littleAt 20 2, .ofList present⟩

end DebugInformation
end KernelProfile.Pdb
