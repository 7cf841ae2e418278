import KernelProfile.Bytes
import KernelProfile.Text.Numeral
import KernelProfile.Text.Utf8

/-! Public symbols in a stream of symbol records. Records of other kinds are passed over. -/
namespace KernelProfile.Pdb

/-- A public symbol; its name is absent when the bytes are not UTF-8. -/
structure PublicSymbol where
  name : Option String
  rawName : Bytes
  segment : Int
  offset : Int
  flags : Int
  deriving DecidableEq, Repr

inductive SymbolError where
  | badLength (length offset : Nat)
  | truncated (offset : Nat)
  | endOfData
  deriving DecidableEq, Repr

def SymbolError.message : SymbolError → String
  | badLength length offset =>
    "bad symbol record length " ++ Text.decimal length ++ " at offset 0x" ++ Text.hex offset
  | truncated offset => "truncated S_PUB32 record at offset 0x" ++ Text.hex offset
  | endOfData => ""

namespace PublicSymbol

/-- The kind of a public symbol's record. -/
def recordKind : Nat := 0x110E

/-- The bytes of a public symbol's record before its name. -/
def fixedSize : Nat := 10

/-- The symbol of a record's fixed bytes and those behind them; its name ends at a zero byte or with
the record. -/
def ofRecord (fixed behind : Bytes) : PublicSymbol :=
  let rawName := behind.takeWhile (· != 0)
  { name := Text.Utf8.decode? rawName
    rawName
    segment := fixed.littleAt 8 2
    offset := fixed.littleAt 4 4
    flags := fixed.littleAt 0 4 }

/-- The public symbols of a stream, up to the first record that is not framed as it should be. The
length of a record counts its kind but not itself; fewer than four bytes at the end are left
over. -/
def listFrom : Nat → Nat → Bytes → List PublicSymbol × Option SymbolError
  | 0, _, _ => ([], none)
  | bound + 1, offset, data =>
    if data.length < 4 then ([], none)
    else
      match data.split? 4 with
      | none => ([], some .endOfData)
      | some (header, body) =>
        let length := header.littleAt 0 2
        if length < 2 || body.length + 2 < length then ([], some (.badLength length offset))
        else
          let rest := listFrom bound (offset + 2 + length) (body.drop (length - 2))
          if header.littleAt 2 2 = recordKind then
            if length < 2 + fixedSize then ([], some (.truncated offset))
            else
              match body.split? fixedSize with
              | none => ([], some .endOfData)
              | some (fixed, behind) =>
                (ofRecord fixed (behind.take (length - 2 - fixedSize)) :: rest.1, rest.2)
          else rest

/-- The public symbols of a stream of symbol records. -/
def list (data : Bytes) : List PublicSymbol × Option SymbolError := listFrom data.length 0 data

end PublicSymbol
end KernelProfile.Pdb
