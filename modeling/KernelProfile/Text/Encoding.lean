import KernelProfile.Text.Utf8

/-! Text given as bytes of an unnamed encoding. The first bytes tell which of UTF-8, UTF-16 and
UTF-32 is meant: a byte order mark if there is one, otherwise where the zero bytes of a text that
starts with an ASCII character lie. Half of a surrogate pair on its own is a fault, since no text
can hold it. -/
namespace KernelProfile.Text

/-- Why bytes are not decoded: they are no text of their encoding, or half of a surrogate pair
stands on its own among them. -/
inductive DecodeFault where
  | invalid
  | loneSurrogate
  deriving DecidableEq, Repr

/-- An encoding of text, the wider ones with their byte order. -/
inductive Encoding where
  | utf8
  | utf16 (littleEndian : Bool)
  | utf32 (littleEndian : Bool)
  deriving DecidableEq, Repr

namespace Encoding

/-- The encoding of a byte string and the bytes behind its byte order mark. -/
def detect : List UInt8 → Encoding × List UInt8
  | 0 :: 0 :: 0xFE :: 0xFF :: rest => (.utf32 false, rest)
  | 0xFF :: 0xFE :: 0 :: 0 :: rest => (.utf32 true, rest)
  | 0xFE :: 0xFF :: rest => (.utf16 false, rest)
  | 0xFF :: 0xFE :: rest => (.utf16 true, rest)
  | 0xEF :: 0xBB :: 0xBF :: rest => (.utf8, rest)
  | bytes@(a :: b :: c :: d :: _) =>
    if a == 0 then (if b == 0 then .utf32 false else .utf16 false, bytes)
    else if b == 0 then (if c == 0 && d == 0 then .utf32 true else .utf16 true, bytes)
    else (.utf8, bytes)
  | [a, b] =>
    if a == 0 then (.utf16 false, [a, b])
    else if b == 0 then (.utf16 true, [a, b])
    else (.utf8, [a, b])
  | bytes => (.utf8, bytes)

def isSurrogate (n : Nat) : Bool := 0xD800 ≤ n && n < 0xE000

/-- The character of a code point. -/
def charOf (n : Nat) : Except DecodeFault Char :=
  if n.isValidChar then .ok (Char.ofNat n)
  else if isSurrogate n then .error .loneSurrogate
  else .error .invalid

/-- The 16-bit units of a byte string of even length. -/
def units16 (littleEndian : Bool) : List UInt8 → Option (List Nat)
  | [] => some []
  | [_] => none
  | a :: b :: rest =>
    let unit := if littleEndian then b.toNat * 256 + a.toNat else a.toNat * 256 + b.toNat
    (units16 littleEndian rest).map (unit :: ·)

/-- Characters of UTF-16 units. -/
def ofUnits16 : List Nat → Except DecodeFault (List Char)
  | [] => .ok []
  | [u] => (charOf u).map ([·])
  | u :: w :: rest =>
    if 0xD800 ≤ u && u < 0xDC00 && 0xDC00 ≤ w && w < 0xE000 then
      (ofUnits16 rest).map (Char.ofNat (0x10000 + (u - 0xD800) * 1024 + (w - 0xDC00)) :: ·)
    else do return (← charOf u) :: (← ofUnits16 (w :: rest))

/-- Characters of a byte string of 32-bit units. -/
def ofBytes32 (littleEndian : Bool) : List UInt8 → Except DecodeFault (List Char)
  | [] => .ok []
  | a :: b :: c :: d :: rest => do
    let n := if littleEndian then
        ((d.toNat * 256 + c.toNat) * 256 + b.toNat) * 256 + a.toNat
      else ((a.toNat * 256 + b.toNat) * 256 + c.toNat) * 256 + d.toNat
    return (← charOf n) :: (← ofBytes32 littleEndian rest)
  | _ => .error .invalid

/-- Whether three bytes in a row would be the UTF-8 form of a surrogate. -/
def spellsSurrogate : List UInt8 → Bool
  | a :: b :: c :: rest =>
    (a == 0xED && 0xA0 ≤ b && b ≤ 0xBF && 0x80 ≤ c && c ≤ 0xBF) || spellsSurrogate (b :: c :: rest)
  | _ => false

def decode (encoding : Encoding) (bytes : List UInt8) : Except DecodeFault String :=
  match encoding with
  | .utf8 =>
    if spellsSurrogate bytes then .error .loneSurrogate
    else
      match Utf8.decode? bytes with
      | none => .error .invalid
      | some s => .ok s
  | .utf16 le =>
    match units16 le bytes with
    | none => .error .invalid
    | some units => (ofUnits16 units).map String.ofList
  | .utf32 le => (ofBytes32 le bytes).map String.ofList

end Encoding

/-- The text of a byte string in the encoding that its first bytes show. -/
def decodeDetected (bytes : List UInt8) : Except DecodeFault String :=
  let (encoding, body) := Encoding.detect bytes
  encoding.decode body

end KernelProfile.Text
