/-! UTF-8 as a state machine over bytes. A sequence that breaks off, or a byte that starts none,
is one invalid part; the parts are maximal, so a broken sequence counts once and the byte that
broke it is read afresh. -/
namespace KernelProfile.Text.Utf8

/-- A sequence under way: the bits read so far, the bytes still missing (one or more), and the
range that the next byte has to lie in. -/
structure Pending where
  bits : Nat
  missing : Nat
  low : Nat
  high : Nat

/-- What a byte is when no sequence is under way. -/
inductive Start where
  | char (c : Char)
  | lead (p : Pending)
  | invalid

/-- Classify a first byte. The second byte of a longer sequence is restricted so that overlong
forms, surrogates and values past the last plane never arise. -/
def start (b : UInt8) : Start :=
  let n := b.toNat
  if n < 0x80 then .char (Char.ofNat n)
  else if n < 0xC2 then .invalid
  else if n < 0xE0 then .lead ⟨n - 0xC0, 1, 0x80, 0xBF⟩
  else if n == 0xE0 then .lead ⟨0, 2, 0xA0, 0xBF⟩
  else if n == 0xED then .lead ⟨0xD, 2, 0x80, 0x9F⟩
  else if n < 0xF0 then .lead ⟨n - 0xE0, 2, 0x80, 0xBF⟩
  else if n == 0xF0 then .lead ⟨0, 3, 0x90, 0xBF⟩
  else if n < 0xF4 then .lead ⟨n - 0xF0, 3, 0x80, 0xBF⟩
  else if n == 0xF4 then .lead ⟨4, 3, 0x80, 0x8F⟩
  else .invalid

/-- The characters of a byte string, `none` standing for a maximal invalid part. -/
def scan : Option Pending → List UInt8 → List (Option Char)
  | none, [] => []
  | some _, [] => [none]
  | none, b :: rest =>
    match start b with
    | .char c => some c :: scan none rest
    | .lead p => scan (some p) rest
    | .invalid => none :: scan none rest
  | some p, b :: rest =>
    if p.low ≤ b.toNat && b.toNat ≤ p.high then
      let bits := p.bits * 64 + (b.toNat - 0x80)
      if p.missing ≤ 1 then some (Char.ofNat bits) :: scan none rest
      else scan (some ⟨bits, p.missing - 1, 0x80, 0xBF⟩) rest
    else
      match start b with
      | .char c => none :: some c :: scan none rest
      | .lead q => none :: scan (some q) rest
      | .invalid => none :: none :: scan none rest

/-- What is wrong with an invalid part. -/
inductive Defect where
  | badStart
  | badContinuation
  | endOfData
  deriving DecidableEq, Repr

/-- The first invalid part of a byte string: where it starts, its first byte and its length. -/
structure Fault where
  position : Nat
  first : UInt8
  length : Nat
  defect : Defect
  deriving DecidableEq, Repr

/-- A sequence under way with the place and the value of its first byte. -/
structure Opened where
  pending : Pending
  position : Nat
  first : UInt8

/-- The first invalid part from a position on. -/
def faultFrom (position : Nat) : Option Opened → List UInt8 → Option Fault
  | none, [] => none
  | some o, [] => some ⟨o.position, o.first, position - o.position, .endOfData⟩
  | none, b :: rest =>
    match start b with
    | .char _ => faultFrom (position + 1) none rest
    | .lead p => faultFrom (position + 1) (some ⟨p, position, b⟩) rest
    | .invalid => some ⟨position, b, 1, .badStart⟩
  | some o, b :: rest =>
    let p := o.pending
    if p.low ≤ b.toNat && b.toNat ≤ p.high then
      if p.missing ≤ 1 then faultFrom (position + 1) none rest
      else
        let bits := p.bits * 64 + (b.toNat - 0x80)
        faultFrom (position + 1) (some { o with pending := ⟨bits, p.missing - 1, 0x80, 0xBF⟩ }) rest
    else some ⟨o.position, o.first, position - o.position, .badContinuation⟩

def fault? (bytes : List UInt8) : Option Fault := faultFrom 0 none bytes

/-- The text of a valid byte string. -/
def decode? (bytes : List UInt8) : Option String :=
  ((scan none bytes).mapM id).map String.ofList

/-- The text with U+FFFD in place of every maximal invalid part. -/
def decodeLossy (bytes : List UInt8) : String :=
  String.ofList ((scan none bytes).map fun c => c.getD '\uFFFD')

def encode (s : String) : List UInt8 := s.toUTF8.toList

end KernelProfile.Text.Utf8
