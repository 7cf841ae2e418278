import KernelProfile.Text.Numeral

/-! Double-precision numbers in exact arithmetic: the nearest one to a decimal, its integer part,
its order against the integers, and the shortest decimal that reads back as it. Documents may
hold such numbers where integers are meant. -/
namespace KernelProfile

/-- A double: `m * 2 ^ e` with a sign, an infinity, or not a number. -/
inductive Binary64 where
  | nan
  | infinite (negative : Bool)
  | finite (negative : Bool) (m : Nat) (e : Int)
  deriving DecidableEq, Repr

namespace Binary64

/-- A fraction rounded to the nearest integer, a half to the even one. -/
def roundHalfEven (num den : Nat) : Nat :=
  let q := num / den
  let r := num % den
  if 2 * r < den then q else if den < 2 * r then q + 1 else q + q % 2

/-- The exponent at which a positive fraction has a 53-bit integer part, not below that of the
subnormal numbers. -/
def exponentOf (num den : Nat) : Int :=
  let guess : Int := (Nat.log2 num : Int) - Nat.log2 den - 52
  let floorAt (e : Int) : Nat :=
    if 0 ≤ e then num / (den * 2 ^ e.toNat) else num * 2 ^ (-e).toNat / den
  let e := if floorAt guess < 2 ^ 52 then guess - 1 else guess
  max e (-1074)

/-- The double nearest to a fraction. -/
def ofFraction (negative : Bool) (num den : Nat) : Binary64 :=
  if num == 0 then .finite negative 0 (-1074)
  else
    let e := exponentOf num den
    let m := if 0 ≤ e then roundHalfEven num (den * 2 ^ e.toNat)
      else roundHalfEven (num * 2 ^ (-e).toNat) den
    let (m, e) := if m == 2 ^ 53 then (2 ^ 52, e + 1) else (m, e)
    if 971 < e then .infinite negative else .finite negative m e

/-- The double nearest to `digits * 10 ^ exponent`. Exponents far beyond the range are decided by
the number of digits, so that no huge power is ever formed. -/
def ofDecimal (negative : Bool) (digits : Nat) (exponent : Int) : Binary64 :=
  let places : Int := (Nat.toDigits 10 digits).length
  if digits == 0 || places + exponent < -400 then .finite negative 0 (-1074)
  else if 400 < places + exponent then .infinite negative
  else if 0 ≤ exponent then ofFraction negative (digits * 10 ^ exponent.toNat) 1
  else ofFraction negative digits (10 ^ (-exponent).toNat)

/-- The integer part of a finite magnitude. -/
def floorMagnitude (m : Nat) (e : Int) : Nat :=
  if 0 ≤ e then m * 2 ^ e.toNat else m / 2 ^ (-e).toNat

/-- Whether a finite magnitude is an integer. -/
def isWhole (m : Nat) (e : Int) : Bool := 0 ≤ e || m % 2 ^ (-e).toNat == 0

/-- Whether a double lies between two integers, ends included. -/
def between (low high : Int) : Binary64 → Bool
  | .nan => false
  | .infinite _ => false
  | .finite negative m e =>
    let n : Int := floorMagnitude m e
    let floor := if negative then (if isWhole m e then -n else -n - 1) else n
    let ceiling := if negative then -n else if isWhole m e then n else n + 1
    low ≤ floor && ceiling ≤ high

/-- The decimal order of a positive magnitude: the number of digits before the point, or minus the
number of zeros after it. -/
def decimalOrder (m : Nat) (e : Int) : Int :=
  if 0 ≤ e then (Nat.toDigits 10 (m * 2 ^ e.toNat)).length
  else
    let den := 2 ^ (-e).toNat
    if den ≤ m then (Nat.toDigits 10 (m / den)).length
    else
      let zeros : Nat := ((List.range 400).find? (fun k => den ≤ m * 10 ^ (k + 1))).getD 400
      Int.negOfNat zeros

/-- The integer next below `m * 2 ^ e / 10 ^ k` and the integer nearest to it, a half going to the
even one. -/
def scaled (m : Nat) (e k : Int) : Nat × Nat :=
  let num := m * (if 0 ≤ e then 2 ^ e.toNat else 1) * (if k < 0 then 10 ^ (-k).toNat else 1)
  let den := (if 0 ≤ e then 1 else 2 ^ (-e).toNat) * (if k < 0 then 1 else 10 ^ k.toNat)
  (num / den, roundHalfEven num den)

/-- The fewest digits, with their exponent, that read back as a positive magnitude; of two
decimals of that length the nearer, and of two equally near the one with the even last digit. -/
def shortest (m : Nat) (e : Int) : Nat × Int :=
  let value := Binary64.finite false m e
  let order := decimalOrder m e
  let candidates := (List.range 17).filterMap fun n =>
    let k := order - (n + 1 : Nat)
    let (low, near) := scaled m e k
    let far := if near = low then low + 1 else low
    if ofDecimal false near k == value then some (near, k)
    else if ofDecimal false far k == value then some (far, k)
    else none
  candidates.headD (0, 0)

/-- Trailing zeros moved into the exponent. -/
def stripZeros : Nat → Nat → Int → Nat × Int
  | 0, d, k => (d, k)
  | fuel + 1, d, k => if d % 10 == 0 && d != 0 then stripZeros fuel (d / 10) (k + 1) else (d, k)

/-- The text of a finite magnitude: positional from 1e-4 up to below 1e16 and always with a
point, otherwise with an exponent of at least two digits. -/
def magnitudeText (m : Nat) (e : Int) : String :=
  if m == 0 then "0.0"
  else
    let (d, k) := shortest m e
    let (d, k) := stripZeros 20 d k
    let digits := Nat.toDigits 10 d
    let point : Int := digits.length + k
    if -4 < point && point ≤ 16 then
      if point ≤ 0 then
        "0." ++ String.ofList (List.replicate (-point).toNat '0' ++ digits)
      else if digits.length ≤ point.toNat then
        String.ofList (digits ++ List.replicate (point.toNat - digits.length) '0') ++ ".0"
      else
        String.ofList (digits.take point.toNat) ++ "." ++ String.ofList (digits.drop point.toNat)
    else
      let exponent := point - 1
      let magnitude := Nat.toDigits 10 exponent.natAbs
      let padded := if magnitude.length < 2 then '0' :: magnitude else magnitude
      String.ofList (digits.take 1) ++
        (if digits.length == 1 then "" else "." ++ String.ofList (digits.drop 1)) ++
        (if exponent < 0 then "e-" else "e+") ++ String.ofList padded

/-- The text of a double in a message. -/
def display : Binary64 → String
  | .nan => "nan"
  | .infinite negative => if negative then "-inf" else "inf"
  | .finite negative m e => (if negative then "-" else "") ++ magnitudeText m e

end Binary64
end KernelProfile
