import KernelProfile.Text.Numeral

/-! Enumerator values. A value keeps the width and the signedness it was declared with, and a
variant exists only where the value lies in that range. -/
namespace KernelProfile

/-- Width and signedness of an enumerator value. -/
inductive VariantKind where
  | u8 | u16 | u32 | u64 | u128
  | i8 | i16 | i32 | i64 | i128
  deriving DecidableEq, Repr

namespace VariantKind

/-- The unsigned kinds, narrowest first. -/
def unsignedKinds : List VariantKind := [u8, u16, u32, u64, u128]

/-- The signed kinds, narrowest first. -/
def signedKinds : List VariantKind := [i8, i16, i32, i64, i128]

def all : List VariantKind := unsignedKinds ++ signedKinds

/-- The name of a kind in a profile document. -/
def label : VariantKind → String
  | u8 => "u8" | u16 => "u16" | u32 => "u32" | u64 => "u64" | u128 => "u128"
  | i8 => "i8" | i16 => "i16" | i32 => "i32" | i64 => "i64" | i128 => "i128"

def ofLabel? (s : String) : Option VariantKind := all.find? fun k => k.label == s

def bits : VariantKind → Nat
  | u8 | i8 => 8
  | u16 | i16 => 16
  | u32 | i32 => 32
  | u64 | i64 => 64
  | u128 | i128 => 128

def isSigned : VariantKind → Bool
  | i8 | i16 | i32 | i64 | i128 => true
  | _ => false

/-- The least value of a kind. -/
def least (k : VariantKind) : Int := if k.isSigned then -2 ^ (k.bits - 1) else 0

/-- The greatest value of a kind. -/
def greatest (k : VariantKind) : Int :=
  if k.isSigned then 2 ^ (k.bits - 1) - 1 else 2 ^ k.bits - 1

/-- Whether a value lies in the range of a kind. -/
def holds (k : VariantKind) (value : Int) : Bool := k.least ≤ value && value ≤ k.greatest

theorem ofLabel?_label (k : VariantKind) : ofLabel? k.label = some k := by
  cases k <;> rfl

end VariantKind

/-- An enumerator value of a kind that holds it. -/
structure Variant where
  kind : VariantKind
  value : Int
  fits : kind.holds value = true
  deriving DecidableEq

/-- Why a value is no variant. -/
inductive VariantError where
  | unknownLabel (label : String)
  | outOfRange (value : Int) (kind : VariantKind)
  | tooWide (value : Int)
  deriving DecidableEq, Repr

namespace VariantError

def message : VariantError → String
  | unknownLabel label => "unknown variant kind: " ++ Text.quoted label
  | outOfRange value kind => Text.decimal value ++ " does not fit in " ++ kind.label
  | tooWide value => Text.decimal value ++ " does not fit in a 128-bit variant"

end VariantError

namespace Variant

/-- The variant of a given kind. -/
def make (kind : VariantKind) (value : Int) : Except VariantError Variant :=
  if h : kind.holds value = true then .ok ⟨kind, value, h⟩ else .error (.outOfRange value kind)

/-- The variant of a kind given by its label. -/
def ofLabel (label : String) (value : Int) : Except VariantError Variant :=
  match VariantKind.ofLabel? label with
  | none => .error (.unknownLabel label)
  | some kind => make kind value

/-- The first of some kinds that holds a value. -/
def firstFit? (value : Int) : List VariantKind → Option Variant
  | [] => none
  | k :: ks => if h : k.holds value = true then some ⟨k, value, h⟩ else firstFit? value ks

/-- The narrowest variant of a value, unsigned unless the value is negative. -/
def fit (value : Int) : Except VariantError Variant :=
  match firstFit? value (if 0 ≤ value then VariantKind.unsignedKinds
      else VariantKind.signedKinds) with
  | some v => .ok v
  | none => .error (.tooWide value)

end Variant
end KernelProfile
