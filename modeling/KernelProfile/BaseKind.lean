/-! Primitive kinds of values and their byte sizes. -/
namespace KernelProfile

/-- A primitive kind with a fixed byte size. -/
inductive BaseKind where
  | void | bool | char | wchar
  | i8 | i16 | i32 | i64 | i128
  | u8 | u16 | u32 | u64 | u128
  | f8 | f16 | f32 | f64 | f128
  deriving DecidableEq, Repr

namespace BaseKind

def all : List BaseKind :=
  [void, bool, char, wchar, i8, i16, i32, i64, i128, u8, u16, u32, u64, u128,
    f8, f16, f32, f64, f128]

/-- The name of a kind in a profile document. -/
def name : BaseKind → String
  | void => "void" | bool => "bool" | char => "char" | wchar => "wchar"
  | i8 => "i8" | i16 => "i16" | i32 => "i32" | i64 => "i64" | i128 => "i128"
  | u8 => "u8" | u16 => "u16" | u32 => "u32" | u64 => "u64" | u128 => "u128"
  | f8 => "f8" | f16 => "f16" | f32 => "f32" | f64 => "f64" | f128 => "f128"

def ofName? (s : String) : Option BaseKind := all.find? fun k => k.name == s

/-- The size in bytes. -/
def size : BaseKind → Nat
  | void => 0
  | bool | char | i8 | u8 | f8 => 1
  | wchar | i16 | u16 | f16 => 2
  | i32 | u32 | f32 => 4
  | i64 | u64 | f64 => 8
  | i128 | u128 | f128 => 16

/-- The signed integer kind of a byte size. -/
def signed? : Int → Option BaseKind
  | 1 => some i8 | 2 => some i16 | 4 => some i32 | 8 => some i64 | 16 => some i128
  | _ => none

/-- The unsigned integer kind of a byte size. -/
def unsigned? : Int → Option BaseKind
  | 1 => some u8 | 2 => some u16 | 4 => some u32 | 8 => some u64 | 16 => some u128
  | _ => none

/-- The floating-point kind of a byte size. -/
def floating? : Int → Option BaseKind
  | 1 => some f8 | 2 => some f16 | 4 => some f32 | 8 => some f64 | 16 => some f128
  | _ => none

theorem ofName?_name (k : BaseKind) : ofName? k.name = some k := by
  cases k <;> rfl

end BaseKind
end KernelProfile
