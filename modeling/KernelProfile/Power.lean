/-! Powers. In every module `^` with a natural exponent is the power of the core library, also where
the monoids of Mathlib are known, so that a definition means the same with and without them. -/
namespace KernelProfile

@[default_instance 20000]
instance (priority := 20000) instPowNatural {α : Type} [NatPow α] : Pow α Nat := instPowNat

end KernelProfile
