import KernelProfile.Architecture
import KernelProfile.Definition

/-! A profile: the layout of one kernel build. -/
namespace KernelProfile

structure Profile where
  architecture : Architecture
  symbols : Table Int := .empty
  types : TypeCollection := {}
  deriving DecidableEq

end KernelProfile
