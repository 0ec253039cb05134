import SafetyIsland.Ieee.Float

namespace SafetyIsland

-- The arithmetic of the code's geometry, which is written once for doubles and exact numbers.
class Scalar (α : Type) extends Add α, Sub α, Mul α, Div α, LT α, LE α, OfScientific α,
    NatCast α where
  decLT    : DecidableLT α
  decLE    : DecidableLE α
  isFinite : α → Bool
  -- `static_cast<int>(std::ceil(x))`
  ceilToInt : α → ℤ

section

variable {α : Type} [Scalar α]

instance decidableLT : DecidableLT α := Scalar.decLT

instance decidableLE : DecidableLE α := Scalar.decLE

-- `std::max`, which returns its first argument when one of the two is a NaN.
def stdMax (a b : α) : α :=
  if a < b then b else a

-- `std::min`, which returns its first argument when one of the two is a NaN.
def stdMin (a b : α) : α :=
  if b < a then b else a

def stdClamp (v lo hi : α) : α :=
  if v < lo then lo else if hi < v then hi else v

end

instance natCastFloat : NatCast Float where
  natCast := Float.ofNat

instance scalarFloat : Scalar Float where
  decLT    := inferInstance
  decLE    := inferInstance
  isFinite := Float.isFinite
  ceilToInt x :=
    let n := Ieee.truncate x
    if Float.ofInt n < x then n + 1 else n

class Libm (α : Type) where
  hypot : α → α → α
  sin   : α → α
  cos   : α → α
  atan  : α → α
  atan2 : α → α → α

end SafetyIsland
