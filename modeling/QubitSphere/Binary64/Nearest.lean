/-
# The double nearest to a ratio

`ofRatio` finds the double nearest to a quotient of natural numbers, in exact arithmetic: the place
of the last digit is the one that leaves 53 binary digits, but not below the least place there is,
and one division rounds to it, a half going to the even neighbour.  Written side by side, the place
counted from the least one and the mantissa are the bit pattern; a mantissa rounded up to `2 ^ 53`
carries into the exponent by itself.
-/

import QubitSphere.Binary64.Basic

namespace QubitSphere
namespace Binary64

/-- The integer nearest to `num / den`, a half going to the even one. -/
def roundHalfEven (num den : Nat) : Nat :=
  let quotient := num / den
  let twice := 2 * (num % den)
  if twice < den then quotient
  else if den < twice then quotient + 1
  else quotient + quotient % 2

/-- `⌊log₂ (num / den)⌋` for positive numbers. -/
def log2Ratio (num den : Nat) : Int :=
  let guess : Int := (Nat.log2 num : Int) - Nat.log2 den
  if den * Nat.pow 2 guess.toNat ≤ num * Nat.pow 2 (-guess).toNat then guess else guess - 1

/-- The bit pattern of positive infinity, above those of the finite numbers. -/
def infinityBits : Nat := 2047 * Nat.pow 2 52

/-- The double nearest to `num / den`, for a positive `den`; too large a quotient gives
infinity. -/
def ofRatio (num den : Nat) : Float :=
  if num = 0 then Float.ofBits 0
  else
    let place := max (log2Ratio num den - 52) minPlace
    let mantissa := roundHalfEven (num * Nat.pow 2 (-place).toNat) (den * Nat.pow 2 place.toNat)
    let bits := (place - minPlace).toNat * Nat.pow 2 52 + mantissa
    Float.ofBits (min bits infinityBits).toUInt64

end Binary64
end QubitSphere
