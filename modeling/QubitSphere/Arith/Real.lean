/-
# Arithmetic on real numbers

The operations that states and gates are computed with.  Everything built on them is written once
for every number type that has them: doubles when the program runs, and the exact real numbers in
the theory.
-/

import QubitSphere.Binary64.Hypot

namespace QubitSphere

/-- A number type to compute with.  The comparisons answer `false` where a side is no number. -/
class RealArith (α : Type) extends Add α, Sub α, Mul α, Div α, Neg α, OfScientific α where
  /-- Half a turn, in radians. -/
  pi : α
  sqrt : α → α
  sin : α → α
  cos : α → α
  asin : α → α
  /-- `atan2 y x` is the angle of the point `(x, y)`. -/
  atan2 : α → α → α
  /-- `hypot x y` is the distance of the point `(x, y)` from the origin. -/
  hypot : α → α → α
  lessEq : α → α → Bool
  isZero : α → Bool
  /-- Whether a number has a minus sign; a zero may have one. -/
  isNegative : α → Bool

namespace RealArith

variable {α : Type} [RealArith α]

/-- A full turn, in radians. -/
def tau : α := 2.0 * pi

/-- The size of a number. -/
def abs (x : α) : α :=
  if isNegative x then -x else x

/-- The number in `[-1, 1]` nearest to `x`. -/
def clampToUnit (x : α) : α :=
  if lessEq x (-1.0) then -1.0 else if lessEq 1.0 x then 1.0 else x

end RealArith

/-- Doubles; each operation rounds its result. -/
instance : RealArith Float where
  pi := 3.141592653589793
  sqrt := Float.sqrt
  sin := Float.sin
  cos := Float.cos
  asin := Float.asin
  atan2 := Float.atan2
  hypot := Binary64.hypot
  lessEq x y := x ≤ y
  isZero x := x == 0.0
  isNegative := Binary64.isNegative

end QubitSphere
