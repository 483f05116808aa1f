/-
# The length of a plane vector, correctly rounded

`hypot x y` is the double nearest to `√(x² + y²)`.  Both squares are exact natural numbers once
the two doubles share a place, so neither can overflow or vanish, and the root is rounded once:
`natSqrt` finds it to at least 61 binary digits, and one more digit tells whether anything is
missing below, which is all that rounding to 53 digits needs to know.
-/

import QubitSphere.Binary64.Nearest

namespace QubitSphere
namespace Binary64

/-- `⌊√n⌋`, two binary digits of `n` at a time. -/
def natSqrt (n : Nat) : Nat :=
  if n = 0 then 0
  else
    let root := 2 * natSqrt (n / 4)
    if (root + 1) * (root + 1) ≤ n then root + 1 else root
termination_by n
decreasing_by omega

/-- The double nearest to `√n · 2 ^ place`. -/
def ofSqrt (n : Nat) (place : Int) : Float :=
  let scaled := n * Nat.pow 4 60
  let root := natSqrt scaled
  let twice := if root * root = scaled then 2 * root else 2 * root + 1
  let last := place - 61
  ofRatio (twice * Nat.pow 2 last.toNat) (Nat.pow 2 (-last).toNat)

/-- The length of the vector `(x, y)`.  An infinite side makes it infinite, whatever the other
side is. -/
def hypot (x y : Float) : Float :=
  match view x, view y with
  | .infinite _, _ | _, .infinite _ => infinity
  | .nan, _ | _, .nan => notANumber
  | .finite _ m p, .finite _ n q =>
    let place := min p q
    let a := m * Nat.pow 2 (p - place).toNat
    let b := n * Nat.pow 2 (q - place).toNat
    ofSqrt (a * a + b * b) place

end Binary64
end QubitSphere
