/-
# The shortest decimal that reads back

A positive double `m · 2 ^ q` stands for all reals that round to it: an interval that reaches half
way to either neighbour and includes its ends exactly when `m` is even.  `shortest` finds the
coarsest grid of multiples of `10 ^ t` with a point in that interval, and on it the point nearest
to the double, the larger of two equally near ones.  If any point of a grid lies in the interval,
one of the double's two neighbours on the grid does, so only these are tried.

Below the least normal double of a binade the neighbour is half as far, so lengths are counted in
quarters of the last place.
-/

import QubitSphere.Binary64.Nearest

namespace QubitSphere
namespace Decimal

/-- A number `digits · 10 ^ exponent`. -/
structure Scaled where
  digits : Nat
  exponent : Int

/-- What the reals around a double are compared by, in quarters of its last place: its own
position, how far down and up they round to it, and whether the ends do. -/
structure Interval where
  quarters : Nat
  below : Nat
  above : Nat
  closed : Bool

/-- The reals that round to `mantissa · 2 ^ place`. -/
def Interval.around (mantissa : Nat) (place : Int) : Interval where
  quarters := 4 * mantissa
  below := if mantissa = Nat.pow 2 52 ∧ Binary64.minPlace < place then 1 else 2
  above := 2
  closed := mantissa % 2 == 0

/-- Whether `point` lies in the interval, both scaled: a quarter counts `unit`. -/
def Interval.admits (interval : Interval) (unit point : Nat) : Bool :=
  let low := (interval.quarters - interval.below) * unit
  let high := (interval.quarters + interval.above) * unit
  if interval.closed then low ≤ point && point ≤ high else low < point && point < high

/-- The point to write on the grid of multiples of `10 ^ exponent`, if one lies in the interval
around `mantissa · 2 ^ place`. -/
def onGrid? (mantissa : Nat) (place exponent : Int) : Option Nat :=
  let interval := Interval.around mantissa place
  let quarter := place - 2
  let unit := Nat.pow 2 quarter.toNat * Nat.pow 10 (-exponent).toNat
  let step := Nat.pow 2 (-quarter).toNat * Nat.pow 10 exponent.toNat
  let target := interval.quarters * unit
  let lower := target / step
  let upper := lower + 1
  match interval.admits unit (lower * step), interval.admits unit (upper * step) with
  | true, true => if target - lower * step < upper * step - target then some lower else some upper
  | true, false => some lower
  | false, true => some upper
  | false, false => none

/-- Tries `grids` grids, from the one of `10 ^ exponent` on to finer ones. -/
def searchGrids (mantissa : Nat) (place : Int) : Nat → Int → Scaled
  | 0, exponent => ⟨0, exponent⟩
  | grids + 1, exponent =>
    match onGrid? mantissa place exponent with
    | some digits => ⟨digits, exponent⟩
    | none => searchGrids mantissa place grids (exponent - 1)

/-- The shortest decimal that reads back as the double `mantissa · 2 ^ place`.  The search begins
above the double, and seventeen digits always suffice. -/
def shortest (mantissa : Nat) (place : Int) : Scaled :=
  let magnitude := place + Nat.log2 mantissa
  searchGrids mantissa place 24 ((magnitude + 1) * 30103 / 100000 + 1)

end Decimal
end QubitSphere
