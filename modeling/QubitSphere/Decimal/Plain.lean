/-
# Doubles written without an exponent

The shortest digits that read back, with as many zeros as it takes to reach the point on either
side.  What a format decides for itself is a `Style`.
-/

import QubitSphere.Decimal.Shortest

namespace QubitSphere
namespace Decimal

/-- What stands after a whole number, and the text of no number. -/
structure Style where
  whole : String
  nan : String

/-- `digits · 10 ^ exponent` in digits and a point, `whole` after it if it has no fraction. -/
def Scaled.plain (whole : String) (number : Scaled) : String :=
  let digits := Nat.toDigits 10 number.digits
  if 0 ≤ number.exponent then
    String.ofList (digits ++ List.replicate number.exponent.toNat '0') ++ whole
  else
    let places := (-number.exponent).toNat
    let padded := List.replicate (places + 1 - digits.length) '0' ++ digits
    let split := padded.length - places
    String.ofList (padded.take split) ++ "." ++ String.ofList (padded.drop split)

/-- The text of a double: a minus sign for a set sign bit, and then its size. -/
def text (style : Style) (x : Float) : String :=
  match Binary64.view x with
  | .nan => style.nan
  | .infinite negative => if negative then "-inf" else "inf"
  | .finite negative mantissa place =>
    let size :=
      if mantissa = 0 then "0" ++ style.whole
      else (shortest mantissa place).plain style.whole
    if negative then "-" ++ size else size

end Decimal
end QubitSphere
