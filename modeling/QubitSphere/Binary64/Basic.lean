/-
# Doubles taken apart

A finite double is `± m · 2 ^ q` with `m < 2 ^ 53` and `-1074 ≤ q ≤ 971`, where `2 ^ 52 ≤ m`
unless `q = -1074`.  Its bit pattern is the sign, then eleven bits of exponent, then the
fifty-two low bits of `m`; exponent `0` marks the numbers with the least place `q` and no high
bit, and exponent `2047` the infinities and the patterns that are no number.
-/

namespace QubitSphere
namespace Binary64

/-- What a double is: a number `± mantissa · 2 ^ place`, an infinity, or no number. -/
inductive View where
  | finite (negative : Bool) (mantissa : Nat) (place : Int)
  | infinite (negative : Bool)
  | nan

/-- The least place of a last digit. -/
def minPlace : Int := -1074

/-- Takes a double apart. -/
def view (x : Float) : View :=
  let bits := x.toBits.toNat
  let negative := decide (Nat.pow 2 63 ≤ bits)
  let exponent : Nat := bits / Nat.pow 2 52 % Nat.pow 2 11
  let fraction := bits % Nat.pow 2 52
  if exponent = 2047 then
    if fraction = 0 then .infinite negative else .nan
  else if exponent = 0 then
    .finite negative fraction minPlace
  else
    .finite negative (Nat.pow 2 52 + fraction) (minPlace + ((exponent : Int) - 1))

/-- Positive infinity. -/
def infinity : Float := Float.ofBits 0x7ff0000000000000

/-- A double that is no number. -/
def notANumber : Float := Float.ofBits 0x7ff8000000000000

/-- Whether the sign bit is set, which tells `-0` from `0`. -/
def isNegative (x : Float) : Bool :=
  decide (Nat.pow 2 63 ≤ x.toBits.toNat)

end Binary64
end QubitSphere
