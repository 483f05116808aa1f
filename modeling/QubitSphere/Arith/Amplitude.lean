/-
# Complex amplitudes

Complex numbers in Cartesian form, over any arithmetic of real numbers.  Every formula is fixed
down to the order of its operations, since with doubles each of them rounds.
-/

import QubitSphere.Arith.Real

namespace QubitSphere

/-- A complex number. -/
structure Amplitude (α : Type) where
  re : α
  im : α

namespace Amplitude

variable {α : Type} [RealArith α]

instance : Add (Amplitude α) where
  add z w := ⟨z.re + w.re, z.im + w.im⟩

instance : Sub (Amplitude α) where
  sub z w := ⟨z.re - w.re, z.im - w.im⟩

instance : Mul (Amplitude α) where
  mul z w := ⟨z.re * w.re - z.im * w.im, z.re * w.im + z.im * w.re⟩

/-- The square of the modulus. -/
def normSq (z : Amplitude α) : α :=
  z.re * z.re + z.im * z.im

instance : Div (Amplitude α) where
  div z w :=
    let n := w.normSq
    ⟨(z.re * w.re + z.im * w.im) / n, (z.im * w.re - z.re * w.im) / n⟩

/-- A real number as a complex one. -/
def ofReal (x : α) : Amplitude α :=
  ⟨x, 0.0⟩

/-- The complex conjugate. -/
def conj (z : Amplitude α) : Amplitude α :=
  ⟨z.re, -z.im⟩

/-- The modulus. -/
def norm (z : Amplitude α) : α :=
  RealArith.hypot z.re z.im

/-- The principal square root.  On the negative real axis it is above or below the origin as the
imaginary part is a positive or a negative zero. -/
def sqrt (z : Amplitude α) : Amplitude α :=
  if RealArith.isZero z.im then
    if RealArith.isNegative z.re then
      let root := RealArith.sqrt (-z.re)
      ⟨0.0, if RealArith.isNegative z.im then -root else root⟩
    else
      ⟨RealArith.sqrt z.re, z.im⟩
  else if RealArith.isZero z.re then
    let root := RealArith.sqrt (RealArith.abs z.im / 2.0)
    ⟨root, if RealArith.isNegative z.im then -root else root⟩
  else
    let radius := RealArith.sqrt z.norm
    let angle := RealArith.atan2 z.im z.re / 2.0
    ⟨radius * RealArith.cos angle, radius * RealArith.sin angle⟩

end Amplitude
end QubitSphere
