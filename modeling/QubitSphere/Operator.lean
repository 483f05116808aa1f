/-
# Operators on one qubit

Two by two complex matrices, row by row.  An operator counts as unitary when its adjoint times
itself is the identity up to `tolerance` in every entry, which only absorbs round-off.
-/

import QubitSphere.Arith.Amplitude

namespace QubitSphere

/-- A two by two complex matrix. -/
structure Operator (α : Type) where
  a11 : Amplitude α
  a12 : Amplitude α
  a21 : Amplitude α
  a22 : Amplitude α

namespace Operator

variable {α : Type} [RealArith α]

/-- The operator that leaves every state as it is. -/
def identity : Operator α where
  a11 := .ofReal 1.0
  a12 := .ofReal 0.0
  a21 := .ofReal 0.0
  a22 := .ofReal 1.0

instance : Mul (Operator α) where
  mul m n := {
    a11 := m.a11 * n.a11 + m.a12 * n.a21
    a12 := m.a11 * n.a12 + m.a12 * n.a22
    a21 := m.a21 * n.a11 + m.a22 * n.a21
    a22 := m.a21 * n.a12 + m.a22 * n.a22 }

/-- The conjugate transpose. -/
def adjoint (m : Operator α) : Operator α where
  a11 := m.a11.conj
  a12 := m.a21.conj
  a21 := m.a12.conj
  a22 := m.a22.conj

/-- The determinant. -/
def det (m : Operator α) : Amplitude α :=
  m.a11 * m.a22 - m.a12 * m.a21

/-- Every entry times `factor`. -/
def scale (m : Operator α) (factor : Amplitude α) : Operator α where
  a11 := m.a11 * factor
  a12 := m.a12 * factor
  a21 := m.a21 * factor
  a22 := m.a22 * factor

/-- How far two entries may be apart and still count as equal. -/
def tolerance : α := 3e-16

/-- Whether two entries are equal up to the tolerance. -/
def close (z w : Amplitude α) : Bool :=
  RealArith.lessEq (z - w).norm tolerance

/-- Whether two operators are equal up to the tolerance in every entry. -/
def isCloseTo (m n : Operator α) : Bool :=
  close m.a11 n.a11 && close m.a12 n.a12 && close m.a21 n.a21 && close m.a22 n.a22

/-- Whether an operator is the identity, up to the tolerance. -/
def isIdentity (m : Operator α) : Bool :=
  m.isCloseTo identity

/-- Whether the adjoint of an operator is its inverse, up to the tolerance. -/
def isUnitary (m : Operator α) : Bool :=
  (m.adjoint * m).isIdentity

end Operator
end QubitSphere
