/-
# States of a qubit and their directions

A ket holds the amplitudes of the two states of a basis.  Its Bloch vector is taken in the frame
of that basis and then turned into the frame of the scene, whose second coordinate points up:
there the first state of the computational basis is the upper pole.
-/

import QubitSphere.Arith.Amplitude

namespace QubitSphere

/-- A vector in space. -/
structure Vector3 (α : Type) where
  x : α
  y : α
  z : α

/-- The bases that a state may be entered in. -/
inductive Basis where
  | computational
  | hadamard
  | pauliY
deriving DecidableEq

namespace Basis

/-- The name shown for a basis. -/
def label : Basis → String
  | computational => "Computational"
  | hadamard => "Hadamard"
  | pauliY => "Pauli Y"

/-- The name that records call a basis by. -/
def key : Basis → String
  | computational => "computational"
  | hadamard => "hadamard"
  | pauliY => "pauliY"

/-- The basis that records call `key`. -/
def ofKey? : String → Option Basis
  | "computational" => some computational
  | "hadamard" => some hadamard
  | "pauliY" => some pauliY
  | _ => none

/-- The LaTeX of the first and the second state of a basis. -/
def states : Basis → String × String
  | computational => ("|0\\rangle", "|1\\rangle")
  | hadamard => ("|+\\rangle", "|-\\rangle")
  | pauliY => ("|i\\rangle", "|-i\\rangle")

/-- Turns a Bloch vector in the frame of the basis into the frame of the scene. -/
def sceneDirection {α : Type} [RealArith α] (basis : Basis) (v : Vector3 α) : Vector3 α :=
  match basis with
  | computational => ⟨v.x, v.z, v.y⟩
  | hadamard => ⟨v.z, v.x, -v.y⟩
  | pauliY => ⟨v.y, -v.x, v.z⟩

end Basis

/-- The amplitudes of the first and the second state of a basis. -/
structure Ket (α : Type) where
  zero : Amplitude α
  one : Amplitude α

namespace Ket

variable {α : Type} [RealArith α]

/-- The length of a ket. -/
def magnitude (ket : Ket α) : α :=
  RealArith.sqrt (ket.zero.normSq + ket.one.normSq)

/-- Whether the length is one, up to round-off. -/
def isNormalized (ket : Ket α) : Bool :=
  RealArith.lessEq (1.0 - 2e-16) ket.magnitude && RealArith.lessEq ket.magnitude (1.0 + 2e-16)

/-- The Bloch vector of a normalized ket, in the frame of its basis. -/
def blochVector (ket : Ket α) : Vector3 α :=
  let overlap := ket.zero.conj * ket.one
  ⟨2.0 * overlap.re, 2.0 * overlap.im, ket.zero.normSq - ket.one.normSq⟩

end Ket
end QubitSphere
