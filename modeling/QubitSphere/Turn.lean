/-
# Unitary operators as turns about the axes

A unitary operator is divided by the principal square root of its determinant, which leaves a
representative of determinant one and takes away the global phase.  The angles of its turns about
`z`, `y` and `x` are read off the entries, and the turns are played in this order.
-/

import QubitSphere.Operator
import QubitSphere.Ket

namespace QubitSphere

/-- The angles of the turns about the three axes, in radians. -/
structure EulerAngles (α : Type) where
  z : α
  y : α
  x : α

/-- An axis of the Bloch sphere. -/
inductive Axis where
  | x
  | y
  | z
deriving DecidableEq

/-- The letter of an axis. -/
def Axis.letter : Axis → String
  | x => "x"
  | y => "y"
  | z => "z"

/-- The direction of an axis in the scene: `x` to the side, `y` into the depth, which is the third
coordinate there, and `z` up, which is the second. -/
def Axis.sceneDirection {α : Type} [RealArith α] : Axis → Vector3 α
  | x => ⟨1.0, 0.0, 0.0⟩
  | y => ⟨0.0, 0.0, 1.0⟩
  | z => ⟨0.0, 1.0, 0.0⟩

/-- One turn to play, on behalf of the gate `gate`, counted in full revolutions. -/
structure Turn (α : Type) where
  gate : String
  axis : Axis
  revolutions : α

namespace Turn

variable {α : Type} [RealArith α]

/-- The direction in the scene that a turn goes about. -/
def direction (turn : Turn α) : Vector3 α :=
  turn.axis.sceneDirection

/-- Whether a turn does nothing. -/
def isNoop (turn : Turn α) : Bool :=
  RealArith.isZero turn.revolutions

end Turn

namespace Operator

variable {α : Type} [RealArith α]

/-- The operator with determinant one that `u` is up to phase. -/
def withoutPhase (u : Operator α) : Operator α :=
  let s := u.det.sqrt
  ⟨u.a11 / s, u.a12 / s, u.a21 / s, u.a22 / s⟩

/-- The angles of the turns that make up a unitary operator. -/
def eulerAngles (u : Operator α) : EulerAngles α :=
  let ⟨a, b, c, d⟩ := u.withoutPhase
  let across := a * c.conj - b * d.conj
  { z := RealArith.atan2 (-(a * d.conj - b * c.conj).im) (a * d.conj + b * c.conj).re
    y := RealArith.asin (RealArith.clampToUnit across.re)
    x := RealArith.atan2 across.im (a.normSq - b.normSq - c.normSq + d.normSq) }

/-- The turns that play a unitary operator on behalf of the gate `gate`: about `z`, then `y`, then
`x`.  Seen in the scene, a turn about `y` runs against its angle. -/
def turns (gate : String) (u : Operator α) : List (Turn α) :=
  let angles := u.eulerAngles
  [⟨gate, .z, angles.z / RealArith.tau⟩,
   ⟨gate, .y, -angles.y / RealArith.tau⟩,
   ⟨gate, .x, angles.x / RealArith.tau⟩]

end Operator
end QubitSphere
