/-
# Gates as they are entered

A gate is a scalar times four complex entries, each part kept as the text of an expression.  The
texts are evaluated whenever numbers are needed, and a text without a value counts as zero.
-/

import QubitSphere.Expr.Value
import QubitSphere.Record.Refusal
import QubitSphere.Turn

namespace QubitSphere

/-- One entry of a gate. -/
structure Entry where
  real : String := ""
  imaginary : String := ""
deriving DecidableEq

/-- The number that an entry writes. -/
def Entry.value (entry : Entry) : Amplitude Float :=
  ⟨Expr.valueOrZero entry.real, Expr.valueOrZero entry.imaginary⟩

/-- A gate. -/
structure Gate where
  name : String
  scalar : String := "1"
  a11 : Entry := {}
  a12 : Entry := {}
  a21 : Entry := {}
  a22 : Entry := {}
deriving DecidableEq

namespace Gate

/-- The operator that a gate writes. -/
def operator (gate : Gate) : Operator Float :=
  let entries : Operator Float :=
    ⟨gate.a11.value, gate.a12.value, gate.a21.value, gate.a22.value⟩
  entries.scale (.ofReal (Expr.valueOrZero gate.scalar))

/-- Whether a gate writes a unitary operator. -/
def isUnitary (gate : Gate) : Bool :=
  gate.operator.isUnitary

/-- The operator of a gate, which has to be unitary. -/
def validate (gate : Gate) : Except Refusal (Operator Float) :=
  if gate.isUnitary then .ok gate.operator else .error (.notUnitary gate.name)

/-- The turns that play a gate. -/
def turns (gate : Gate) : Except Refusal (List (Turn Float)) := do
  let operator ← gate.validate
  return operator.turns gate.name

/-- The turns that play gates one after another, up to the first gate that is not unitary. -/
def turnsOfAll (gates : List Gate) : Except Refusal (List (Turn Float)) := do
  let turns ← gates.mapM Gate.turns
  return turns.flatten

end Gate
end QubitSphere
