/-
# Qubits as they are entered

Each part of the two amplitudes is the text of an expression, or absent.  A text without a value
counts as zero in the numbers and is left out of the state equation.
-/

import QubitSphere.Expr.Latex
import QubitSphere.Ket
import QubitSphere.Record.Refusal

namespace QubitSphere

/-- A qubit. -/
structure Qubit where
  basis : Basis := .computational
  alphaReal : Option String := none
  alphaImaginary : Option String := none
  betaReal : Option String := none
  betaImaginary : Option String := none
deriving DecidableEq

namespace Qubit

/-- The number that a part of an amplitude writes. -/
def part (text : Option String) : Float :=
  match text with
  | some text => Expr.valueOrZero text
  | none => 0.0

/-- The amplitude of the first state. -/
def alpha (qubit : Qubit) : Amplitude Float :=
  ⟨part qubit.alphaReal, part qubit.alphaImaginary⟩

/-- The amplitude of the second state. -/
def beta (qubit : Qubit) : Amplitude Float :=
  ⟨part qubit.betaReal, part qubit.betaImaginary⟩

/-- The ket of a qubit, in the basis it was entered in. -/
def ket (qubit : Qubit) : Ket Float :=
  ⟨qubit.alpha, qubit.beta⟩

/-- The ket of a qubit, which has to be normalized; it is never rescaled. -/
def validate (qubit : Qubit) : Except Refusal (Ket Float) :=
  if qubit.ket.isNormalized then .ok qubit.ket
  else .error (.notNormalized qubit.ket.magnitude)

/-- The direction of a qubit in the scene. -/
def direction (qubit : Qubit) : Except Refusal (Vector3 Float) := do
  let ket ← qubit.validate
  return qubit.basis.sceneDirection ket.blochVector

/-- The LaTeX of the real part of an amplitude, empty without an expression. -/
def realLatex (text : Option String) : String :=
  Expr.latexOrEmpty (text.getD "")

/-- The LaTeX of the imaginary part of an amplitude, empty without an expression. -/
def imaginaryLatex (text : Option String) : String :=
  let formula := Expr.latexOrEmpty (text.getD "")
  if formula.isEmpty then "" else "+(" ++ formula ++ ")i"

/-- The state as a LaTeX equation. -/
def stateEquation (qubit : Qubit) : String :=
  "|\\psi\\rangle = " ++ realLatex qubit.alphaReal ++ " " ++ imaginaryLatex qubit.alphaImaginary
    ++ " " ++ qubit.basis.states.1 ++ " + " ++ realLatex qubit.betaReal ++ " "
    ++ imaginaryLatex qubit.betaImaginary ++ " " ++ qubit.basis.states.2

end Qubit
end QubitSphere
