/-
# Reasons why a record is not accepted
-/

import QubitSphere.Decimal.Plain

namespace QubitSphere

/-- Why a state or gate may not be used, or a gate or sequence not be stored or played. -/
inductive Refusal where
  | notNormalized (magnitude : Float)
  | notUnitary (gate : String)
  | duplicateGate (name : String)
  | duplicateSequence (name : String)
  | unknownGate (sequence gate : String)
  | unknownSequence (name : String)
  | emptyName

/-- Messages write whole numbers without a point. -/
def Refusal.numberStyle : Decimal.Style where
  whole := ""
  nan := "NaN"

/-- The wording of a refusal. -/
def Refusal.message : Refusal → String
  | notNormalized magnitude =>
    "qubit state must be normalized (|alpha|^2 + |beta|^2 has magnitude "
      ++ Decimal.text numberStyle magnitude ++ ")"
  | notUnitary gate => "gate `" ++ gate ++ "` is not unitary"
  | duplicateGate name => "a gate named `" ++ name ++ "` already exists"
  | duplicateSequence name => "a sequence named `" ++ name ++ "` already exists"
  | unknownGate sequence gate =>
    "sequence `" ++ sequence ++ "` refers to unknown gate `" ++ gate ++ "`"
  | unknownSequence name => "no sequence named `" ++ name ++ "`"
  | emptyName => "names may not be empty"

end QubitSphere
