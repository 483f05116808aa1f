/-
# Sequences of gates
-/

namespace QubitSphere

/-- Gates to play one after another, listed by name. -/
structure Sequence where
  name : String
  gates : List String
deriving DecidableEq

end QubitSphere
