/-
# The workspace

What a user has entered: one qubit, gates, and sequences that list gates by name.  A gate is stored
once its name is not blank, not taken, and its operator is unitary; a sequence once its name is
neither blank nor taken and every gate it lists is stored.  An operation that refuses changes
nothing.
-/

import QubitSphere.Catalog
import QubitSphere.Record.Gate
import QubitSphere.Record.Qubit
import QubitSphere.Record.Sequence
import QubitSphere.Text.Blank

namespace QubitSphere

instance : Named Gate := ⟨Gate.name⟩

instance : Named Sequence := ⟨Sequence.name⟩

/-- A qubit with the stored gates and sequences. -/
structure Workspace where
  qubit : Qubit := {}
  gates : Catalog Gate := {}
  sequences : Catalog Sequence := {}

namespace Workspace

/-- A qubit with nothing stored. -/
def ofQubit (qubit : Qubit) : Workspace := { qubit }

/-- Stores a gate, or answers why it does not; with the workspace after it. -/
def insertGate (workspace : Workspace) (gate : Gate) : Workspace × Except Refusal Unit :=
  if Text.isBlank gate.name then (workspace, .error .emptyName)
  else if workspace.gates.contains gate.name then (workspace, .error (.duplicateGate gate.name))
  else
    match gate.validate with
    | .error refusal => (workspace, .error refusal)
    | .ok _ => ({ workspace with gates := workspace.gates.insert gate }, .ok ())

/-- Stores a sequence, or answers why it does not; with the workspace after it. -/
def insertSequence (workspace : Workspace) (sequence : Sequence) :
    Workspace × Except Refusal Unit :=
  if Text.isBlank sequence.name then (workspace, .error .emptyName)
  else if workspace.sequences.contains sequence.name then
    (workspace, .error (.duplicateSequence sequence.name))
  else
    match sequence.gates.find? (!workspace.gates.contains ·) with
    | some missing => (workspace, .error (.unknownGate sequence.name missing))
    | none => ({ workspace with sequences := workspace.sequences.insert sequence }, .ok ())

/-- Takes a gate out of the workspace; sequences that list it stay. -/
def removeGate (workspace : Workspace) (name : String) : Workspace :=
  { workspace with gates := workspace.gates.erase name }

/-- The stored gate that the sequence `sequence` lists as `name`. -/
def listedGate (workspace : Workspace) (sequence name : String) : Except Refusal Gate :=
  match workspace.gates.find? name with
  | some gate => .ok gate
  | none => .error (.unknownGate sequence name)

/-- The turns that play a stored sequence. -/
def play (workspace : Workspace) (name : String) : Except Refusal (List (Turn Float)) :=
  match workspace.sequences.find? name with
  | none => .error (.unknownSequence name)
  | some sequence => do
    let gates ← sequence.gates.mapM (workspace.listedGate name)
    Gate.turnsOfAll gates

/-- A change of a workspace. -/
inductive Edit where
  | insertGate (gate : Gate)
  | insertSequence (sequence : Sequence)
  | removeGate (name : String)
  | setQubit (qubit : Qubit)

/-- What a change answers. -/
inductive Reply where
  | done
  | refused (refusal : Refusal)
  | removed (gate : Option Gate)

/-- The reply to a change that stores something. -/
def Reply.ofStoring : Except Refusal Unit → Reply
  | .ok () => .done
  | .error refusal => .refused refusal

/-- Makes a change, and replies to it. -/
def edit (workspace : Workspace) : Edit → Workspace × Reply
  | .insertGate gate => (workspace.insertGate gate).map id .ofStoring
  | .insertSequence sequence => (workspace.insertSequence sequence).map id .ofStoring
  | .removeGate name => (workspace.removeGate name, .removed (workspace.gates.find? name))
  | .setQubit qubit => ({ workspace with qubit }, .done)

end Workspace
end QubitSphere
