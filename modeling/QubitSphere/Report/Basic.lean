/-
# What a document's records come to

Gates are stored one after another and each one stored is played; then the same is done with the
sequences.  A gate or sequence that is refused is listed with the reason, and changes nothing for
those after it.
-/

import QubitSphere.Record.Document
import QubitSphere.Workspace

namespace QubitSphere

/-- The seconds that one turn takes to play. -/
def secondsPerTurn : Nat := 1

/-- What playing a gate or a sequence comes to. -/
structure Playback where
  name : String
  /-- The LaTeX of the scalar of a gate. -/
  scalar : Option String
  /-- The reason for which nothing is played. -/
  refusal? : Option Refusal
  /-- The seconds that the turns listed take to play. -/
  seconds : Nat
  /-- The turns listed. -/
  turns : List (Turn Float)

/-- The turns to list: all of them, or only those that do something. -/
def Report.listed (skipNoops : Bool) (turns : List (Turn Float)) : List (Turn Float) :=
  turns.filter fun turn => !(skipNoops && turn.isNoop)

/-- The playback of a record that comes to turns, or is refused. -/
def Playback.ofTurns (skipNoops : Bool) (name : String) (scalar : Option String)
    (outcome : Except Refusal (List (Turn Float))) : Playback :=
  let (turns, refusal?) :=
    match outcome with
    | .ok turns => (turns, none)
    | .error refusal => ([], some refusal)
  let turns := Report.listed skipNoops turns
  { name, scalar, refusal?, seconds := turns.length * secondsPerTurn, turns }

/-- What a qubit comes to. -/
structure QubitReport where
  basis : Basis
  magnitude : Float
  normalized : Bool
  direction : Except Refusal (Vector3 Float)
  stateEquation : String

/-- What the qubit of a document comes to. -/
def QubitReport.ofQubit (qubit : Qubit) : QubitReport where
  basis := qubit.basis
  magnitude := qubit.ket.magnitude
  normalized := qubit.ket.isNormalized
  direction := qubit.direction
  stateEquation := qubit.stateEquation

/-- What a document comes to. -/
structure Report where
  qubit : QubitReport
  gates : List Playback
  sequences : List Playback

namespace Report

/-- Stores a gate and plays it, unless it is refused. -/
def playGate (skipNoops : Bool) (workspace : Workspace) (gate : Gate) : Workspace × Playback :=
  let scalar := some (Expr.latexOrEmpty gate.scalar)
  let (workspace, saved) := workspace.insertGate gate
  (workspace, .ofTurns skipNoops gate.name scalar do saved; gate.turns)

/-- Stores a sequence and plays it, unless it is refused. -/
def playSequence (skipNoops : Bool) (workspace : Workspace) (sequence : Sequence) :
    Workspace × Playback :=
  let (workspace, saved) := workspace.insertSequence sequence
  (workspace, .ofTurns skipNoops sequence.name none do saved; workspace.play sequence.name)

/-- Plays records one after another, each in the workspace that the ones before it leave. -/
def playAll {α : Type} (play : Workspace → α → Workspace × Playback) :
    Workspace → List α → Workspace × List Playback
  | workspace, [] => (workspace, [])
  | workspace, record :: records =>
    let first := play workspace record
    let rest := playAll play first.1 records
    (rest.1, first.2 :: rest.2)

/-- What a document comes to, with or without the turns that do nothing. -/
def ofDocument (skipNoops : Bool) (document : Document) : Report :=
  let gates := playAll (playGate skipNoops) (.ofQubit document.qubit) document.gates
  let sequences := playAll (playSequence skipNoops) gates.1 document.sequences
  { qubit := .ofQubit sequences.1.qubit
    gates := gates.2
    sequences := sequences.2 }

end Report
end QubitSphere
