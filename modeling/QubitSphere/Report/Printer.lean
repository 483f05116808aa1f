/-
# Reports as TOML
-/

import QubitSphere.Report.Basic
import QubitSphere.Toml.Printer

namespace QubitSphere

open Toml (Fields Value)

/-- A vector as an array of its components. -/
def Vector3.toToml (v : Vector3 Float) : Value :=
  .array [.float v.x, .float v.y, .float v.z]

/-- A turn as a table. -/
def Turn.toToml (turn : Turn Float) : Value :=
  .table [
    ("name", .string turn.gate),
    ("axis", .string turn.axis.letter),
    ("revolutions", .float turn.revolutions),
    ("axis_vector", turn.direction.toToml)]

/-- The field of a reason, if there is one. -/
def Refusal.field (refusal? : Option Refusal) : Fields :=
  match refusal? with
  | some refusal => [("error", .string refusal.message)]
  | none => []

/-- A gate or sequence as a table. -/
def Playback.toToml (playback : Playback) : Value :=
  let scalar : Fields :=
    match playback.scalar with
    | some formula => [("scalar", .string formula)]
    | none => []
  .table (
    [("name", .string playback.name)] ++ scalar ++ Refusal.field playback.refusal? ++
    [("seconds", .float playback.seconds.toFloat),
     ("steps", .array (playback.turns.map Turn.toToml))])

/-- A qubit as a table. -/
def QubitReport.toToml (qubit : QubitReport) : Value :=
  let (direction, refusal?) :=
    match qubit.direction with
    | .ok direction => (([("bloch_vector", direction.toToml)] : Fields), none)
    | .error refusal => ([], some refusal)
  .table (
    [("basis", .string qubit.basis.key),
     ("magnitude", .float qubit.magnitude),
     ("normalized", .boolean qubit.normalized)] ++ direction ++
    [("state_equation", .string qubit.stateEquation)] ++ Refusal.field refusal?)

/-- The text of a report. -/
def Report.print (report : Report) : String :=
  Toml.print [
    ("qubit", report.qubit.toToml),
    ("gates", .array (report.gates.map Playback.toToml)),
    ("sequences", .array (report.sequences.map Playback.toToml))]

end QubitSphere
