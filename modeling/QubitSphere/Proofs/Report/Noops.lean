/-
# Leaving out the turns that do nothing

A report lists all turns, or only those that do something.  The choice is made where turns are
listed and nowhere else: either way a record leaves the same workspace, and it comes to the same but
for the turns (`playGate_true`, `playSequence_true`).  Both loops over a document's records keep
this (`playAll_map`), so one report is the other with the turns of zero revolutions taken out of
every playback (`ofDocument_true`, `Playback.thinned_withoutNoops`).  A double is zero with or
without a minus sign (`Turn.isNoop_iff`).
-/

import QubitSphere.Report.Printer
import QubitSphere.Proofs.Report.Playing
import Mathlib

namespace QubitSphere

/-- **A turn does nothing if it goes through zero revolutions**, with or without a minus sign. -/
theorem Turn.isNoop_iff {turn : Turn Float} :
    turn.isNoop = true ↔ turn.revolutions = 0.0 ∨ turn.revolutions = -0.0 := by
  show (turn.revolutions == 0.0) = true ↔ _
  rw [Float.beq_iff_ne_nan_and_eq]
  constructor
  · rintro ⟨-, -, h | ⟨-, h⟩ | ⟨h, -⟩⟩
    · exact .inl h
    · exact absurd h (by decide)
    · exact .inr h
  · rintro (h | h) <;> rw [h] <;> decide

/-! ### One playback -/

/-- What is left of a playback without the turns that do nothing. -/
def Playback.withoutNoops (playback : Playback) : Playback :=
  { playback with
    turns := Report.listed true playback.turns
    seconds := (Report.listed true playback.turns).length * secondsPerTurn }

/-- Whether a playback is another one less the turns of zero revolutions. -/
structure Playback.Thinned (playback thinned : Playback) : Prop where
  name_eq : thinned.name = playback.name
  scalar_eq : thinned.scalar = playback.scalar
  refusal?_eq : thinned.refusal? = playback.refusal?
  turns_eq : thinned.turns = playback.turns.filter fun turn =>
    turn.revolutions ≠ 0.0 ∧ turn.revolutions ≠ -0.0

namespace Report

/-- Without no-ops the turns of zero revolutions are left out; the two zeros of `Float` are
different. -/
theorem listed_true (turns : List (Turn Float)) :
    listed true turns = turns.filter fun turn =>
      turn.revolutions ≠ 0.0 ∧ turn.revolutions ≠ -0.0 := by
  refine List.filter_congr fun turn _ => ?_
  rw [Bool.true_and, Bool.eq_iff_iff, Bool.not_eq_true', ← Bool.not_eq_true, Turn.isNoop_iff,
    not_or, decide_eq_true_iff]

@[simp] theorem listed_false (turns : List (Turn Float)) : listed false turns = turns :=
  List.filter_true turns

/-- **The turns of zero revolutions are left out, or none are.** -/
theorem listed_eq (skipNoops : Bool) (turns : List (Turn Float)) :
    listed skipNoops turns =
      if skipNoops then
        turns.filter fun turn => turn.revolutions ≠ 0.0 ∧ turn.revolutions ≠ -0.0
      else turns := by
  cases skipNoops with
  | true => rw [if_pos rfl, listed_true]
  | false => rw [if_neg Bool.false_ne_true, listed_false]

end Report

/-- What is left of a playback is that playback less the turns of zero revolutions. -/
theorem Playback.thinned_withoutNoops (playback : Playback) :
    playback.Thinned playback.withoutNoops :=
  ⟨rfl, rfl, rfl, Report.listed_true playback.turns⟩

/-- Leaving out turns where they are listed is leaving them out of what is listed. -/
theorem Playback.ofTurns_true (name : String) (scalar : Option String)
    (outcome : Except Refusal (List (Turn Float))) :
    ofTurns true name scalar outcome = (ofTurns false name scalar outcome).withoutNoops := by
  cases outcome with
  | error refusal => rfl
  | ok turns => rw [ofTurns_ok, ofTurns_ok, Report.listed_false]; rfl

/-- The seconds printed are those of the turns printed. -/
theorem Playback.exists_toToml_eq {playback : Playback} (h : playback.Timed) :
    ∃ fields, playback.toToml = .table fields ∧
      fields.lookup "steps" = some (.array (playback.turns.map Turn.toToml)) ∧
      fields.lookup "seconds" =
        some (.float (playback.turns.length * secondsPerTurn).toFloat) := by
  rw [← h]
  obtain ⟨name, scalar, refusal?, seconds, turns⟩ := playback
  refine ⟨_, rfl, ?_, ?_⟩ <;> cases scalar <;> cases refusal? <;> rfl

namespace Report

/-! ### Two reports -/

/-- A gate is played without no-ops as with them, and the workspace it leaves is the same. -/
theorem playGate_true (workspace : Workspace) (gate : Gate) :
    playGate true workspace gate =
      ((playGate false workspace gate).1, (playGate false workspace gate).2.withoutNoops) :=
  congrArg (Prod.mk _) (Playback.ofTurns_true ..)

/-- A sequence is played without no-ops as with them, and the workspace it leaves is the same. -/
theorem playSequence_true (workspace : Workspace) (sequence : Sequence) :
    playSequence true workspace sequence =
      ((playSequence false workspace sequence).1,
        (playSequence false workspace sequence).2.withoutNoops) :=
  congrArg (Prod.mk _) (Playback.ofTurns_true ..)

/-- **A report without the turns that do nothing is the report with them, less these turns.** -/
theorem ofDocument_true (document : Document) :
    ofDocument true document =
      { ofDocument false document with
        gates := (ofDocument false document).gates.map Playback.withoutNoops
        sequences := (ofDocument false document).sequences.map Playback.withoutNoops } := by
  rw [ofDocument, ofDocument, playAll_map playGate_true, playAll_map playSequence_true]

/-- Playbacks are thinned one by one. -/
theorem forall₂_thinned_withoutNoops (playbacks : List Playback) :
    List.Forall₂ Playback.Thinned playbacks (playbacks.map Playback.withoutNoops) :=
  List.forall₂_map_right_iff.2 (List.forall₂_same.2 fun playback _ =>
    playback.thinned_withoutNoops)

/-- **Leaving out the turns that do nothing changes nothing else in a report**, and with or without
them a playback lasts as long as the turns that it lists. -/
theorem thinned_ofDocument (document : Document) :
    let report := ofDocument false document
    let thinned := ofDocument true document
    thinned.qubit = report.qubit ∧
      List.Forall₂ Playback.Thinned report.gates thinned.gates ∧
      List.Forall₂ Playback.Thinned report.sequences thinned.sequences ∧
      ∀ playback ∈ report.gates ++ report.sequences ++ thinned.gates ++ thinned.sequences,
        playback.seconds = playback.turns.length * secondsPerTurn ∧
        ∃ fields, playback.toToml = .table fields ∧
          fields.lookup "steps" = some (.array (playback.turns.map Turn.toToml)) ∧
          fields.lookup "seconds" =
            some (.float (playback.turns.length * secondsPerTurn).toFloat) := by
  intro report thinned
  have hthinned : thinned = { report with
      gates := report.gates.map Playback.withoutNoops
      sequences := report.sequences.map Playback.withoutNoops } := ofDocument_true document
  have htimed (playback : Playback)
      (h : playback ∈ report.gates ++ report.sequences ++ thinned.gates ++ thinned.sequences) :
      playback.Timed := by
    rw [List.append_assoc, List.mem_append] at h
    exact h.elim (timed_ofDocument false document playback)
      (timed_ofDocument true document playback)
  refine ⟨?_, ?_, ?_, fun playback h => ⟨htimed playback h, ?_⟩⟩
  · rw [hthinned]
  · rw [hthinned]
    exact forall₂_thinned_withoutNoops report.gates
  · rw [hthinned]
    exact forall₂_thinned_withoutNoops report.sequences
  · exact Playback.exists_toToml_eq (htimed playback h)

end Report
end QubitSphere
