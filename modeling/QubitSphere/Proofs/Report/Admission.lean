/-
# Which gates of a document are played

Whether a gate of a document is stored depends on all the gates before it, stored or refused.  What
it comes down to is whether one of them takes its name: a gate takes its name if it writes a unitary
operator (`Gate.takes`), no matter which other gates came before (`contains_playGate`,
`contains_playAll`).  What a gate comes to can therefore be told from the document alone
(`admission_ofDocument`): it plays the turns of its own operator, or it is refused for the first of
three reasons (`Gate.firstReason?`).

| reason | message |
| --- | --- |
| the name is blank | `emptyName` |
| an earlier gate takes the name | `duplicateGate` |
| the operator is not unitary | `notUnitary` |
-/

import QubitSphere.Proofs.Report.Noops

namespace QubitSphere

/-- Whether a gate takes a name: it has the name and writes a unitary operator. -/
def Gate.takes (name : String) (gate : Gate) : Bool :=
  gate.name == name && gate.isUnitary

/-- A gate takes its own name, if its operator is unitary. -/
theorem Gate.takes_eq_true_iff {name : String} {gate : Gate} :
    gate.takes name = true ↔ gate.name = name ∧ gate.isUnitary = true := by
  rw [takes, Bool.and_eq_true, beq_iff_eq]

/-- A name is free behind some gates exactly if those that have it write no unitary operator. -/
theorem Gate.any_takes_eq_false_iff {gates : List Gate} {name : String} :
    gates.any (·.takes name) = false ↔
      ∀ gate ∈ gates, gate.name = name → gate.isUnitary = false := by
  simp [takes]

namespace Report

variable {skipNoops : Bool}

/-! ### Names that are taken -/

/-- **A gate adds its name to those taken if it writes a unitary operator, and nothing else.** -/
theorem contains_playGate {name : String} (hname : Text.isBlank name = false)
    (workspace : Workspace) (gate : Gate) :
    (playGate skipNoops workspace gate).1.gates.contains name =
      (workspace.gates.contains name || gate.takes name) := by
  rw [playGate_eq]
  cases hreason : gate.firstReason? (workspace.gates.contains gate.name) with
  | none =>
    have hunitary := (Gate.firstReason?_eq_none_iff.1 hreason).2.1
    rw [Gate.takes, hunitary, Bool.and_true]
    exact Catalog.contains_insert _ gate name
  | some refusal =>
    cases htakes : gate.takes name with
    | false => exact (Bool.or_false _).symm
    | true =>
      -- such a gate is refused only because its name is taken before
      obtain ⟨rfl, hunitary⟩ := Gate.takes_eq_true_iff.1 htakes
      cases hcontains : workspace.gates.contains gate.name with
      | true => rfl
      | false =>
        rw [Gate.firstReason?_eq_none_iff.2 ⟨hname, hunitary, hcontains⟩] at hreason
        cases hreason

/-- **The names taken are those of the gates that write a unitary operator.** -/
theorem contains_playAll {name : String} (hname : Text.isBlank name = false)
    (workspace : Workspace) (gates : List Gate) :
    (playAll (playGate skipNoops) workspace gates).1.gates.contains name =
      (workspace.gates.contains name || gates.any (·.takes name)) := by
  induction gates generalizing workspace with
  | nil => exact (Bool.or_false _).symm
  | cons gate gates ih =>
    rw [playAll, ih, contains_playGate hname, Bool.or_assoc, List.any_cons]

/-- **Whether a name is taken can be told from the gates alone**: the workspace behind them refuses
a gate for the same reason. -/
theorem firstReason?_playAll (skipNoops : Bool) (qubit : Qubit) (gates : List Gate) (gate : Gate) :
    gate.firstReason?
        ((playAll (playGate skipNoops) (.ofQubit qubit) gates).1.gates.contains gate.name) =
      gate.firstReason? (gates.any (·.takes gate.name)) := by
  cases hblank : Text.isBlank gate.name with
  | true => rw [Gate.firstReason?, Gate.firstReason?, if_pos hblank, if_pos hblank]
  | false => rw [contains_playAll hblank]; rfl

/-! ### The gates of a document -/

/-- What the playback of a gate is, in view of the gates of the document before it and of their
playbacks. -/
structure Admission (skipNoops : Bool) (before : List Gate) (earlier : List Playback) (gate : Gate)
    (playback : Playback) : Prop where
  name_eq : playback.name = gate.name
  scalar_eq : playback.scalar = some (Expr.latexOrEmpty gate.scalar)
  /-- Nothing is refused that has a name and a unitary operator, unless a gate with both is before
  it under the same name. -/
  refusal?_eq_none_iff : playback.refusal? = none ↔
    Text.isBlank gate.name = false ∧ gate.isUnitary = true ∧
      ∀ other ∈ before, other.name = gate.name → other.isUnitary = false
  /-- The turns are those of the gate's own operator, all of them or those that do something. -/
  turns_eq : playback.refusal? = none → playback.turns =
    if skipNoops then
      (gate.operator.turns gate.name).filter fun turn =>
        turn.revolutions ≠ 0.0 ∧ turn.revolutions ≠ -0.0
    else gate.operator.turns gate.name
  /-- What is refused is refused for the first reason there is, and plays nothing. -/
  refusal?_eq : playback.refusal? = gate.firstReason? (before.any (·.takes gate.name))
  turns_eq_nil : playback.refusal? ≠ none → playback.turns = []
  /-- Only a gate that is played blocks another gate of its name. -/
  exists_plays : playback.refusal? ≠ none → Text.isBlank gate.name = false →
    gate.isUnitary = true → ∃ other ∈ earlier, other.plays gate.name = true

/-- **A gate is played after others as the names that these take allow.** -/
theorem admission_playGate (skipNoops : Bool) (qubit : Qubit) (before : List Gate) (gate : Gate) :
    let played := playAll (playGate skipNoops) (.ofQubit qubit) before
    Admission skipNoops before played.2 gate (playGate skipNoops played.1 gate).2 := by
  intro played
  have hreason := firstReason?_playAll skipNoops qubit before gate
  have hgates := (gatesPlayed_playAll skipNoops qubit before).1
  have hrefusal : (playGate skipNoops played.1 gate).2.refusal? =
      gate.firstReason? (before.any (·.takes gate.name)) := by
    rw [playGate_eq, hreason]
    cases gate.firstReason? (before.any (·.takes gate.name)) <;> rfl
  refine ⟨name_playGate played.1 gate, scalar_playGate played.1 gate, ?_, fun hnone => ?_, hrefusal,
    fun hsome => ?_, fun hsome hblank hunitary => ?_⟩
  · rw [hrefusal, Gate.firstReason?_eq_none_iff, Gate.any_takes_eq_false_iff]
  · rw [playGate_eq, hreason, ← hrefusal, hnone, ← listed_eq]
    rfl
  · obtain ⟨refusal, hsome⟩ := Option.ne_none_iff_exists'.1 hsome
    rw [playGate_eq, hreason, ← hrefusal, hsome]
    rfl
  · -- the name is taken, so a gate was stored under it, and every stored gate was played
    rw [hrefusal, ← hreason, Ne, Gate.firstReason?_eq_none_iff] at hsome
    have htaken : played.1.gates.contains gate.name = true := by
      rw [← Bool.not_eq_false]
      exact fun hfree => hsome ⟨hblank, hunitary, hfree⟩
    rw [hgates.contains_eq] at htaken
    exact isSome_played?_iff.1 htaken

/-- **A document's report has one playback for each gate, and it is told by the gates before.** -/
theorem admission_ofDocument (skipNoops : Bool) (document : Document) :
    let report := ofDocument skipNoops document
    report.gates.length = document.gates.length ∧
      ∀ i gate, document.gates[i]? = some gate →
        ∃ playback, report.gates[i]? = some playback ∧
          Admission skipNoops (document.gates.take i) (report.gates.take i) gate playback := by
  intro report
  have hnames : report.gates.map Playback.name = document.gates.map Gate.name :=
    map_name_playAll name_playGate _ _
  have hlength := congrArg List.length hnames
  rw [List.length_map, List.length_map] at hlength
  refine ⟨hlength, fun i gate hgate => ?_⟩
  have htake : report.gates.take i = _ := take_playAll _ document.gates i
  have hplayback : report.gates[i]? = _ := getElem?_playAll _ document.gates i
  rw [hgate] at hplayback
  rw [htake]
  exact ⟨_, hplayback, admission_playGate skipNoops document.qubit (document.gates.take i) gate⟩

end Report
end QubitSphere
