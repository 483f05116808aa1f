/-
# What a stored sequence means

To play a stored sequence is to look its gates up in the order in which it lists them, and then to
play them one after another.  Since every stored gate writes a unitary operator, there are only
three things that this can come to (`Means`):

| what is stored | what playing comes to |
| --- | --- |
| no sequence of that name | `unknownSequence` |
| a sequence that lists an unknown gate | `unknownGate`, with the first such gate |
| a sequence whose gates are all stored | the turns of these gates, in the order of the list |

A session is a run in which sequences may be played between the changes.  It stores what its changes
alone store (`serve_eq_run`), and at every point of it playing comes to exactly what the row for the
name says (`means_play`, `Means.play_eq`).

What a sequence means depends on the records found under its name and under those of its gates alone
(`play_congr`).  A change leaves them as they are, unless it takes one of these gates out
(`Changes.find?_gates`), and so a sequence that plays goes on to play the same turns.
-/

import QubitSphere.Proofs.Workspace.Playback

namespace QubitSphere

/-- **Two lists of gates are played one after the other**, up to the first gate of either that is
not unitary. -/
theorem Gate.turnsOfAll_append (gates gates' : List Gate) :
    Gate.turnsOfAll (gates ++ gates') =
      match Gate.turnsOfAll gates, Gate.turnsOfAll gates' with
      | .error refusal, _ => .error refusal
      | .ok _, .error refusal => .error refusal
      | .ok turns, .ok turns' => .ok (turns ++ turns') := by
  rw [turnsOfAll, turnsOfAll, turnsOfAll, List.mapM_append]
  cases gates.mapM Gate.turns with
  | error refusal => rfl
  | ok turns =>
    cases gates'.mapM Gate.turns with
    | error refusal => rfl
    | ok turns' => exact congrArg Except.ok List.flatten_append

namespace Workspace

/-- What playing the sequence named `name` comes to. -/
inductive Means (workspace : Workspace) (name : String) : Except Refusal (List (Turn Float)) → Prop
  | unknownSequence :
      workspace.sequences.find? name = none →
      Means workspace name (.error (.unknownSequence name))
  | unknownGate {sequence : Sequence} {before after : List String} {missing : String} :
      workspace.sequences.find? name = some sequence →
      sequence.gates = before ++ missing :: after →
      (∀ gate ∈ before, workspace.gates.contains gate = true) →
      workspace.gates.contains missing = false →
      Means workspace name (.error (.unknownGate name missing))
  | played {sequence : Sequence} {gates : List Gate} :
      workspace.sequences.find? name = some sequence →
      List.Forall₂ (fun listed gate => workspace.gates.find? listed = some gate)
        sequence.gates gates →
      Means workspace name (.ok (gates.flatMap fun gate => gate.operator.turns gate.name))

variable {workspace changed : Workspace} {name : String}
  {outcome : Except Refusal (List (Turn Float))} {turns : List (Turn Float)}

/-- **Playing comes to what the sequence means.** -/
theorem Means.play_eq (h : Means workspace name outcome)
    (hunitary : ∀ name gate, workspace.gates.find? name = some gate → gate.isUnitary = true) :
    workspace.play name = outcome := by
  cases h with
  | unknownSequence hnone => rw [play, hnone]
  | @unknownGate sequence before after missing hfound hgates hbefore hmissing =>
    have hfirst : sequence.gates.find? (!workspace.gates.contains ·) = some missing := by
      refine List.find?_eq_some_iff_append.2 ⟨by simp [hmissing], before, after, hgates, ?_⟩
      intro gate hgate
      simp [hbefore gate hgate]
    rw [Workspace.play_eq hfound hunitary, hfirst]
  | @played sequence gates hfound hgates =>
    obtain ⟨hlisted, rfl⟩ := forall₂_eq_some_iff.1 hgates
    have hknown : sequence.gates.find? (!workspace.gates.contains ·) = none :=
      Catalog.find?_not_contains_eq_none_iff.2 hlisted
    rw [Workspace.play_eq hfound hunitary, hknown]

/-- **Every sequence means what playing it comes to.** -/
theorem means_play
    (hunitary : ∀ name gate, workspace.gates.find? name = some gate → gate.isUnitary = true) :
    Means workspace name (workspace.play name) := by
  cases hfound : workspace.sequences.find? name with
  | none =>
    have hplay : workspace.play name = .error (.unknownSequence name) := by rw [play, hfound]
    rw [hplay]
    exact .unknownSequence hfound
  | some sequence =>
    rw [Workspace.play_eq hfound hunitary]
    cases hfirst : sequence.gates.find? (!workspace.gates.contains ·) with
    | some missing =>
      obtain ⟨hmissing, before, after, hgates, hbefore⟩ := List.find?_eq_some_iff_append.1 hfirst
      refine .unknownGate hfound hgates (fun gate hgate => ?_) (by simpa using hmissing)
      simpa using hbefore gate hgate
    | none =>
      have hknown := Catalog.find?_not_contains_eq_none_iff.1 hfirst
      exact .played hfound (forall₂_eq_some_iff.2 ⟨hknown, rfl⟩)

/-- The turns of stored gates are three for each name, about `z`, `y` and `x`. -/
theorem map_turns_of_forall₂ {names : List String} {gates : List Gate}
    (h : List.Forall₂ (fun listed gate => workspace.gates.find? listed = some gate) names gates) :
    (gates.flatMap fun gate => gate.operator.turns gate.name).map
        (fun turn => (turn.gate, turn.axis)) =
      names.flatMap fun name => [(name, .z), (name, .y), (name, .x)] := by
  induction h with
  | nil => rfl
  | cons hgate _ ih =>
    obtain ⟨-, rfl⟩ := Catalog.mem_of_find? hgate
    rw [List.flatMap_cons, List.map_append, ih]
    rfl

/-! ### Sessions -/

/-- What can be asked of a workspace. -/
inductive Request where
  | edit (edit : Edit)
  | play (name : String)

/-- What is answered to a request. -/
inductive Answer where
  | replied (reply : Reply)
  | played (outcome : Except Refusal (List (Turn Float)))

/-- Answers a request, in the workspace that the request leaves. -/
def answer (workspace : Workspace) : Request → Workspace × Answer
  | .edit edit => ((workspace.edit edit).1, .replied (workspace.edit edit).2)
  | .play name => (workspace, .played (workspace.play name))

/-- The workspace that requests leave, made one after another. -/
def serve (workspace : Workspace) (requests : List Request) : Workspace :=
  requests.foldl (fun workspace request => (workspace.answer request).1) workspace

/-- The change that a request makes. -/
def Request.edit? : Request → Option Edit
  | .edit change => some change
  | .play _ => none

/-- **A session leaves what its changes alone leave.** -/
theorem serve_eq_run (workspace : Workspace) (requests : List Request) :
    workspace.serve requests = workspace.run (requests.filterMap Request.edit?) := by
  induction requests generalizing workspace with
  | nil => rfl
  | cons request requests ih =>
    rw [serve, List.foldl_cons, ← serve, ih]
    cases request <;> rfl

/-- Every gate that a session leaves is unitary. -/
theorem isUnitary_serve (qubit : Qubit) (requests : List Request) {name : String} {gate : Gate}
    (h : ((ofQubit qubit).serve requests).gates.find? name = some gate) :
    gate.isUnitary = true := by
  rw [serve_eq_run] at h
  exact isUnitary_run qubit _ h

/-- **At every point of a session playing a sequence comes to exactly what it means, and changes
nothing.**  It is refused as not stored exactly if it is not, never for a gate that is not unitary,
and otherwise plays three turns for each gate it lists; and two lists of gates are played one after
the other. -/
theorem play_serve (qubit : Qubit) (requests : List Request) (name : String) :
    let workspace := (ofQubit qubit).serve requests
    (∀ outcome, workspace.play name = outcome ↔ Means workspace name outcome) ∧
      (workspace.play name = .error (.unknownSequence name) ↔
        workspace.sequences.find? name = none) ∧
      (∀ gate, workspace.play name ≠ .error (.notUnitary gate)) ∧
      (∀ turns, workspace.play name = .ok turns → ∃ sequence,
        workspace.sequences.find? name = some sequence ∧
          turns.length = 3 * sequence.gates.length ∧
          turns.map (fun turn => (turn.gate, turn.axis)) =
            sequence.gates.flatMap fun gate => [(gate, .z), (gate, .y), (gate, .x)]) ∧
      (workspace.answer (.play name)).1 = workspace ∧
      ∀ gates gates', Gate.turnsOfAll (gates ++ gates') =
        match Gate.turnsOfAll gates, Gate.turnsOfAll gates' with
        | .error refusal, _ => .error refusal
        | .ok _, .error refusal => .error refusal
        | .ok turns, .ok turns' => .ok (turns ++ turns') := by
  intro workspace
  have hunitary : ∀ name gate, workspace.gates.find? name = some gate → gate.isUnitary = true :=
    fun _ _ => isUnitary_serve qubit requests
  have hmeans (outcome) : workspace.play name = outcome ↔ Means workspace name outcome :=
    ⟨fun h => h ▸ means_play hunitary, fun h => h.play_eq hunitary⟩
  -- each of the facts is one case of what the outcome means
  refine ⟨hmeans, ⟨fun h => ?_, fun h => (hmeans _).2 (.unknownSequence h)⟩, fun gate h => ?_,
    fun turns h => ?_, rfl, Gate.turnsOfAll_append⟩
  · cases (hmeans _).1 h with
    | unknownSequence hnone => exact hnone
  · cases (hmeans _).1 h
  · cases (hmeans _).1 h with
    | played hfound hgates =>
      refine ⟨_, hfound, ?_, map_turns_of_forall₂ hgates⟩
      have hlength := congrArg List.length (map_turns_of_forall₂ hgates)
      simpa [Nat.mul_comm] using hlength

/-! ### Going on -/

/-- **A stored gate stays as it is unless it is taken out.** -/
theorem Changes.find?_gates {edit : Edit} {gate : Gate} (hchange : Changes workspace edit changed)
    (hkept : edit ≠ .removeGate name) (h : workspace.gates.find? name = some gate) :
    changed.gates.find? name = some gate := by
  cases hchange with
  | gateStored _ hnew _ => exact Catalog.find?_insert_of_new hnew h
  | gateRemoved other =>
    have hne : name ≠ other := fun heq => hkept (heq ▸ rfl)
    exact (workspace.gates.find?_erase_of_ne hne).trans h
  | sequenceStored | qubitSet | refused => exact h

/-- A gate that is never taken out stays as it is. -/
theorem find?_gates_run {edits : List Edit} {gate : Gate} (hkept : .removeGate name ∉ edits)
    (h : workspace.gates.find? name = some gate) :
    (workspace.run edits).gates.find? name = some gate := by
  induction edits generalizing workspace with
  | nil => exact h
  | cons edit edits ih =>
    rw [List.mem_cons, not_or] at hkept
    exact ih hkept.2 ((changes_edit workspace edit).find?_gates (Ne.symm hkept.1) h)

/-- A sequence stays as it is: nothing takes it out, and its name stays taken. -/
theorem find?_sequences_run (edits : List Edit) {sequence : Sequence}
    (h : workspace.sequences.find? name = some sequence) :
    (workspace.run edits).sequences.find? name = some sequence := by
  induction edits generalizing workspace with
  | nil => exact h
  | cons edit edits ih => exact ih ((changes_edit workspace edit).find?_sequences h)

/-- A sequence that plays is stored, and so are the gates that it lists. -/
theorem exists_of_play_eq_ok (h : workspace.play name = .ok turns) :
    ∃ sequence, workspace.sequences.find? name = some sequence ∧
      ∀ gate ∈ sequence.gates, ∃ stored, workspace.gates.find? gate = some stored := by
  rw [play] at h
  cases hfound : workspace.sequences.find? name with
  | none => simp [hfound] at h
  | some sequence =>
    refine ⟨sequence, rfl, fun gate hgate => ?_⟩
    simp only [hfound, mapM_listedGate] at h
    cases hfirst : sequence.gates.find? (!workspace.gates.contains ·) with
    | some missing => rw [hfirst] at h; cases h
    | none =>
      have hknown := Catalog.find?_not_contains_eq_none_iff.1 hfirst gate hgate
      exact Option.isSome_iff_exists.1 hknown

/-- Looking up listed gates depends on what is found under their names alone. -/
theorem mapM_listedGate_congr {names : List String}
    (h : ∀ gate ∈ names, changed.gates.find? gate = workspace.gates.find? gate) :
    names.mapM (changed.listedGate name) = names.mapM (workspace.listedGate name) := by
  induction names with
  | nil => rfl
  | cons gate names ih =>
    obtain ⟨hgate, hnames⟩ := List.forall_mem_cons.1 h
    rw [List.mapM_cons, List.mapM_cons, ih hnames, listedGate, listedGate, hgate]

/-- **Playing a sequence asks for its record and for those of its gates only.** -/
theorem play_congr {sequence : Sequence} (h : workspace.sequences.find? name = some sequence)
    (hsequence : changed.sequences.find? name = some sequence)
    (hgates : ∀ gate ∈ sequence.gates, changed.gates.find? gate = workspace.gates.find? gate) :
    changed.play name = workspace.play name := by
  rw [play, play, h, hsequence]
  dsimp only
  rw [mapM_listedGate_congr hgates]

/-- **A sequence that plays goes on to play the same turns until a gate that it lists is taken
out.** -/
theorem play_run_of_kept {edits : List Edit} (h : workspace.play name = .ok turns)
    (hkept : ∀ sequence, workspace.sequences.find? name = some sequence →
      ∀ gate ∈ sequence.gates, .removeGate gate ∉ edits) :
    (workspace.run edits).play name = .ok turns := by
  obtain ⟨sequence, hfound, hstored⟩ := exists_of_play_eq_ok h
  have hgates (gate : String) (hgate : gate ∈ sequence.gates) :
      (workspace.run edits).gates.find? gate = workspace.gates.find? gate := by
    obtain ⟨stored, hgate'⟩ := hstored gate hgate
    rw [hgate', find?_gates_run (hkept sequence hfound gate hgate) hgate']
  rw [play_congr hfound (find?_sequences_run edits hfound) hgates, h]

/-- Changes that leave the swapping gate and its sequence as they are: some take out or store
something else, and some are refused. -/
def otherEdits : List Edit :=
  [.removeGate "Y", .insertGate swapGate, .insertSequence ⟨"flip", []⟩,
    .insertSequence ⟨"flip twice", ["X", "X"]⟩, .setQubit { basis := .hadamard },
    .insertGate { name := "X", scalar := "-1" }]

/-- The sequence goes on to swap the states after changes that leave its gate. -/
theorem play_swapSequence_of_otherEdits :
    ((ofQubit {}).run swapEdits).play "flip" = .ok (swapGate.operator.turns "X") ∧
      (∀ gate ∈ swapSequence.gates, .removeGate gate ∉ otherEdits) ∧
      (((ofQubit {}).run swapEdits).run otherEdits).play "flip" =
        .ok (swapGate.operator.turns "X") := by
  have hfound : ((ofQubit {}).run swapEdits).sequences.find? "flip" = some swapSequence := by
    rw [run_swapEdits]; rfl
  have hplay : ((ofQubit {}).run swapEdits).play "flip" = .ok (swapGate.operator.turns "X") := by
    rw [play_eq hfound fun _ _ => isUnitary_run {} swapEdits, run_swapEdits]; rfl
  have hkept : ∀ gate ∈ swapSequence.gates, .removeGate gate ∉ otherEdits := by
    simp [swapSequence, otherEdits]
  refine ⟨hplay, hkept, play_run_of_kept hplay fun sequence hsequence => ?_⟩
  obtain rfl := Option.some.inj (hfound.symm.trans hsequence)
  exact hkept

end Workspace
end QubitSphere
