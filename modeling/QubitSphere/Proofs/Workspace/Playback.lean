/-
# Playing what is stored

A sequence is stored only if every gate it lists is, but a gate may be taken out while sequences
list it, and playing such a sequence is refused (`play_eq`).  In a run that starts with nothing
stored that is the only reason: the gates that a stored sequence lists and that are unknown are
those that were taken out since it was stored, and not stored again (`TakenOut`), and the sequence
plays exactly if there are none (`play_run`).
-/

import QubitSphere.Proofs.Expr.Height
import QubitSphere.Proofs.Workspace.Run
import Mathlib.Data.List.Forall2

namespace QubitSphere

/-- What is found for each member of a list, if something is for all of them. -/
theorem forall₂_eq_some_iff {α β : Type} {f : α → Option β} {as : List α} {bs : List β} :
    List.Forall₂ (fun a b => f a = some b) as bs ↔
      (∀ a ∈ as, (f a).isSome = true) ∧ as.filterMap f = bs := by
  constructor
  · intro h
    induction h with
    | nil => exact ⟨nofun, rfl⟩
    | cons ha _ ih =>
      refine ⟨List.forall_mem_cons.2 ⟨Option.isSome_of_eq_some ha, ih.1⟩, ?_⟩
      rw [List.filterMap_cons_some ha, ih.2]
  · rintro ⟨h, rfl⟩
    induction as with
    | nil => exact .nil
    | cons a as ih =>
      obtain ⟨ha, has⟩ := List.forall_mem_cons.1 h
      obtain ⟨b, hb⟩ := Option.isSome_iff_exists.1 ha
      rw [List.filterMap_cons_some hb]
      exact .cons hb (ih has)

/-- Gates with unitary operators all have turns. -/
theorem Gate.mapM_turns {gates : List Gate} (h : ∀ gate ∈ gates, gate.isUnitary = true) :
    gates.mapM Gate.turns = .ok (gates.map fun gate => gate.operator.turns gate.name) := by
  induction gates with
  | nil => rfl
  | cons gate gates ih =>
    obtain ⟨hgate, hgates⟩ := List.forall_mem_cons.1 h
    rw [List.mapM_cons, ih hgates, Gate.turns, Gate.validate, if_pos hgate]
    rfl

/-- **Gates that write unitary operators are played one after another.** -/
theorem Gate.turnsOfAll_eq {gates : List Gate} (h : ∀ gate ∈ gates, gate.isUnitary = true) :
    Gate.turnsOfAll gates = .ok (gates.flatMap fun gate => gate.operator.turns gate.name) := by
  rw [Gate.turnsOfAll, Gate.mapM_turns h]
  rfl

/-- The empty text stands for zero. -/
theorem Expr.valueOrZero_empty : Expr.valueOrZero "" = 0.0 := by
  cases hread : Expr.read "" with
  | error cause => rw [valueOrZero, valueOf?, valueOf, hread]; rfl
  | ok t =>
    obtain ⟨d, -, h⟩ := Expr.read_eq_ok_iff.1 hread
    exact absurd Token.scan_nil h.ne_nil

/-- The text `1` stands for the number that it writes. -/
theorem Expr.valueOrZero_one : Expr.valueOrZero "1" = (Literal.written "1").value := by
  have hread : Expr.read "1" = .ok (sumOfOnes 0) := read_onesText 0
  rw [valueOrZero, valueOf?, valueOf, hread]
  rfl

namespace Workspace

/-- **The listed gates are looked up in their order, up to the first that is unknown.** -/
theorem mapM_listedGate (workspace : Workspace) (sequence : String) (listed : List String) :
    listed.mapM (workspace.listedGate sequence) =
      match listed.find? (!workspace.gates.contains ·) with
      | some missing => .error (.unknownGate sequence missing)
      | none => .ok (listed.filterMap workspace.gates.find?) := by
  induction listed with
  | nil => rfl
  | cons name listed ih =>
    rw [List.mapM_cons, ih, listedGate]
    cases hgate : workspace.gates.find? name with
    | none => simp [Catalog.contains, hgate]; rfl
    | some gate =>
      have hcontains : (!workspace.gates.contains name) = false := by
        simp [Catalog.contains, hgate]
      rw [List.find?_cons_of_neg (by simp [hcontains]), List.filterMap_cons_some hgate]
      cases listed.find? (!workspace.gates.contains ·) <;> rfl

/-- **What playing a stored sequence comes to**, if the stored gates write unitary operators. -/
theorem play_eq {workspace : Workspace} {name : String} {sequence : Sequence}
    (h : workspace.sequences.find? name = some sequence)
    (hunitary : ∀ name gate, workspace.gates.find? name = some gate → gate.isUnitary = true) :
    workspace.play name =
      match sequence.gates.find? (!workspace.gates.contains ·) with
      | some missing => .error (.unknownGate name missing)
      | none => .ok ((sequence.gates.filterMap workspace.gates.find?).flatMap
          fun gate => gate.operator.turns gate.name) := by
  have hgates : ∀ gate ∈ sequence.gates.filterMap workspace.gates.find?, gate.isUnitary = true := by
    intro gate hgate
    obtain ⟨name, -, hname⟩ := List.mem_filterMap.1 hgate
    exact hunitary name gate hname
  rw [play, h]
  dsimp only
  rw [mapM_listedGate]
  cases sequence.gates.find? (!workspace.gates.contains ·) with
  | some missing => rfl
  | none => exact Gate.turnsOfAll_eq hgates

/-- A stored sequence is played exactly if all its gates are stored, as those that are stored are
unitary. -/
theorem exists_play_iff {workspace : Workspace} {name : String} {sequence : Sequence}
    (h : workspace.sequences.find? name = some sequence)
    (hunitary : ∀ name gate, workspace.gates.find? name = some gate → gate.isUnitary = true) :
    (∃ turns, workspace.play name = .ok turns) ↔
      ∀ gate ∈ sequence.gates, workspace.gates.contains gate = true := by
  rw [play_eq h hunitary]
  cases hmissing : sequence.gates.find? (!workspace.gates.contains ·) with
  | some missing =>
    have hmem := List.mem_of_find?_eq_some hmissing
    have hunknown := List.find?_some hmissing
    refine ⟨nofun, fun hall => ?_⟩
    rw [hall missing hmem] at hunknown
    exact absurd hunknown (by simp)
  | none => exact ⟨fun _ => Catalog.find?_not_contains_eq_none_iff.1 hmissing, fun _ => ⟨_, rfl⟩⟩

/-! ### Gates that are taken out -/

/-- Whether a run takes out the gate `gate` while the sequence named `name` is stored, and does not
store it again. -/
def TakenOut (start : Workspace) (edits : List Edit) (name gate : String) : Prop :=
  ∃ before after, edits = before ++ .removeGate gate :: after ∧
    (start.run before).sequences.contains name = true ∧
    (start.run before).gates.contains gate = true ∧
    ∀ later, later <+: after →
      (start.run (before ++ .removeGate gate :: later)).gates.contains gate = false

variable {start : Workspace} {edits : List Edit} {name gate : String}

/-- A gate that was taken out and not stored again is not there at the end. -/
theorem TakenOut.contains_eq_false (h : TakenOut start edits name gate) :
    (start.run edits).gates.contains gate = false := by
  obtain ⟨before, after, rfl, -, -, hlater⟩ := h
  exact hlater after List.prefix_rfl

/-- A gate that is taken out stays so until it is stored again. -/
theorem TakenOut.concat (h : TakenOut start edits name gate) {edit : Edit}
    (hmissing : (start.run (edits ++ [edit])).gates.contains gate = false) :
    TakenOut start (edits ++ [edit]) name gate := by
  obtain ⟨before, after, rfl, hstored, hknown, hlater⟩ := h
  refine ⟨before, after ++ [edit], by simp, hstored, hknown, fun later hprefix => ?_⟩
  rcases List.prefix_concat_iff.1 hprefix with rfl | hprefix
  · simpa using hmissing
  · exact hlater later hprefix

/-- A gate that the last change of a run takes out. -/
theorem TakenOut.last (hstored : (start.run edits).sequences.contains name = true)
    (hknown : (start.run edits).gates.contains gate = true)
    (hmissing : (start.run (edits ++ [.removeGate gate])).gates.contains gate = false) :
    TakenOut start (edits ++ [.removeGate gate]) name gate := by
  refine ⟨edits, [], rfl, hstored, hknown, fun later hprefix => ?_⟩
  rw [List.prefix_nil.1 hprefix]
  exact hmissing

/-- **An unknown gate that a stored sequence lists was taken out.** -/
theorem takenOut_of_contains_eq_false {qubit : Qubit} {sequence : Sequence}
    (h : ((ofQubit qubit).run edits).sequences.find? name = some sequence)
    (hgate : gate ∈ sequence.gates)
    (hmissing : ((ofQubit qubit).run edits).gates.contains gate = false) :
    TakenOut (ofQubit qubit) edits name gate := by
  induction edits using List.reverseRecOn with
  | nil => cases h
  | append_singleton edits edit ih =>
    have hchange := changes_edit ((ofQubit qubit).run edits) edit
    rw [← run_concat] at hchange
    by_cases hold : ((ofQubit qubit).run edits).sequences.find? name = some sequence
    · cases hknown : ((ofQubit qubit).run edits).gates.contains gate with
      | false => exact (ih hold hknown).concat hmissing
      | true =>
        obtain rfl := hchange.eq_removeGate hknown hmissing
        exact .last (by rw [Catalog.contains, hold]; rfl) hknown hmissing
    · -- a sequence that was stored just now lists stored gates only
      rw [hchange.contains_of_stored hold h hgate] at hmissing
      cases hmissing

/-- **After every run the gates that a stored sequence lists are known, except those taken out since
it was stored and not stored again, and it plays exactly if there are none.** -/
theorem play_run {qubit : Qubit} {edits : List Edit} {name : String} {sequence : Sequence}
    (h : ((ofQubit qubit).run edits).sequences.find? name = some sequence) :
    (∀ gate ∈ sequence.gates, ((ofQubit qubit).run edits).gates.contains gate = false ↔
        TakenOut (ofQubit qubit) edits name gate) ∧
      ((∃ turns, ((ofQubit qubit).run edits).play name = .ok turns) ↔
        ∀ gate ∈ sequence.gates, ¬ TakenOut (ofQubit qubit) edits name gate) := by
  have hunknown : ∀ gate ∈ sequence.gates,
      ((ofQubit qubit).run edits).gates.contains gate = false ↔
        TakenOut (ofQubit qubit) edits name gate := fun gate hgate =>
    ⟨takenOut_of_contains_eq_false h hgate, TakenOut.contains_eq_false⟩
  refine ⟨hunknown, ?_⟩
  rw [exists_play_iff h fun _ _ => isUnitary_run qubit edits]
  refine forall₂_congr fun gate hgate => ?_
  rw [← hunknown gate hgate, Bool.not_eq_false]

/-! ### A gate that swaps the two states -/

/-- The gate that swaps the two states. -/
def swapGate : Gate := { name := "X", a12 := { real := "1" }, a21 := { real := "1" } }

/-- A sequence that lists the gate alone. -/
def swapSequence : Sequence := ⟨"flip", ["X"]⟩

/-- A workspace with the gate and the sequence. -/
def swapWorkspace : Workspace where
  gates := (ofQubit {}).gates.insert swapGate
  sequences := (ofQubit {}).sequences.insert swapSequence

theorem isUnitary_swapGate : swapGate.isUnitary = true := by
  rw [Gate.isUnitary, Gate.operator]
  simp only [swapGate, Entry.value, Expr.valueOrZero_empty, Expr.valueOrZero_one]
  decide +kernel

/-- The changes that store the gate and the sequence. -/
def swapEdits : List Edit := [.insertGate swapGate, .insertSequence swapSequence]

/-- The changes that store both and then take the gate out. -/
def removalEdits : List Edit := swapEdits ++ [.removeGate "X"]

/-- The gate is stored where its name is free. -/
theorem edit_insertGate_swapGate {workspace : Workspace}
    (h : workspace.gates.contains "X" = false) :
    (workspace.edit (.insertGate swapGate)).1 =
      { workspace with gates := workspace.gates.insert swapGate } := by
  have hblank : ¬ Text.isBlank swapGate.name = true := by decide
  have hcontains : ¬ workspace.gates.contains swapGate.name = true := Bool.not_eq_true _ ▸ h
  rw [edit, Workspace.insertGate, if_neg hblank, if_neg hcontains, Gate.validate,
    if_pos isUnitary_swapGate]
  rfl

theorem run_swapEdits : (ofQubit {}).run swapEdits = swapWorkspace := by
  rw [run, swapEdits, List.foldl_cons, edit_insertGate_swapGate rfl]
  rfl

theorem run_removalEdits : (ofQubit {}).run removalEdits = swapWorkspace.removeGate "X" := by
  rw [removalEdits, run_concat, run_swapEdits]
  rfl

/-- The sequence plays once the gate is taken out and stored again. -/
theorem exists_play_swapGate_again :
    ((ofQubit {}).run (removalEdits ++ [.insertGate swapGate])).sequences.find? "flip" =
        some swapSequence ∧
      ∃ turns, ((ofQubit {}).run (removalEdits ++ [.insertGate swapGate])).play "flip" =
        .ok turns := by
  have hrun : (ofQubit {}).run (removalEdits ++ [.insertGate swapGate]) =
      { swapWorkspace.removeGate "X" with
        gates := (swapWorkspace.removeGate "X").gates.insert swapGate } := by
    rw [run_concat, run_removalEdits]
    exact edit_insertGate_swapGate rfl
  have hstored :
      ((ofQubit {}).run (removalEdits ++ [.insertGate swapGate])).sequences.find? "flip" =
        some swapSequence := by
    rw [hrun]; rfl
  have hknown : ((ofQubit {}).run (removalEdits ++ [.insertGate swapGate])).gates.contains "X" =
      true := by
    rw [hrun]; rfl
  obtain ⟨hunknown, hplay⟩ := play_run hstored
  refine ⟨hstored, hplay.2 fun gate hgate htaken => ?_⟩
  obtain rfl := List.mem_singleton.1 hgate
  rw [(hunknown "X" hgate).2 htaken] at hknown
  cases hknown

/-- **A stored sequence does not play once its gate is taken out.** -/
theorem play_eq_error_of_removeGate :
    ((ofQubit {}).run removalEdits).sequences.find? "flip" = some swapSequence ∧
      "X" ∈ swapSequence.gates ∧ ((ofQubit {}).run removalEdits).gates.contains "X" = false ∧
      ((ofQubit {}).run removalEdits).play "flip" = .error (.unknownGate "flip" "X") := by
  rw [run_removalEdits]
  exact ⟨rfl, List.mem_singleton_self _, rfl, rfl⟩

end Workspace
end QubitSphere
