/-
# Runs of a workspace

A gate is stored, or refused for the first of three reasons (`insertGate_eq`).  A run makes one
change after another, whether it is accepted or refused.  `Answers` lists all that one change can
answer and do, together with what it has checked before (`answers_edit`), `Changes` the same without
the answers, and no other proof about runs opens the operations.  Two facts hold after every run
that starts with nothing stored: each stored gate writes a unitary operator (`isUnitary_run`), and a
stored sequence stays as it is (`Changes.find?_sequences`).
-/

import QubitSphere.Workspace
import Mathlib.Data.List.Induction

namespace QubitSphere

/-- Nothing is found under a name that is not there. -/
theorem Catalog.find?_eq_none_of_contains {α : Type} [Named α] {catalog : Catalog α}
    {name : String} (h : catalog.contains name = false) : catalog.find? name = none := by
  rwa [contains, Option.isSome_eq_false_iff, Option.isNone_iff_eq_none] at h

/-- No name of a list is unknown if all of them are known. -/
theorem Catalog.find?_not_contains_eq_none_iff {α : Type} [Named α] {catalog : Catalog α}
    {names : List String} :
    names.find? (!catalog.contains ·) = none ↔ ∀ name ∈ names, catalog.contains name = true := by
  simp [List.find?_eq_none]

/-- A name is there behind one more record if it was before or is that of the record. -/
theorem Catalog.contains_insert {α : Type} [Named α] (catalog : Catalog α) (record : α)
    (name : String) :
    (catalog.insert record).contains name = (catalog.contains name || nameOf record == name) := by
  by_cases hname : name = nameOf record
  · rw [contains, hname, find?_insert_self]
    simp
  · rw [contains, find?_insert_of_ne catalog hname]
    simp [contains, Ne.symm hname]

/-- A record that is found goes on to be found when one of a new name is stored. -/
theorem Catalog.find?_insert_of_new {α : Type} [Named α] {catalog : Catalog α} {record found : α}
    {name : String} (hnew : catalog.find? (nameOf record) = none)
    (h : catalog.find? name = some found) : (catalog.insert record).find? name = some found := by
  have hne : name ≠ nameOf record := by
    rintro rfl
    exact Option.some_ne_none found (h.symm.trans hnew)
  exact (catalog.find?_insert_of_ne hne).trans h

/-- The first reason for which a gate is refused; `taken` tells whether its name is taken. -/
def Gate.firstReason? (taken : Bool) (gate : Gate) : Option Refusal :=
  if Text.isBlank gate.name then some .emptyName
  else if taken then some (.duplicateGate gate.name)
  else if gate.isUnitary then none
  else some (.notUnitary gate.name)

/-- There is no reason to refuse a gate exactly if it has a name, which is free, and a unitary
operator. -/
theorem Gate.firstReason?_eq_none_iff {taken : Bool} {gate : Gate} :
    gate.firstReason? taken = none ↔
      Text.isBlank gate.name = false ∧ gate.isUnitary = true ∧ taken = false := by
  rw [firstReason?]
  split_ifs <;> simp_all

namespace Workspace

/-- **A gate is stored unless there is a reason to refuse it.** -/
theorem insertGate_eq (workspace : Workspace) (gate : Gate) :
    workspace.insertGate gate =
      match gate.firstReason? (workspace.gates.contains gate.name) with
      | some refusal => (workspace, .error refusal)
      | none => ({ workspace with gates := workspace.gates.insert gate }, .ok ()) := by
  rw [insertGate, Gate.firstReason?, Gate.validate]
  split_ifs <;> rfl

/-- The workspace that changes leave, made one after another. -/
def run (workspace : Workspace) (edits : List Edit) : Workspace :=
  edits.foldl (fun workspace edit => (workspace.edit edit).1) workspace

theorem run_append (workspace : Workspace) (edits edits' : List Edit) :
    workspace.run (edits ++ edits') = (workspace.run edits).run edits' :=
  List.foldl_append

/-- The last change of a run is made in the workspace that the others leave. -/
@[simp] theorem run_concat (workspace : Workspace) (edits : List Edit) (edit : Edit) :
    workspace.run (edits ++ [edit]) = ((workspace.run edits).edit edit).1 :=
  run_append workspace edits [edit]

/-- What a change makes of a workspace. -/
inductive Changes (workspace : Workspace) : Edit → Workspace → Prop
  | gateStored {gate : Gate} :
      Text.isBlank gate.name = false → workspace.gates.find? gate.name = none →
      gate.isUnitary = true →
      Changes workspace (.insertGate gate)
        { workspace with gates := workspace.gates.insert gate }
  | sequenceStored {sequence : Sequence} :
      Text.isBlank sequence.name = false → workspace.sequences.find? sequence.name = none →
      (∀ gate ∈ sequence.gates, workspace.gates.contains gate = true) →
      Changes workspace (.insertSequence sequence)
        { workspace with sequences := workspace.sequences.insert sequence }
  | gateRemoved (name : String) : Changes workspace (.removeGate name) (workspace.removeGate name)
  | qubitSet (qubit : Qubit) : Changes workspace (.setQubit qubit) { workspace with qubit }
  | refused (edit : Edit) : Changes workspace edit workspace

/-- What a change answers, with the workspace that it leaves. -/
inductive Answers (workspace : Workspace) : Edit → Workspace × Reply → Prop
  | gateStored {gate : Gate} :
      Text.isBlank gate.name = false → workspace.gates.find? gate.name = none →
      gate.isUnitary = true →
      Answers workspace (.insertGate gate)
        ({ workspace with gates := workspace.gates.insert gate }, .done)
  | gateRefused (gate : Gate) (refusal : Refusal) :
      Answers workspace (.insertGate gate) (workspace, .refused refusal)
  | sequenceStored {sequence : Sequence} :
      Text.isBlank sequence.name = false → workspace.sequences.find? sequence.name = none →
      (∀ gate ∈ sequence.gates, workspace.gates.contains gate = true) →
      Answers workspace (.insertSequence sequence)
        ({ workspace with sequences := workspace.sequences.insert sequence }, .done)
  | sequenceRefused (sequence : Sequence) (refusal : Refusal) :
      Answers workspace (.insertSequence sequence) (workspace, .refused refusal)
  | gateRemoved (name : String) :
      Answers workspace (.removeGate name)
        (workspace.removeGate name, .removed (workspace.gates.find? name))
  | qubitSet (qubit : Qubit) :
      Answers workspace (.setQubit qubit) ({ workspace with qubit }, .done)

/-- **A change answers one of the things that `Answers` lists.** -/
theorem answers_edit (workspace : Workspace) (edit : Edit) :
    Answers workspace edit (workspace.edit edit) := by
  cases edit with
  | insertGate gate =>
    rw [Workspace.edit, insertGate_eq]
    cases hreason : gate.firstReason? (workspace.gates.contains gate.name) with
    | some refusal => exact .gateRefused gate refusal
    | none =>
      obtain ⟨hblank, hunitary, hcontains⟩ := Gate.firstReason?_eq_none_iff.1 hreason
      exact .gateStored hblank (Catalog.find?_eq_none_of_contains hcontains) hunitary
  | insertSequence sequence =>
    rw [Workspace.edit, Workspace.insertSequence]
    by_cases hblank : Text.isBlank sequence.name = true
    · rw [if_pos hblank]; exact .sequenceRefused _ _
    by_cases hcontains : workspace.sequences.contains sequence.name = true
    · rw [if_neg hblank, if_pos hcontains]; exact .sequenceRefused _ _
    rw [if_neg hblank, if_neg hcontains]
    cases hmissing : sequence.gates.find? (!workspace.gates.contains ·) with
    | some missing => exact .sequenceRefused _ _
    | none =>
      have hnew := Catalog.find?_eq_none_of_contains (Bool.not_eq_true _ ▸ hcontains)
      have hlisted := Catalog.find?_not_contains_eq_none_iff.1 hmissing
      exact .sequenceStored (Bool.not_eq_true _ ▸ hblank) hnew hlisted
  | removeGate name => exact .gateRemoved name
  | setQubit qubit => exact .qubitSet qubit

/-- **A change does one of the things that `Changes` lists.** -/
theorem changes_edit (workspace : Workspace) (edit : Edit) :
    Changes workspace edit (workspace.edit edit).1 := by
  have hanswers := answers_edit workspace edit
  generalize workspace.edit edit = answer at hanswers
  cases hanswers with
  | gateStored hblank hnew hunitary => exact .gateStored hblank hnew hunitary
  | sequenceStored hblank hnew hlisted => exact .sequenceStored hblank hnew hlisted
  | gateRemoved name => exact .gateRemoved name
  | qubitSet qubit => exact .qubitSet qubit
  | gateRefused | sequenceRefused => exact .refused _

variable {workspace changed : Workspace} {edit : Edit}

/-- **A stored sequence stays as it is.** -/
theorem Changes.find?_sequences {name : String} {sequence : Sequence}
    (hchange : Changes workspace edit changed)
    (h : workspace.sequences.find? name = some sequence) :
    changed.sequences.find? name = some sequence := by
  cases hchange with
  | sequenceStored _ hnew _ => exact Catalog.find?_insert_of_new hnew h
  | gateStored | gateRemoved | qubitSet | refused => exact h

/-- **A sequence that was not stored before lists stored gates only.** -/
theorem Changes.contains_of_stored {name gate : String} {sequence : Sequence}
    (hchange : Changes workspace edit changed)
    (hnew : workspace.sequences.find? name ≠ some sequence)
    (h : changed.sequences.find? name = some sequence) (hgate : gate ∈ sequence.gates) :
    changed.gates.contains gate = true := by
  cases hchange with
  | @sequenceStored other _ _ hlisted =>
    by_cases hname : name = Named.nameOf other
    · subst hname
      rw [Catalog.find?_insert_self] at h
      exact hlisted gate (Option.some.inj h ▸ hgate)
    · exact absurd ((workspace.sequences.find?_insert_of_ne hname).symm.trans h) hnew
  | gateStored | gateRemoved | qubitSet | refused => exact absurd h hnew

/-- **Only taking a gate out makes its name unknown.** -/
theorem Changes.eq_removeGate {gate : String} (hchange : Changes workspace edit changed)
    (h : workspace.gates.contains gate = true) (h' : changed.gates.contains gate = false) :
    edit = .removeGate gate := by
  cases hchange with
  | gateStored _ _ _ =>
    rw [Catalog.contains_insert, h] at h'
    cases h'
  | gateRemoved name =>
    by_cases hname : gate = name
    · rw [hname]
    · rw [removeGate, Catalog.contains, Catalog.find?_erase_of_ne _ hname] at h'
      exact absurd (h.symm.trans h') (by simp)
  | sequenceStored | qubitSet | refused => exact absurd (h.symm.trans h') (by simp)

/-- **Every stored gate goes on to write a unitary operator.** -/
theorem Changes.isUnitary (hchange : Changes workspace edit changed)
    (h : ∀ name gate, workspace.gates.find? name = some gate → gate.isUnitary = true)
    {name : String} {gate : Gate} (hgate : changed.gates.find? name = some gate) :
    gate.isUnitary = true := by
  cases hchange with
  | @gateStored other _ _ hunitary =>
    by_cases hname : name = Named.nameOf other
    · rw [hname, Catalog.find?_insert_self] at hgate
      exact Option.some.inj hgate ▸ hunitary
    · rw [Catalog.find?_insert_of_ne _ hname] at hgate
      exact h name gate hgate
  | gateRemoved other =>
    by_cases hname : name = other
    · rw [removeGate, hname, Catalog.find?_erase_self] at hgate
      exact absurd hgate (Option.some_ne_none gate).symm
    · rw [removeGate, Catalog.find?_erase_of_ne _ hname] at hgate
      exact h name gate hgate
  | sequenceStored | qubitSet | refused => exact h name gate hgate

/-- **After every run the stored gates write unitary operators.** -/
theorem isUnitary_run (qubit : Qubit) (edits : List Edit) {name : String} {gate : Gate}
    (h : ((ofQubit qubit).run edits).gates.find? name = some gate) : gate.isUnitary = true := by
  induction edits using List.reverseRecOn generalizing name gate with
  | nil => cases h
  | append_singleton edits edit ih =>
    rw [run_concat] at h
    exact (changes_edit _ edit).isUnitary (fun _ _ => ih) h

end Workspace
end QubitSphere
