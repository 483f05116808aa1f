/-
# Changes that can be made in any order

A change asks about some parts of a workspace, and it writes to one of them:

| change | asks about | writes to |
| --- | --- | --- |
| storing a gate | its name among the gates | the same |
| taking a gate out | its name among the gates | the same |
| storing a sequence | its name among the sequences, its gates | its name among the sequences |
| setting the qubit | the qubit | the qubit |

Every other part stays as it is (`edit_frame`), and what a change answers and writes depends on the
parts that it asks about alone (`edit_congr`).  Two changes are independent exactly if neither
writes to what the other asks about (`independent_iff`), and then they commute
(`Independent.edit_edit`).  So pairwise independent changes leave the same workspace in every order
(`run_eq_of_perm`), and each of them answers what it would answer alone (`log_of_pairwise`).
-/

import QubitSphere.Proofs.Workspace.Log
import QubitSphere.Proofs.Workspace.Playback
import Mathlib.Data.List.Find
import Mathlib.Data.List.Pairwise

namespace QubitSphere

/-- Whether a name is there depends on what is found under it. -/
theorem Catalog.contains_congr {α : Type} [Named α] {catalog catalog' : Catalog α} {name : String}
    (h : catalog.find? name = catalog'.find? name) :
    catalog.contains name = catalog'.contains name :=
  congrArg Option.isSome h

namespace Workspace

/-- The name of the gate that a change stores or takes out. -/
def Edit.gate? : Edit → Option String
  | .insertGate gate => some gate.name
  | .removeGate name => some name
  | .insertSequence _ | .setQubit _ => none

/-- Whether a change sets the qubit. -/
def Edit.setsQubit : Edit → Bool
  | .setQubit _ => true
  | .insertGate _ | .insertSequence _ | .removeGate _ => false

/-- Whether two changes are independent. -/
inductive Independent : Edit → Edit → Prop
  | gates {edit edit' : Edit} {name name' : String} :
      edit.gate? = some name → edit'.gate? = some name' → name ≠ name' → Independent edit edit'
  | sequences {sequence sequence' : Sequence} :
      sequence.name ≠ sequence'.name →
      Independent (.insertSequence sequence) (.insertSequence sequence')
  | unlisted {edit : Edit} {name : String} {sequence : Sequence} :
      edit.gate? = some name → name ∉ sequence.gates →
      Independent edit (.insertSequence sequence)
  | qubit {edit : Edit} (qubit : Qubit) :
      edit.setsQubit = false → Independent (.setQubit qubit) edit
  | symm {edit edit' : Edit} : Independent edit edit' → Independent edit' edit

/-! ### Parts of a workspace -/

/-- A part of a workspace: the qubit, or what is stored under a name. -/
inductive Part where
  | qubit
  | gate (name : String)
  | sequence (name : String)
deriving DecidableEq

/-- Whether two workspaces are the same in a part. -/
def AgreeAt (workspace workspace' : Workspace) : Part → Prop
  | .qubit => workspace.qubit = workspace'.qubit
  | .gate name => workspace.gates.find? name = workspace'.gates.find? name
  | .sequence name => workspace.sequences.find? name = workspace'.sequences.find? name

variable {workspace workspace' workspace'' : Workspace}

theorem AgreeAt.refl (workspace : Workspace) (part : Part) : workspace.AgreeAt workspace part := by
  cases part <;> exact rfl

theorem AgreeAt.symm {part : Part} (h : workspace.AgreeAt workspace' part) :
    workspace'.AgreeAt workspace part := by
  cases part <;> exact Eq.symm h

theorem AgreeAt.trans {part : Part} (h : workspace.AgreeAt workspace' part)
    (h' : workspace'.AgreeAt workspace'' part) : workspace.AgreeAt workspace'' part := by
  cases part <;> exact Eq.trans h h'

/-- **A workspace is what it holds in its parts.** -/
theorem eq_of_agreeAt (h : ∀ part, workspace.AgreeAt workspace' part) :
    workspace = workspace' := by
  have hqubit : workspace.qubit = workspace'.qubit := h .qubit
  have hgates : workspace.gates = workspace'.gates := Catalog.ext_find? fun name => h (.gate name)
  have hsequences : workspace.sequences = workspace'.sequences :=
    Catalog.ext_find? fun name => h (.sequence name)
  cases workspace
  cases workspace'
  cases hqubit
  cases hgates
  cases hsequences
  rfl

/-- The part that a change writes to. -/
def Edit.target : Edit → Part
  | .insertGate gate => .gate gate.name
  | .removeGate name => .gate name
  | .insertSequence sequence => .sequence sequence.name
  | .setQubit _ => .qubit

/-- The parts that a change asks about, the one that it writes to first. -/
def Edit.asked (edit : Edit) : List Part :=
  edit.target ::
    match edit with
    | .insertSequence sequence => sequence.gates.map .gate
    | .insertGate _ | .removeGate _ | .setQubit _ => []

/-- A change is one of a gate, stores a sequence, or sets the qubit. -/
theorem Edit.kinds (edit : Edit) :
    (∃ name, edit.gate? = some name) ∨ (∃ sequence, edit = .insertSequence sequence) ∨
      ∃ qubit, edit = .setQubit qubit := by
  cases edit with
  | insertGate gate => exact .inl ⟨gate.name, rfl⟩
  | removeGate name => exact .inl ⟨name, rfl⟩
  | insertSequence sequence => exact .inr (.inl ⟨sequence, rfl⟩)
  | setQubit qubit => exact .inr (.inr ⟨qubit, rfl⟩)

/-- A change of a gate writes to the gate and asks about nothing else. -/
theorem Edit.of_gate? {edit : Edit} {name : String} (h : edit.gate? = some name) :
    edit.target = .gate name ∧ edit.asked = [.gate name] ∧ edit.setsQubit = false := by
  cases edit <;> cases h <;> exact ⟨rfl, rfl, rfl⟩

/-- **Changes are independent exactly if neither writes to what the other asks about.** -/
theorem independent_iff {edit edit' : Edit} :
    Independent edit edit' ↔ edit.target ∉ edit'.asked ∧ edit'.target ∉ edit.asked := by
  constructor
  · intro h
    induction h with
    | gates hgate hgate' hne =>
      obtain ⟨htarget, hasked, -⟩ := Edit.of_gate? hgate
      obtain ⟨htarget', hasked', -⟩ := Edit.of_gate? hgate'
      rw [htarget, htarget', hasked, hasked']
      simpa using ⟨hne, Ne.symm hne⟩
    | sequences hne => simpa [Edit.asked, Edit.target] using ⟨hne, Ne.symm hne⟩
    | unlisted hgate hunlisted =>
      obtain ⟨htarget, hasked, -⟩ := Edit.of_gate? hgate
      rw [htarget, hasked]
      simpa [Edit.asked, Edit.target] using hunlisted
    | @qubit edit _ hset => cases edit <;> first | cases hset; done | simp [Edit.asked, Edit.target]
    | symm _ ih => exact ih.symm
  · rintro ⟨h, h'⟩
    -- which rule makes the changes independent depends on the kinds of both
    rcases edit.kinds with ⟨name, hgate⟩ | ⟨sequence, rfl⟩ | ⟨qubit, rfl⟩
    · obtain ⟨htarget, -, hset⟩ := Edit.of_gate? hgate
      rw [htarget] at h
      rcases edit'.kinds with ⟨name', hgate'⟩ | ⟨sequence', rfl⟩ | ⟨qubit', rfl⟩
      · obtain ⟨-, hasked', -⟩ := Edit.of_gate? hgate'
        rw [hasked'] at h
        exact .gates hgate hgate' (by simpa using h)
      · exact .unlisted hgate (by simpa [Edit.asked, Edit.target] using h)
      · exact .symm (.qubit qubit' hset)
    · rcases edit'.kinds with ⟨name', hgate'⟩ | ⟨sequence', rfl⟩ | ⟨qubit', rfl⟩
      · obtain ⟨htarget', -, -⟩ := Edit.of_gate? hgate'
        rw [htarget'] at h'
        exact .symm (.unlisted hgate' (by simpa [Edit.asked, Edit.target] using h'))
      · exact .sequences (by simpa [Edit.asked, Edit.target] using h)
      · exact .symm (.qubit qubit' rfl)
    · rcases edit'.kinds with ⟨name', hgate'⟩ | ⟨sequence', rfl⟩ | ⟨qubit', rfl⟩
      · exact .qubit qubit (Edit.of_gate? hgate').2.2
      · exact .qubit qubit rfl
      · exact absurd List.mem_cons_self h

instance : DecidableRel Independent := fun _ _ => decidable_of_iff _ independent_iff.symm

/-! ### What a change writes and answers -/

/-- **A change leaves every part as it is but the one that it writes to.** -/
theorem edit_frame (workspace : Workspace) {edit : Edit} {part : Part} (h : part ≠ edit.target) :
    (workspace.edit edit).1.AgreeAt workspace part := by
  have hchange := changes_edit workspace edit
  generalize (workspace.edit edit).1 = changed at hchange
  cases hchange with
  | @gateStored gate _ _ _ =>
    cases part with
    | gate name =>
      have hname : name ≠ gate.name := fun heq => h (congrArg Part.gate heq)
      exact workspace.gates.find?_insert_of_ne hname
    | qubit | sequence => exact rfl
  | @sequenceStored sequence _ _ _ =>
    cases part with
    | sequence name =>
      have hname : name ≠ sequence.name := fun heq => h (congrArg Part.sequence heq)
      exact workspace.sequences.find?_insert_of_ne hname
    | qubit | gate => exact rfl
  | gateRemoved removed =>
    cases part with
    | gate name =>
      have hname : name ≠ removed := fun heq => h (congrArg Part.gate heq)
      exact workspace.gates.find?_erase_of_ne hname
    | qubit | sequence => exact rfl
  | qubitSet qubit =>
    cases part with
    | qubit => exact absurd rfl h
    | gate | sequence => exact rfl
  | refused => exact .refl workspace part

/-- **What a change answers and writes depends on the parts that it asks about alone.** -/
theorem edit_congr {edit : Edit} (h : ∀ part ∈ edit.asked, workspace.AgreeAt workspace' part) :
    (workspace.edit edit).2 = (workspace'.edit edit).2 ∧
      (workspace.edit edit).1.AgreeAt (workspace'.edit edit).1 edit.target := by
  have htarget : workspace.AgreeAt workspace' edit.target := h _ List.mem_cons_self
  cases edit with
  | insertGate gate =>
    have hfound : workspace.gates.find? gate.name = workspace'.gates.find? gate.name := htarget
    rw [edit, edit, insertGate_eq, insertGate_eq, Catalog.contains_congr hfound]
    cases gate.firstReason? (workspace'.gates.contains gate.name) with
    | some refusal => exact ⟨rfl, hfound⟩
    | none =>
      have hinsert := workspace.gates.find?_insert_self gate
      exact ⟨rfl, hinsert.trans (workspace'.gates.find?_insert_self gate).symm⟩
  | insertSequence sequence =>
    have hfound : workspace.sequences.find? sequence.name =
        workspace'.sequences.find? sequence.name := htarget
    -- storing a sequence asks about the gates that it lists as well
    have hlisted (gate : String) (hgate : gate ∈ sequence.gates) :
        (!workspace.gates.contains gate) = !workspace'.gates.contains gate :=
      congrArg not (Catalog.contains_congr
        (h (.gate gate) (List.mem_cons_of_mem _ (List.mem_map_of_mem hgate))))
    rw [edit, edit, insertSequence, insertSequence, Catalog.contains_congr hfound,
      List.find?_congr hlisted]
    split_ifs with hblank htaken
    · exact ⟨rfl, hfound⟩
    · exact ⟨rfl, hfound⟩
    · cases sequence.gates.find? (!workspace'.gates.contains ·) with
      | some missing => exact ⟨rfl, hfound⟩
      | none =>
        have hinsert := workspace.sequences.find?_insert_self sequence
        exact ⟨rfl, hinsert.trans (workspace'.sequences.find?_insert_self sequence).symm⟩
  | removeGate name =>
    have hfound : workspace.gates.find? name = workspace'.gates.find? name := htarget
    have herase := workspace.gates.find?_erase_self name
    exact ⟨congrArg Reply.removed hfound,
      herase.trans (workspace'.gates.find?_erase_self name).symm⟩
  | setQubit qubit => exact ⟨rfl, rfl⟩

/-! ### Independent changes -/

/-- A change asks about the same as before an independent one. -/
theorem Independent.agreeAt {edit edit' : Edit} (h : Independent edit edit')
    (workspace : Workspace) :
    ∀ part ∈ edit'.asked, (workspace.edit edit).1.AgreeAt workspace part := by
  intro part hpart
  refine edit_frame workspace fun htarget => ?_
  exact (independent_iff.1 h).1 (htarget ▸ hpart)

/-- **Independent changes commute.** -/
theorem Independent.edit_edit {edit edit' : Edit} (h : Independent edit edit')
    (workspace : Workspace) :
    ((workspace.edit edit).1.edit edit').1 = ((workspace.edit edit').1.edit edit).1 := by
  have hwritten {edit edit' : Edit} (h : Independent edit edit') :
      ((workspace.edit edit).1.edit edit').1.AgreeAt ((workspace.edit edit').1.edit edit).1
        edit'.target := by
    have hne : edit'.target ≠ edit.target := fun heq =>
      (independent_iff.1 h).2 (heq ▸ List.mem_cons_self)
    exact (edit_congr (h.agreeAt workspace)).2.trans (edit_frame _ hne).symm
  refine eq_of_agreeAt fun part => ?_
  by_cases hpart' : part = edit'.target
  · exact hpart' ▸ hwritten h
  by_cases hpart : part = edit.target
  · exact hpart ▸ (hwritten h.symm).symm
  have hleft := (edit_frame (workspace.edit edit).1 hpart').trans (edit_frame workspace hpart)
  have hright := (edit_frame (workspace.edit edit').1 hpart).trans (edit_frame workspace hpart')
  exact hleft.trans hright.symm

/-- **Pairwise independent changes leave the same workspace in every order.** -/
theorem run_eq_of_perm {edits edits' : List Edit} (h : edits.Pairwise Independent)
    (hperm : edits.Perm edits') (workspace : Workspace) :
    workspace.run edits = workspace.run edits' := by
  have hsymm : Std.Symm Independent := ⟨fun _ _ => .symm⟩
  refine hperm.foldl_eq' (fun edit hedit edit' hedit' workspace => ?_) workspace
  by_cases heq : edit = edit'
  · rw [heq]
  · exact (h.forall hedit hedit' heq).edit_edit workspace

/-- **Each of pairwise independent changes answers what it would answer alone.** -/
theorem log_of_pairwise {edits : List Edit} (h : edits.Pairwise Independent)
    (workspace : Workspace) :
    workspace.log edits = edits.map fun edit => (edit, (workspace.edit edit).2) := by
  induction edits generalizing workspace with
  | nil => rfl
  | cons first edits ih =>
    obtain ⟨hfirst, hedits⟩ := List.pairwise_cons.1 h
    rw [log, ih hedits, List.map_cons]
    congr 1
    refine List.map_congr_left fun edit hedit => ?_
    rw [(edit_congr ((hfirst edit hedit).agreeAt workspace)).1]

/-- **Pairwise independent changes come to the same in every order**: the same workspace, and for
each change the same answer, which is the one that it would have alone. -/
theorem run_log_of_perm {edits edits' : List Edit} (h : edits.Pairwise Independent)
    (hperm : edits.Perm edits') (workspace : Workspace) :
    workspace.run edits = workspace.run edits' ∧
      (workspace.log edits = edits.map fun edit => (edit, (workspace.edit edit).2)) ∧
      workspace.log edits' = edits'.map fun edit => (edit, (workspace.edit edit).2) :=
  ⟨run_eq_of_perm h hperm workspace, log_of_pairwise h workspace,
    log_of_pairwise ((hperm.pairwise_iff .symm).1 h) workspace⟩

/-- Independent changes; storing `phase`, `flip` and `Y` is refused where the swapping gate and its
sequence are stored. -/
def apartEdits : List Edit :=
  [.removeGate "X", .insertSequence ⟨"rest", []⟩, .insertSequence ⟨"phase", ["S"]⟩,
    .insertSequence ⟨"flip", ["Z"]⟩, .insertGate { name := "Y" }, .setQubit { basis := .hadamard }]

/-- Six independent changes leave the same workspace backwards, with the same answers, refusals
among them. -/
theorem run_log_reverse_apartEdits :
    apartEdits.Pairwise Independent ∧ apartEdits.Perm apartEdits.reverse ∧
      let workspace := (ofQubit {}).run swapEdits
      workspace.run apartEdits = workspace.run apartEdits.reverse ∧
        (workspace.log apartEdits = apartEdits.map fun edit => (edit, (workspace.edit edit).2)) ∧
        workspace.log apartEdits.reverse =
          apartEdits.reverse.map fun edit => (edit, (workspace.edit edit).2) := by
  have hindependent : apartEdits.Pairwise Independent := by decide
  have hperm : apartEdits.Perm apartEdits.reverse := apartEdits.reverse_perm.symm
  exact ⟨hindependent, hperm, run_log_of_perm hindependent hperm _⟩

end Workspace
end QubitSphere
