/-
# What a run has stored

The log of a run lists its changes with their answers, and it is all that one has to know to tell
what is stored.

| what is found under a name | what the log says |
| --- | --- |
| a gate | of the events that settle the name, the last one stores this gate (`LastStored`) |
| a sequence | the one event that stores a sequence of that name stores this one (`OnlyStored`) |

A gate of the name settles it when it is stored, and so does taking the name out.  Each event keeps
this true (`Answers.find?_gates_iff`, `Answers.explains`), and so does every run, by induction from
its end.  Whatever a log says is stored has passed its checks (`checked_of_lastStored`,
`checked_of_onlyStored`).
-/

import QubitSphere.Proofs.Workspace.Run

namespace QubitSphere

/-- The names of a catalog are in order and each is there once. -/
theorem Catalog.pairwise_names {α : Type} [Named α] (catalog : Catalog α) :
    catalog.names.Pairwise (· < ·) :=
  List.pairwise_map.2 catalog.increasing

/-- The names of a catalog are those under which something is found. -/
theorem Catalog.mem_names_iff {α : Type} [Named α] {catalog : Catalog α} {name : String} :
    name ∈ catalog.names ↔ ∃ record, catalog.find? name = some record := by
  rw [names, List.mem_map]
  constructor
  · rintro ⟨record, hrecord, rfl⟩
    exact ⟨record, find?_of_mem hrecord⟩
  · rintro ⟨record, hrecord⟩
    exact ⟨record, mem_of_find? hrecord⟩

namespace Workspace

/-- A change with its answer. -/
abbrev Event := Edit × Reply

/-- The events of a run. -/
def log (workspace : Workspace) : List Edit → List Event
  | [] => []
  | edit :: edits => (edit, (workspace.edit edit).2) :: log (workspace.edit edit).1 edits

/-- One more change adds one event, answered in the workspace that the others leave. -/
theorem log_concat (workspace : Workspace) (edits : List Edit) (edit : Edit) :
    workspace.log (edits ++ [edit]) =
      workspace.log edits ++ [(edit, ((workspace.run edits).edit edit).2)] := by
  induction edits generalizing workspace with
  | nil => rfl
  | cons first edits ih => rw [List.cons_append, log, ih, log]; rfl

/-- Whether an event settles which gate is stored under a name. -/
def SettlesGate (name : String) : Event → Prop
  | (.insertGate gate, .done) => gate.name = name
  | (.removeGate other, _) => other = name
  | _ => False

/-- Whether an event stores a sequence under a name. -/
def StoresSequence (name : String) : Event → Prop
  | (.insertSequence sequence, .done) => sequence.name = name
  | _ => False

/-- Whether a gate is stored under a name by the last event that settles the name. -/
def LastStored (log : List Event) (name : String) (gate : Gate) : Prop :=
  ∃ before after, log = before ++ (.insertGate gate, .done) :: after ∧ gate.name = name ∧
    ∀ event ∈ after, ¬ SettlesGate name event

/-- Whether a sequence is stored under a name by the only event that stores one there. -/
def OnlyStored (log : List Event) (name : String) (sequence : Sequence) : Prop :=
  ∃ before after, log = before ++ (.insertSequence sequence, .done) :: after ∧
    sequence.name = name ∧ ∀ event ∈ before ++ after, ¬ StoresSequence name event

/-! ### Gates -/

/-- One more event stores the gate itself, or it leaves the name unsettled. -/
theorem lastStored_concat_iff {log : List Event} {event : Event} {name : String} {gate : Gate} :
    LastStored (log ++ [event]) name gate ↔
      (event = (.insertGate gate, .done) ∧ gate.name = name) ∨
        (LastStored log name gate ∧ ¬ SettlesGate name event) := by
  constructor
  · rintro ⟨before, after, hlog, hname, hafter⟩
    rcases List.eq_nil_or_concat after with rfl | ⟨after, last, rfl⟩
    · obtain ⟨-, hevent⟩ := List.append_inj' hlog rfl
      exact .inl ⟨(List.cons.inj hevent).1, hname⟩
    · have hlog' : log ++ [event] =
          (before ++ (.insertGate gate, .done) :: after) ++ [last] := by simpa using hlog
      obtain ⟨hbefore, hevent⟩ := List.append_inj' hlog' rfl
      obtain rfl := (List.cons.inj hevent).1
      exact .inr ⟨⟨before, after, hbefore, hname, fun event h => hafter event (by simp [h])⟩,
        hafter event (by simp)⟩
  · rintro (⟨rfl, hname⟩ | ⟨⟨before, after, rfl, hname, hafter⟩, hevent⟩)
    · exact ⟨log, [], rfl, hname, by simp⟩
    · refine ⟨before, after ++ [event], by simp, hname, fun other hother => ?_⟩
      rcases List.mem_append.1 hother with hother | hother
      · exact hafter other hother
      · exact List.mem_singleton.1 hother ▸ hevent

/-- An event about other names does not matter. -/
theorem lastStored_concat_of_not_settles {log : List Event} {event : Event} {name : String}
    (h : ¬ SettlesGate name event) (gate : Gate) :
    LastStored (log ++ [event]) name gate ↔ LastStored log name gate := by
  rw [lastStored_concat_iff]
  refine ⟨?_, fun hlast => .inr ⟨hlast, h⟩⟩
  rintro (⟨rfl, hname⟩ | ⟨hlast, -⟩)
  · exact absurd hname h
  · exact hlast

variable {workspace changed : Workspace} {log : List Event} {edit : Edit} {reply : Reply}
  {name : String}

/-- **What is found under a name goes on to be what was stored last.** -/
theorem Answers.find?_gates_iff (hanswers : Answers workspace edit (changed, reply))
    (h : ∀ gate, workspace.gates.find? name = some gate ↔ LastStored log name gate) (gate : Gate) :
    changed.gates.find? name = some gate ↔ LastStored (log ++ [(edit, reply)]) name gate := by
  cases hanswers with
  | @gateStored other _ _ _ =>
    -- the event settles its own name, and under every other name both sides stay as they were
    by_cases hname : name = other.name
    · subst hname
      have hfound := workspace.gates.find?_insert_self other
      have hsettles : SettlesGate other.name (.insertGate other, .done) := rfl
      rw [lastStored_concat_iff]
      constructor
      · intro hgate
        obtain rfl := Option.some.inj (hfound.symm.trans hgate)
        exact .inl ⟨rfl, rfl⟩
      · rintro (⟨hevent, -⟩ | ⟨-, hother⟩)
        · cases hevent
          exact hfound
        · exact absurd hsettles hother
    · have hsettles : ¬ SettlesGate name (.insertGate other, .done) := Ne.symm hname
      rw [lastStored_concat_of_not_settles hsettles, ← h]
      exact Eq.congr_left (workspace.gates.find?_insert_of_ne hname)
  | gateRemoved other =>
    by_cases hname : name = other
    · subst hname
      have hsettles {reply : Reply} : SettlesGate name (.removeGate name, reply) := rfl
      rw [lastStored_concat_iff, removeGate, Catalog.find?_erase_self]
      constructor
      · intro hnone
        cases hnone
      · rintro (⟨hevent, -⟩ | ⟨-, hother⟩)
        · cases hevent
        · exact absurd hsettles hother
    · have hsettles {reply : Reply} : ¬ SettlesGate name (.removeGate other, reply) := Ne.symm hname
      rw [lastStored_concat_of_not_settles hsettles, ← h]
      exact Eq.congr_left (workspace.gates.find?_erase_of_ne hname)
  | gateRefused | sequenceStored | sequenceRefused | qubitSet =>
    rw [lastStored_concat_of_not_settles id]
    exact h gate

/-- **What is found under a name is what was stored last.** -/
theorem find?_gates_run_iff (qubit : Qubit) (edits : List Edit) (name : String) (gate : Gate) :
    ((ofQubit qubit).run edits).gates.find? name = some gate ↔
      LastStored ((ofQubit qubit).log edits) name gate := by
  induction edits using List.reverseRecOn generalizing gate with
  | nil =>
    refine ⟨nofun, ?_⟩
    rintro ⟨before, after, hlog, -⟩
    cases before <;> cases hlog
  | append_singleton edits edit ih =>
    rw [run_concat, log_concat]
    exact (answers_edit _ edit).find?_gates_iff ih gate

/-! ### Sequences -/

/-- Whether a log says that `found` is what is stored under a name. -/
def Explains (log : List Event) (name : String) : Option Sequence → Prop
  | none => ∀ event ∈ log, ¬ StoresSequence name event
  | some sequence => OnlyStored log name sequence

/-- An event that stores no sequence under the name does not matter. -/
theorem Explains.concat {found : Option Sequence} (h : Explains log name found) {event : Event}
    (hevent : ¬ StoresSequence name event) : Explains (log ++ [event]) name found := by
  cases found with
  | none =>
    intro other hother
    rcases List.mem_append.1 hother with hother | hother
    · exact h other hother
    · exact List.mem_singleton.1 hother ▸ hevent
  | some sequence =>
    obtain ⟨before, after, rfl, hname, hothers⟩ := h
    refine ⟨before, after ++ [event], by simp, hname, fun other hother => ?_⟩
    rw [← List.append_assoc] at hother
    rcases List.mem_append.1 hother with hother | hother
    · exact hothers other hother
    · exact List.mem_singleton.1 hother ▸ hevent

/-- Storing a sequence where there was none makes it the only one. -/
theorem Explains.stored {sequence : Sequence} (h : Explains log sequence.name none) :
    Explains (log ++ [(.insertSequence sequence, .done)]) sequence.name (some sequence) :=
  ⟨log, [], rfl, rfl, by rw [List.append_nil]; exact h⟩

/-- **The log goes on to say what is found under a name.** -/
theorem Answers.explains (hanswers : Answers workspace edit (changed, reply))
    (h : Explains log name (workspace.sequences.find? name)) :
    Explains (log ++ [(edit, reply)]) name (changed.sequences.find? name) := by
  cases hanswers with
  | @sequenceStored sequence _ hnew _ =>
    by_cases hname : name = sequence.name
    · subst hname
      rw [hnew] at h
      have hfound := workspace.sequences.find?_insert_self sequence
      exact hfound ▸ h.stored
    · rw [Catalog.find?_insert_of_ne _ hname]
      exact h.concat (Ne.symm hname)
  | gateStored | gateRefused | sequenceRefused | gateRemoved | qubitSet => exact h.concat id

/-- **The log of a run explains what is stored under every name of a sequence.** -/
theorem explains_run (qubit : Qubit) (edits : List Edit) (name : String) :
    Explains ((ofQubit qubit).log edits) name
      (((ofQubit qubit).run edits).sequences.find? name) := by
  induction edits using List.reverseRecOn with
  | nil => exact fun _ h => absurd h List.not_mem_nil
  | append_singleton edits edit ih =>
    rw [run_concat, log_concat]
    exact (answers_edit _ edit).explains ih

/-- No two sequences are each the only one stored under a name. -/
theorem OnlyStored.eq {sequence sequence' : Sequence} (h : OnlyStored log name sequence)
    (h' : OnlyStored log name sequence') : sequence = sequence' := by
  obtain ⟨before, after, rfl, hname, -⟩ := h
  obtain ⟨before', after', hlog, -, hothers⟩ := h'
  have hmem : (Edit.insertSequence sequence, Reply.done) ∈
      before' ++ (.insertSequence sequence', .done) :: after' := by
    rw [← hlog]
    simp
  rcases List.mem_append.1 hmem with hmem | hmem
  · exact absurd hname (hothers _ (List.mem_append_left _ hmem))
  · rcases List.mem_cons.1 hmem with hevent | hmem
    · cases hevent
      rfl
    · exact absurd hname (hothers _ (List.mem_append_right _ hmem))

/-- **What is found under a name is the one sequence that was stored there.** -/
theorem find?_sequences_run_iff (qubit : Qubit) (edits : List Edit) (name : String)
    (sequence : Sequence) :
    ((ofQubit qubit).run edits).sequences.find? name = some sequence ↔
      OnlyStored ((ofQubit qubit).log edits) name sequence := by
  have hexplains := explains_run qubit edits name
  cases hfound : ((ofQubit qubit).run edits).sequences.find? name with
  | none =>
    rw [hfound] at hexplains
    refine ⟨nofun, ?_⟩
    rintro ⟨before, after, hlog, hname, -⟩
    exact absurd hname (hexplains (.insertSequence sequence, .done) (by rw [hlog]; simp))
  | some other =>
    rw [hfound] at hexplains
    exact ⟨fun h => Option.some.inj h ▸ hexplains, fun h => congrArg some (hexplains.eq h)⟩

/-! ### Checks and answers -/

/-- Every event of a log is a change with the answer that some workspace gives to it. -/
theorem exists_answers_of_mem_log {event : Event} {edits : List Edit} (workspace : Workspace)
    (h : event ∈ workspace.log edits) :
    ∃ before changed : Workspace, Answers before event.1 (changed, event.2) := by
  induction edits generalizing workspace with
  | nil => cases h
  | cons edit edits ih =>
    rcases List.mem_cons.1 h with rfl | h
    · exact ⟨workspace, _, answers_edit workspace edit⟩
    · exact ih _ h

/-- What the log says is stored as a gate has passed the checks. -/
theorem checked_of_lastStored {edits : List Edit} {gate : Gate}
    (h : LastStored (workspace.log edits) name gate) :
    gate.name = name ∧ Text.isBlank name = false ∧ gate.validate = .ok gate.operator := by
  obtain ⟨before, after, hlog, rfl, -⟩ := h
  obtain ⟨_, _, hanswers⟩ := exists_answers_of_mem_log workspace (hlog ▸ List.mem_append_cons_self)
  cases hanswers with
  | gateStored hblank _ hunitary => exact ⟨rfl, hblank, if_pos hunitary⟩

/-- What the log says is stored as a sequence has passed the check of its name. -/
theorem checked_of_onlyStored {edits : List Edit} {sequence : Sequence}
    (h : OnlyStored (workspace.log edits) name sequence) :
    sequence.name = name ∧ Text.isBlank name = false := by
  obtain ⟨before, after, hlog, rfl, -⟩ := h
  obtain ⟨_, _, hanswers⟩ := exists_answers_of_mem_log workspace (hlog ▸ List.mem_append_cons_self)
  cases hanswers with
  | sequenceStored hblank _ _ => exact ⟨rfl, hblank⟩

/-- **A refused change leaves the workspace as it is.** -/
theorem edit_eq_of_refused {refusal : Refusal} (h : (workspace.edit edit).2 = .refused refusal) :
    (workspace.edit edit).1 = workspace := by
  have hanswers := answers_edit workspace edit
  generalize workspace.edit edit = answer at hanswers h
  cases hanswers with
  | gateRefused | sequenceRefused => rfl
  | gateStored | sequenceStored | gateRemoved | qubitSet => cases h

/-- **After every run what is stored has its own name and has passed its checks, is what the log
says was stored last, and is listed by name; and a refused change leaves it as it is.** -/
theorem stored_run (qubit : Qubit) (edits : List Edit) :
    let workspace := (ofQubit qubit).run edits
    let log := (ofQubit qubit).log edits
    (∀ name gate, workspace.gates.find? name = some gate →
        gate.name = name ∧ Text.isBlank name = false ∧ gate.validate = .ok gate.operator) ∧
      (∀ name sequence, workspace.sequences.find? name = some sequence →
        sequence.name = name ∧ Text.isBlank name = false) ∧
      (∀ name gate, workspace.gates.find? name = some gate ↔ LastStored log name gate) ∧
      (∀ name sequence,
        workspace.sequences.find? name = some sequence ↔ OnlyStored log name sequence) ∧
      (workspace.gates.names.Pairwise (· < ·) ∧
        ∀ name, name ∈ workspace.gates.names ↔ ∃ gate, LastStored log name gate) ∧
      (workspace.sequences.names.Pairwise (· < ·) ∧
        ∀ name, name ∈ workspace.sequences.names ↔ ∃ sequence, OnlyStored log name sequence) ∧
      ∀ edit refusal, (workspace.edit edit).2 = .refused refusal →
        (workspace.edit edit).1 = workspace := by
  have hgates := find?_gates_run_iff qubit edits
  have hsequences := find?_sequences_run_iff qubit edits
  refine ⟨fun name gate h => checked_of_lastStored ((hgates name gate).1 h),
    fun name sequence h => checked_of_onlyStored ((hsequences name sequence).1 h),
    hgates, hsequences, ⟨Catalog.pairwise_names _, fun name => ?_⟩,
    ⟨Catalog.pairwise_names _, fun name => ?_⟩, fun edit refusal => edit_eq_of_refused⟩
  · rw [Catalog.mem_names_iff]
    exact exists_congr (hgates name)
  · rw [Catalog.mem_names_iff]
    exact exists_congr (hsequences name)

end Workspace
end QubitSphere
