/-
# Playing the gates of a document

Records are played one after another, each in the workspace that the ones before it leave
(`getElem?_playAll`).  What one record keeps true of the workspace and of the playbacks so far holds
after all of them (`playAll_invariant`), and each record is played in a workspace of which it is
true (`exists_getElem?_playAll`).  Every playback of a report lasts as long as the turns that it
lists (`timed_ofDocument`).

A gate comes to its turns, or to the first reason to refuse it (`playGate_eq`).  What all gates keep
true is `GatesPlayed`: whatever gate is stored has been played without an error, exactly once under
its name, and its playback lists the turns of its operator.  A gate that is refused, be it for a
name that is taken or for its entries, adds nothing to either side.
-/

import QubitSphere.Report.Basic
import QubitSphere.Proofs.Workspace.Playback

namespace QubitSphere

namespace Playback

/-- Whether a playback has a name and no error. -/
def plays (name : String) (playback : Playback) : Bool :=
  playback.name == name && playback.refusal?.isNone

/-- The playback of a record that is refused. -/
def refused (name : String) (scalar : Option String) (refusal : Refusal) : Playback :=
  ⟨name, scalar, some refusal, 0, []⟩

/-- The playback of a record of which turns are listed. -/
def listing (name : String) (scalar : Option String) (turns : List (Turn Float)) : Playback :=
  ⟨name, scalar, none, turns.length * secondsPerTurn, turns⟩

/-- What is refused lists nothing and lasts no time. -/
theorem ofTurns_error (skipNoops : Bool) (name : String) (scalar : Option String)
    (refusal : Refusal) :
    ofTurns skipNoops name scalar (.error refusal) = refused name scalar refusal := by
  rw [ofTurns, refused, Report.listed, List.filter_nil, List.length_nil, Nat.zero_mul]

/-- Turns that are left out take no time. -/
theorem ofTurns_ok (skipNoops : Bool) (name : String) (scalar : Option String)
    (turns : List (Turn Float)) :
    ofTurns skipNoops name scalar (.ok turns) =
      listing name scalar (Report.listed skipNoops turns) :=
  rfl

@[simp] theorem plays_listing (played : String) (scalar : Option String)
    (turns : List (Turn Float)) (name : String) :
    (listing played scalar turns).plays name = (played == name) :=
  Bool.and_true _

/-- What is refused plays no name. -/
@[simp] theorem plays_refused (played : String) (scalar : Option String) (refusal : Refusal)
    (name : String) : (refused played scalar refusal).plays name = false :=
  Bool.and_false _

/-- Whether the seconds of a playback are those of the turns that it lists. -/
def Timed (playback : Playback) : Prop :=
  playback.seconds = playback.turns.length * secondsPerTurn

/-- **Whatever a record comes to, its playback lasts as long as the turns that it lists.** -/
theorem timed_ofTurns (skipNoops : Bool) (name : String) (scalar : Option String)
    (outcome : Except Refusal (List (Turn Float))) :
    (ofTurns skipNoops name scalar outcome).Timed :=
  rfl

end Playback

/-- A gate with a unitary operator has turns. -/
theorem Gate.turns_eq {gate : Gate} (h : gate.isUnitary = true) :
    gate.turns = .ok (gate.operator.turns gate.name) := by
  rw [Gate.turns, Gate.validate, if_pos h]
  rfl

namespace Report

/-! ### One record after another -/

section PlayAll

variable {α : Type} {play : Workspace → α → Workspace × Playback}
  {Inv : Workspace → List Playback → Prop}

/-- **There is one playback for each record, under its name.** -/
theorem map_name_playAll {nameOf : α → String}
    (hname : ∀ workspace record, (play workspace record).2.name = nameOf record)
    (workspace : Workspace) (records : List α) :
    (playAll play workspace records).2.map Playback.name = records.map nameOf := by
  induction records generalizing workspace with
  | nil => rfl
  | cons record records ih => rw [playAll, List.map_cons, List.map_cons, ih, hname]

/-- **What every record keeps true holds after all of them.** -/
theorem playAll_invariant
    (hstep : ∀ workspace playbacks record, Inv workspace playbacks →
      Inv (play workspace record).1 (playbacks ++ [(play workspace record).2]))
    (records : List α) {workspace : Workspace} {playbacks : List Playback}
    (h : Inv workspace playbacks) :
    Inv (playAll play workspace records).1 (playbacks ++ (playAll play workspace records).2) := by
  induction records generalizing workspace playbacks with
  | nil => rwa [playAll, List.append_nil]
  | cons record records ih =>
    have hrest := ih (hstep workspace playbacks record h)
    rwa [List.append_assoc] at hrest

/-- **Each record is played in the workspace that the ones before it leave.** -/
theorem getElem?_playAll (workspace : Workspace) (records : List α) (i : Nat) :
    (playAll play workspace records).2[i]? =
      records[i]?.map fun record =>
        (play (playAll play workspace (records.take i)).1 record).2 := by
  induction records generalizing workspace i with
  | nil => rfl
  | cons record records ih =>
    cases i with
    | zero => rfl
    | succ i => exact ih (play workspace record).1 i

/-- The first playbacks are those of the first records: what comes later changes nothing about them.
-/
theorem take_playAll (workspace : Workspace) (records : List α) (i : Nat) :
    (playAll play workspace records).2.take i = (playAll play workspace (records.take i)).2 := by
  induction records generalizing workspace i with
  | nil => rw [List.take_nil, playAll, List.take_nil]
  | cons record records ih =>
    cases i with
    | zero => rfl
    | succ i => exact congrArg (_ :: ·) (ih (play workspace record).1 i)

/-- **What every record keeps true holds where each of them is played.** -/
theorem exists_getElem?_playAll
    (hstep : ∀ workspace playbacks record, Inv workspace playbacks →
      Inv (play workspace record).1 (playbacks ++ [(play workspace record).2]))
    {records : List α} {i : Nat} {record : α} (hrecord : records[i]? = some record)
    {workspace : Workspace} {playbacks : List Playback} (h : Inv workspace playbacks) :
    ∃ before, Inv before (playbacks ++ (playAll play workspace records).2.take i) ∧
      (playAll play workspace records).2[i]? = some (play before record).2 := by
  refine ⟨(playAll play workspace (records.take i)).1, ?_, ?_⟩
  · rw [take_playAll]
    exact playAll_invariant hstep _ h
  · rw [getElem?_playAll, hrecord]
    rfl

/-- **What holds of the playback of every record holds of all playbacks.** -/
theorem forall_mem_playAll {P : Playback → Prop}
    (h : ∀ workspace record, P (play workspace record).2) (workspace : Workspace)
    (records : List α) : ∀ playback ∈ (playAll play workspace records).2, P playback := by
  induction records generalizing workspace with
  | nil => exact nofun
  | cons record records ih =>
    exact List.forall_mem_cons.2 ⟨h workspace record, ih (play workspace record).1⟩

/-- **What holds of two ways to play one record holds of playing them all:** if one leaves the
workspace that the other leaves and changes only what is listed, so it does for all records. -/
theorem playAll_map {play' : Workspace → α → Workspace × Playback} {change : Playback → Playback}
    (h : ∀ workspace record,
      play' workspace record = ((play workspace record).1, change (play workspace record).2))
    (workspace : Workspace) (records : List α) :
    playAll play' workspace records =
      ((playAll play workspace records).1, (playAll play workspace records).2.map change) := by
  induction records generalizing workspace with
  | nil => rfl
  | cons record records ih => rw [playAll, h, ih]; rfl

end PlayAll

/-! ### Gates -/

/-- The playback without an error that has a name. -/
def played? (playbacks : List Playback) (name : String) : Option Playback :=
  playbacks.find? (·.plays name)

/-- A new playback is the one found under its name, if there was none. -/
theorem played?_concat_of_plays {playbacks : List Playback} {playback : Playback} {name : String}
    (hnew : played? playbacks name = none) (h : playback.plays name = true) :
    played? (playbacks ++ [playback]) name = some playback := by
  rw [played?] at hnew ⊢
  rw [List.find?_append, hnew, List.find?_singleton, h]
  rfl

/-- A new playback is not found under a name that it does not play. -/
theorem played?_concat_of_not_plays (playbacks : List Playback) {playback : Playback}
    {name : String} (h : playback.plays name = false) :
    played? (playbacks ++ [playback]) name = played? playbacks name := by
  rw [played?, played?, List.find?_append, List.find?_singleton, h]
  exact Option.or_none

/-- A name is played behind a new playback if it was before or by the new one. -/
theorem isSome_played?_concat (playbacks : List Playback) (playback : Playback) (name : String) :
    (played? (playbacks ++ [playback]) name).isSome =
      ((played? playbacks name).isSome || playback.plays name) := by
  rw [played?, played?, List.find?_append, List.find?_singleton, Option.isSome_or]
  cases playback.plays name <;> rfl

/-- A playback is found under a name exactly if some playback plays the name. -/
theorem isSome_played?_iff {playbacks : List Playback} {name : String} :
    (played? playbacks name).isSome = true ↔ ∃ playback ∈ playbacks, playback.plays name = true :=
  List.find?_isSome

/-- What the gates played so far have to do with those stored. -/
structure GatesPlayed (skipNoops : Bool) (stored : Catalog Gate) (playbacks : List Playback) :
    Prop where
  isUnitary : ∀ name gate, stored.find? name = some gate → gate.isUnitary = true
  turns_eq : ∀ name, (played? playbacks name).map Playback.turns =
    (stored.find? name).map fun gate => listed skipNoops (gate.operator.turns gate.name)
  countP_le_one : ∀ name, playbacks.countP (·.plays name) ≤ 1

variable {skipNoops : Bool} {stored : Catalog Gate} {playbacks : List Playback}

/-- Before the first gate nothing is stored and nothing is played. -/
theorem gatesPlayed_nil (skipNoops : Bool) : GatesPlayed skipNoops {} [] where
  isUnitary := nofun
  turns_eq _ := rfl
  countP_le_one _ := Nat.zero_le 1

/-- A gate is stored if there is a playback without an error of its name. -/
theorem GatesPlayed.contains_eq (h : GatesPlayed skipNoops stored playbacks) (name : String) :
    stored.contains name = (played? playbacks name).isSome := by
  have hturns := congrArg Option.isSome (h.turns_eq name)
  rw [Option.isSome_map, Option.isSome_map] at hturns
  exact hturns.symm

/-- **A refused gate keeps the invariant**: nothing is stored, and no name is played anew. -/
theorem GatesPlayed.refused (h : GatesPlayed skipNoops stored playbacks) {playback : Playback}
    (hplayback : ∀ name, playback.plays name = false) :
    GatesPlayed skipNoops stored (playbacks ++ [playback]) where
  isUnitary := h.isUnitary
  turns_eq name := by
    rw [played?_concat_of_not_plays playbacks (hplayback name), h.turns_eq]
  countP_le_one name := by
    rw [List.countP_append, List.countP_singleton, hplayback]
    exact h.countP_le_one name

/-- **A stored gate keeps the invariant**: it is the only one stored under its name, and the only
one played under it. -/
theorem GatesPlayed.inserted (h : GatesPlayed skipNoops stored playbacks) {gate : Gate}
    (hnew : stored.find? gate.name = none) (hunitary : gate.isUnitary = true)
    (scalar : Option String) :
    GatesPlayed skipNoops (stored.insert gate)
      (playbacks ++
        [.listing gate.name scalar (listed skipNoops (gate.operator.turns gate.name))]) := by
  generalize hplayback : Playback.listing gate.name scalar _ = playback
  have hfound : (stored.insert gate).find? gate.name = some gate := stored.find?_insert_self gate
  have hother {name : String} (hne : name ≠ gate.name) :
      (stored.insert gate).find? name = stored.find? name := stored.find?_insert_of_ne hne
  have hplays : playback.plays gate.name = true := by simp [← hplayback]
  have hquiet {name : String} (hne : name ≠ gate.name) : playback.plays name = false := by
    simp [← hplayback, hne.symm]
  have hunplayed : played? playbacks gate.name = none := by
    rw [← Option.isNone_iff_eq_none, ← Option.not_isSome, ← h.contains_eq, Catalog.contains, hnew]
    rfl
  -- of each fact, first under the name of the gate and then under any other
  refine ⟨fun name other hgate => ?_, fun name => ?_, fun name => ?_⟩ <;>
    by_cases hne : name = gate.name
  · rw [hne, hfound] at hgate
    exact Option.some.inj hgate ▸ hunitary
  · exact h.isUnitary name other (hother hne ▸ hgate)
  · rw [hne, hfound, played?_concat_of_plays hunplayed hplays, ← hplayback]
    rfl
  · rw [hother hne, played?_concat_of_not_plays playbacks (hquiet hne), h.turns_eq]
  · have hzero : playbacks.countP (·.plays gate.name) = 0 :=
      List.countP_eq_zero.2 (List.find?_eq_none.1 hunplayed)
    rw [hne, List.countP_append, List.countP_singleton, hzero, hplays]
    exact Nat.le_refl 1
  · rw [List.countP_append, List.countP_singleton, hquiet hne]
    exact h.countP_le_one name

/-- **What a gate comes to.** -/
theorem playGate_eq (skipNoops : Bool) (workspace : Workspace) (gate : Gate) :
    playGate skipNoops workspace gate =
      match gate.firstReason? (workspace.gates.contains gate.name) with
      | some refusal =>
        (workspace, .refused gate.name (some (Expr.latexOrEmpty gate.scalar)) refusal)
      | none => ({ workspace with gates := workspace.gates.insert gate },
          .listing gate.name (some (Expr.latexOrEmpty gate.scalar))
            (listed skipNoops (gate.operator.turns gate.name))) := by
  rw [playGate, Workspace.insertGate_eq]
  cases hreason : gate.firstReason? (workspace.gates.contains gate.name) with
  | some refusal => exact congrArg (Prod.mk workspace) (Playback.ofTurns_error ..)
  | none =>
    dsimp only
    rw [Gate.turns_eq (Gate.firstReason?_eq_none_iff.1 hreason).2.1]
    rfl

theorem name_playGate (workspace : Workspace) (gate : Gate) :
    (playGate skipNoops workspace gate).2.name = gate.name :=
  rfl

theorem scalar_playGate (workspace : Workspace) (gate : Gate) :
    (playGate skipNoops workspace gate).2.scalar = some (Expr.latexOrEmpty gate.scalar) :=
  rfl

theorem sequences_playGate (workspace : Workspace) (gate : Gate) :
    (playGate skipNoops workspace gate).1.sequences = workspace.sequences := by
  rw [playGate_eq]
  cases gate.firstReason? (workspace.gates.contains gate.name) <;> rfl

/-- **Each gate keeps the playbacks and the stored gates together.** -/
theorem GatesPlayed.playGate {workspace : Workspace}
    (h : GatesPlayed skipNoops workspace.gates playbacks) (gate : Gate) :
    GatesPlayed skipNoops (playGate skipNoops workspace gate).1.gates
      (playbacks ++ [(playGate skipNoops workspace gate).2]) := by
  rw [playGate_eq]
  cases hreason : gate.firstReason? (workspace.gates.contains gate.name) with
  | some refusal => exact h.refused (Playback.plays_refused _ _ refusal)
  | none =>
    obtain ⟨-, hunitary, hcontains⟩ := Gate.firstReason?_eq_none_iff.1 hreason
    exact h.inserted (Catalog.find?_eq_none_of_contains hcontains) hunitary _

/-- **Once the gates of a document have been played, those that were played without an error are
stored, and nothing else is.** -/
theorem gatesPlayed_playAll (skipNoops : Bool) (qubit : Qubit) (gates : List Gate) :
    let played := playAll (Report.playGate skipNoops) (.ofQubit qubit) gates
    GatesPlayed skipNoops played.1.gates played.2 ∧ played.1.sequences = {} := by
  let Inv (workspace : Workspace) (playbacks : List Playback) :=
    GatesPlayed skipNoops workspace.gates playbacks ∧ workspace.sequences = {}
  have hstep (workspace : Workspace) (playbacks : List Playback) (gate : Gate)
      (h : Inv workspace playbacks) : Inv (Report.playGate skipNoops workspace gate).1
        (playbacks ++ [(Report.playGate skipNoops workspace gate).2]) :=
    ⟨h.1.playGate gate, (sequences_playGate workspace gate).trans h.2⟩
  have hnil : Inv (.ofQubit qubit) [] := ⟨gatesPlayed_nil skipNoops, rfl⟩
  have hplayed := playAll_invariant hstep gates hnil
  exact hplayed

/-! ### Seconds -/

/-- **Every playback of a report lasts as long as the turns that it lists.** -/
theorem timed_ofDocument (skipNoops : Bool) (document : Document) :
    let report := ofDocument skipNoops document
    ∀ playback ∈ report.gates ++ report.sequences, playback.Timed := by
  intro report playback hplayback
  rcases List.mem_append.1 hplayback with hgate | hsequence
  · exact forall_mem_playAll (fun _ _ => Playback.timed_ofTurns ..) _ _ playback hgate
  · exact forall_mem_playAll (fun _ _ => Playback.timed_ofTurns ..) _ _ playback hsequence

end Report
end QubitSphere
