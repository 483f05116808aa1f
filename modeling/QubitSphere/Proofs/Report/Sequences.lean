/-
# Playing the sequences of a document

The sequences of a document are played once all of its gates have been, in a workspace that stores
the gates that were played without an error (`GatesPlayed`) and, so far, the sequences that were
(`SequencesPlayed`).  What a sequence comes to can therefore be told from the playbacks alone: it is
refused for the first of three reasons (`firstReason?`), or it plays the turns of its gates one
after another, as the playbacks of the gates list them (`SequencesPlayed.playSequence_eq`).

| reason | message |
| --- | --- |
| the name is blank | `emptyName` |
| a sequence of that name was played before | `duplicateSequence` |
| no gate of a listed name was played | `unknownGate`, with the first such name |
-/

import QubitSphere.Proofs.Report.Playing
import Mathlib.Algebra.GroupWithZero.Nat

namespace QubitSphere

/-- Playbacks last, one after another, as long as all the turns that they list. -/
theorem Playback.sum_seconds {playbacks : List Playback}
    (h : ∀ playback ∈ playbacks, playback.Timed) :
    (playbacks.map Playback.seconds).sum =
      (playbacks.flatMap Playback.turns).length * secondsPerTurn := by
  induction playbacks with
  | nil => rfl
  | cons playback playbacks ih =>
    obtain ⟨hfirst, hrest⟩ := List.forall_mem_cons.1 h
    rw [List.map_cons, List.sum_cons, ih hrest, hfirst, List.flatMap_cons, List.length_append,
      Nat.add_mul]

/-! ### Messages -/

/-- The first two characters of a message. -/
def Refusal.initials : Refusal → List Char
  | notNormalized _ => ['q', 'u']
  | notUnitary _ => ['g', 'a']
  | duplicateGate _ | duplicateSequence _ => ['a', ' ']
  | unknownGate _ _ => ['s', 'e']
  | unknownSequence _ => ['n', 'o']
  | emptyName => ['n', 'a']

/-- A message begins with its initials, whatever names are in it. -/
theorem Refusal.take_message (refusal : Refusal) :
    refusal.message.toList.take 2 = refusal.initials := by
  -- `message` is only unfolded here, since deriving its equations takes too long
  delta message
  cases refusal <;> simp [initials]

/-- Refusals with different initials have different messages. -/
theorem Refusal.message_ne {refusal refusal' : Refusal}
    (h : refusal.initials ≠ refusal'.initials) : refusal.message ≠ refusal'.message := by
  intro hmessage
  rw [← take_message, hmessage, take_message] at h
  exact h rfl

namespace Report

variable {skipNoops : Bool} {stored : Catalog Gate} {workspace : Workspace}
  {gates earlier : List Playback} {sequence : Sequence}

/-! ### Reasons -/

/-- The first reason for which a sequence is refused, in view of the playbacks of the gates and of
the sequences before it. -/
def firstReason? (gates earlier : List Playback) (sequence : Sequence) : Option Refusal :=
  if Text.isBlank sequence.name then some .emptyName
  else if (played? earlier sequence.name).isSome then some (.duplicateSequence sequence.name)
  else (sequence.gates.find? fun gate => !(played? gates gate).isSome).map
    (.unknownGate sequence.name)

/-- There is no reason to refuse a sequence exactly if its name is neither blank nor played and all
its gates are played. -/
theorem firstReason?_eq_none_iff :
    firstReason? gates earlier sequence = none ↔
      Text.isBlank sequence.name = false ∧
        (∀ playback ∈ earlier, playback.plays sequence.name = false) ∧
        ∀ gate ∈ sequence.gates, ∃ playback ∈ gates, playback.plays gate = true := by
  rw [firstReason?]
  split_ifs with hblank hearlier
  · simp [hblank]
  · obtain ⟨playback, hmem, hplays⟩ := isSome_played?_iff.1 hearlier
    refine ⟨nofun, fun h => ?_⟩
    rw [h.2.1 playback hmem] at hplays
    cases hplays
  · rw [isSome_played?_iff] at hearlier
    have hnone : ∀ playback ∈ earlier, playback.plays sequence.name = false := by
      simpa using hearlier
    rw [Option.map_eq_none_iff, List.find?_eq_none]
    simp only [Bool.not_eq_true', Bool.not_eq_false, isSome_played?_iff]
    exact ⟨fun hlisted => ⟨Bool.eq_false_iff.2 hblank, hnone, hlisted⟩, fun h => h.2.2⟩

/-- The reason for which a sequence is refused is its blank name, its name taken, or a gate that it
lists. -/
theorem eq_of_firstReason? {refusal : Refusal}
    (h : firstReason? gates earlier sequence = some refusal) :
    refusal = .emptyName ∨ refusal = .duplicateSequence sequence.name ∨
      ∃ gate ∈ sequence.gates, refusal = .unknownGate sequence.name gate := by
  rw [firstReason?] at h
  split_ifs at h
  · exact .inl (Option.some.inj h).symm
  · exact .inr (.inl (Option.some.inj h).symm)
  · obtain ⟨gate, hgate, hrefusal⟩ := Option.map_eq_some_iff.1 h
    exact .inr (.inr ⟨gate, List.mem_of_find?_eq_some hgate, hrefusal.symm⟩)

/-- **A sequence is never refused with the message for one that is not stored, or for a gate that is
not unitary.** -/
theorem message_ne_of_firstReason? {refusal : Refusal}
    (h : firstReason? gates earlier sequence = some refusal) (name : String) :
    refusal.message ≠ (Refusal.unknownSequence name).message ∧
      refusal.message ≠ (Refusal.notUnitary name).message := by
  rcases eq_of_firstReason? h with rfl | rfl | ⟨gate, -, rfl⟩ <;>
  · constructor <;>
    · apply Refusal.message_ne
      simp [Refusal.initials]

/-! ### One sequence -/

/-- Of the turns that gates play, those are listed that the playbacks of the gates list. -/
theorem GatesPlayed.listed_flatMap (h : GatesPlayed skipNoops stored gates) (names : List String) :
    listed skipNoops ((names.filterMap stored.find?).flatMap fun gate =>
        gate.operator.turns gate.name) =
      (names.filterMap (played? gates)).flatMap Playback.turns := by
  induction names with
  | nil => rfl
  | cons name names ih =>
    have hturns := h.turns_eq name
    cases hgate : stored.find? name with
    | none =>
      rw [hgate] at hturns
      have hplayed := Option.map_eq_none_iff.1 hturns
      rw [List.filterMap_cons_none hgate, List.filterMap_cons_none hplayed, ih]
    | some gate =>
      rw [hgate] at hturns
      obtain ⟨playback, hplayed, hturns⟩ := Option.map_eq_some_iff.1 hturns
      -- turns are left out of each gate's list as they are out of the whole
      rw [List.filterMap_cons_some hgate, List.filterMap_cons_some hplayed, List.flatMap_cons,
        List.flatMap_cons, hturns, ← ih, listed, List.filter_append]
      rfl

/-- **A stored sequence plays the turns that the playbacks of its gates list.** -/
theorem GatesPlayed.play_eq (h : GatesPlayed skipNoops workspace.gates gates) {name : String}
    (hfound : workspace.sequences.find? name = some sequence)
    (hlisted : ∀ gate ∈ sequence.gates, ∃ playback ∈ gates, playback.plays gate = true) :
    ∃ turns, workspace.play name = .ok turns ∧ listed skipNoops turns =
      (sequence.gates.filterMap (played? gates)).flatMap Playback.turns := by
  have hknown : ∀ gate ∈ sequence.gates, workspace.gates.contains gate = true := by
    intro gate hgate
    rw [h.contains_eq]
    exact isSome_played?_iff.2 (hlisted gate hgate)
  have hmissing := Catalog.find?_not_contains_eq_none_iff.2 hknown
  rw [Workspace.play_eq hfound h.isUnitary, hmissing]
  exact ⟨_, rfl, h.listed_flatMap sequence.gates⟩

/-- What the sequences played so far have to do with what is stored. -/
structure SequencesPlayed (skipNoops : Bool) (gates : List Playback) (workspace : Workspace)
    (playbacks : List Playback) : Prop where
  gatesPlayed : GatesPlayed skipNoops workspace.gates gates
  contains_eq : ∀ name, workspace.sequences.contains name = (played? playbacks name).isSome

/-- **What a sequence is refused for can be told from the playbacks**: the workspace has a gate or a
sequence exactly if a playback plays its name. -/
theorem SequencesPlayed.insertSequence_eq (h : SequencesPlayed skipNoops gates workspace earlier)
    (sequence : Sequence) :
    workspace.insertSequence sequence =
      match firstReason? gates earlier sequence with
      | some refusal => (workspace, .error refusal)
      | none => ({ workspace with sequences := workspace.sequences.insert sequence }, .ok ()) := by
  rw [Workspace.insertSequence, firstReason?, h.contains_eq, funext h.gatesPlayed.contains_eq]
  split_ifs with hblank hplayed
  · rfl
  · rfl
  · cases sequence.gates.find? fun gate => !(played? gates gate).isSome <;> rfl

/-- **What a sequence comes to, told from the playbacks alone.** -/
theorem SequencesPlayed.playSequence_eq (h : SequencesPlayed skipNoops gates workspace earlier)
    (sequence : Sequence) :
    playSequence skipNoops workspace sequence =
      match firstReason? gates earlier sequence with
      | some refusal => (workspace, .refused sequence.name none refusal)
      | none => ({ workspace with sequences := workspace.sequences.insert sequence },
          .listing sequence.name none
            ((sequence.gates.filterMap (played? gates)).flatMap Playback.turns)) := by
  rw [playSequence, h.insertSequence_eq]
  cases hreason : firstReason? gates earlier sequence with
  | some refusal => exact congrArg (Prod.mk workspace) (Playback.ofTurns_error ..)
  | none =>
    obtain ⟨-, -, hlisted⟩ := firstReason?_eq_none_iff.1 hreason
    let changed : Workspace :=
      { workspace with sequences := workspace.sequences.insert sequence }
    have hgates : GatesPlayed skipNoops changed.gates gates := h.gatesPlayed
    have hfound : changed.sequences.find? sequence.name = some sequence :=
      workspace.sequences.find?_insert_self sequence
    obtain ⟨turns, hplay, hturns⟩ := hgates.play_eq hfound hlisted
    have hplayback : Playback.ofTurns skipNoops sequence.name none (changed.play sequence.name) =
        .listing sequence.name none
          ((sequence.gates.filterMap (played? gates)).flatMap Playback.turns) := by
      rw [hplay, Playback.ofTurns_ok, hturns]
    exact congrArg (Prod.mk changed) hplayback

theorem name_playSequence (workspace : Workspace) (sequence : Sequence) :
    (playSequence skipNoops workspace sequence).2.name = sequence.name :=
  rfl

/-- **Each sequence keeps the playbacks and the stored sequences together.** -/
theorem SequencesPlayed.playSequence (h : SequencesPlayed skipNoops gates workspace earlier)
    (sequence : Sequence) :
    SequencesPlayed skipNoops gates (playSequence skipNoops workspace sequence).1
      (earlier ++ [(playSequence skipNoops workspace sequence).2]) := by
  rw [h.playSequence_eq]
  cases firstReason? gates earlier sequence with
  | some refusal =>
    refine ⟨h.gatesPlayed, fun name => ?_⟩
    rw [isSome_played?_concat, Playback.plays_refused, Bool.or_false]
    exact h.contains_eq name
  | none =>
    refine ⟨h.gatesPlayed, fun name => ?_⟩
    rw [isSome_played?_concat, Playback.plays_listing, Catalog.contains_insert, h.contains_eq]
    rfl

/-! ### The sequences of a document -/

/-- What the playback of a sequence is, in view of the playbacks of the gates and of the sequences
before it. -/
structure Joins (gates earlier : List Playback) (sequence : Sequence) (playback : Playback) :
    Prop where
  name_eq : playback.name = sequence.name
  /-- Nothing is refused whose name is neither blank nor taken and whose gates are played. -/
  refusal?_eq_none_iff : playback.refusal? = none ↔
    Text.isBlank sequence.name = false ∧
      (∀ other ∈ earlier, other.plays sequence.name = false) ∧
      ∀ gate ∈ sequence.gates, ∃ played ∈ gates, played.plays gate = true
  /-- The turns are those of the gates, in the order in which they are listed. -/
  turns_eq : playback.refusal? = none →
    ∃ played, List.Forall₂ (fun gate p => p ∈ gates ∧ p.plays gate = true) sequence.gates played ∧
      playback.turns = played.flatMap Playback.turns ∧
      playback.seconds = (played.map Playback.seconds).sum
  /-- What is refused is refused for the first reason there is, and plays nothing. -/
  refusal?_eq : playback.refusal? = firstReason? gates earlier sequence
  turns_eq_nil : playback.refusal? ≠ none → playback.turns = [] ∧ playback.seconds = 0
  message_ne : ∀ refusal, playback.refusal? = some refusal → ∀ name,
    refusal.message ≠ (Refusal.unknownSequence name).message ∧
      refusal.message ≠ (Refusal.notUnitary name).message

/-- If every name is played, then each has its playback, in the order of the names. -/
theorem forall₂_filterMap_played? {names : List String}
    (h : ∀ name ∈ names, ∃ playback ∈ gates, playback.plays name = true) :
    List.Forall₂ (fun name p => p ∈ gates ∧ p.plays name = true) names
      (names.filterMap (played? gates)) := by
  have hplayed : List.Forall₂ (fun name p => played? gates name = some p) names
      (names.filterMap (played? gates)) :=
    forall₂_eq_some_iff.2 ⟨fun name hname => isSome_played?_iff.2 (h name hname), rfl⟩
  exact hplayed.imp fun _ _ hfound =>
    ⟨List.mem_of_find?_eq_some hfound, List.find?_some hfound⟩

/-- **A sequence joins the playbacks of its gates.** -/
theorem SequencesPlayed.joins (h : SequencesPlayed skipNoops gates workspace earlier)
    (htimed : ∀ playback ∈ gates, playback.Timed) (sequence : Sequence) :
    Joins gates earlier sequence (Report.playSequence skipNoops workspace sequence).2 := by
  have hrefusal : (Report.playSequence skipNoops workspace sequence).2.refusal? =
      firstReason? gates earlier sequence := by
    rw [h.playSequence_eq]
    cases firstReason? gates earlier sequence <;> rfl
  refine ⟨name_playSequence workspace sequence, ?_, fun hnone => ?_, hrefusal, fun hsome => ?_,
    fun refusal hsome => message_ne_of_firstReason? (hrefusal ▸ hsome)⟩
  · rw [hrefusal]
    exact firstReason?_eq_none_iff
  · rw [hrefusal] at hnone
    obtain ⟨-, -, hlisted⟩ := firstReason?_eq_none_iff.1 hnone
    have htimed' : ∀ playback ∈ sequence.gates.filterMap (played? gates), playback.Timed := by
      intro playback hplayback
      obtain ⟨gate, -, hplayed⟩ := List.mem_filterMap.1 hplayback
      exact htimed playback (List.mem_of_find?_eq_some hplayed)
    rw [h.playSequence_eq, hnone]
    exact ⟨_, forall₂_filterMap_played? hlisted, rfl, (Playback.sum_seconds htimed').symm⟩
  · rw [hrefusal] at hsome
    obtain ⟨refusal, hreason⟩ := Option.ne_none_iff_exists'.1 hsome
    rw [h.playSequence_eq, hreason]
    exact ⟨rfl, rfl⟩

/-- **At most one playback of a gate has a given name and no error, and the playback of every
sequence joins those of the gates that it lists.** -/
theorem joins_ofDocument (skipNoops : Bool) (document : Document) :
    let report := ofDocument skipNoops document
    report.gates.map Playback.name = document.gates.map Gate.name ∧
      report.sequences.map Playback.name = document.sequences.map Sequence.name ∧
      (∀ name, report.gates.countP (·.plays name) ≤ 1) ∧
      ∀ i sequence, document.sequences[i]? = some sequence →
        ∃ playback, report.sequences[i]? = some playback ∧
          Joins report.gates (report.sequences.take i) sequence playback := by
  obtain ⟨hgates, hsequences⟩ := gatesPlayed_playAll skipNoops document.qubit document.gates
  have hstart : SequencesPlayed skipNoops (ofDocument skipNoops document).gates
      (playAll (playGate skipNoops) (.ofQubit document.qubit) document.gates).1 [] :=
    ⟨hgates, fun name => by rw [hsequences]; rfl⟩
  have htimed (playback : Playback) (h : playback ∈ (ofDocument skipNoops document).gates) :
      playback.Timed := timed_ofDocument skipNoops document playback (List.mem_append_left _ h)
  refine ⟨map_name_playAll name_playGate _ _, map_name_playAll name_playSequence _ _,
    hgates.countP_le_one, fun i sequence hsequence => ?_⟩
  obtain ⟨before, hbefore, hplayback⟩ :=
    exists_getElem?_playAll (fun _ _ sequence h => h.playSequence sequence) hsequence hstart
  exact ⟨_, hplayback, hbefore.joins htimed sequence⟩

end Report
end QubitSphere
