/-
# The row behind a formula

No two rows of legible letters are spelled the same (`row_eq_of_spell_eq`).

First, what is spelled tells its pieces.  The pieces are a prefix code: a letter other than the
underscore is its only character, which no other piece begins with, and no piece of the rest is the
beginning of another (`Piece.eq_of_chars_prefix`).  Then the pieces tell the row, since each closing
bracket belongs to the group opened last (`pieces_append_inj`).
-/

import QubitSphere.Proofs.Latex.Brackets

namespace QubitSphere
namespace Latex

namespace Piece

/-- The pieces that are no single letter. -/
def marks : List Piece :=
  [.letter '_', .sign .plus, .sign .minus, .sign .times, .sign .negative, .sign .caret, .sign .pi,
    .sign .frac, .sign .sqrt, .sign .sin, .sign .cos, .sign .tan, .sign .ln, .sign .mathrm,
    .opening .brace, .opening .paren, .closing .brace, .closing .paren]

/-- Whether a piece is a mark or a letter that may stand in a number or a name. -/
def Legible : Piece → Prop
  | letter c => Token.continuesName c = true
  | _ => True

/-- A legible piece is a mark, or a letter that is written as itself. -/
theorem mem_marks_or {piece : Piece} (h : piece.Legible) :
    piece ∈ marks ∨ ∃ c, piece = .letter c ∧ Token.continuesName c = true ∧ piece.chars = [c] := by
  cases piece with
  | letter c =>
    obtain ⟨rfl, -⟩ | ⟨-, heq⟩ := chars_letter c
    · exact .inl (by decide)
    · exact .inr ⟨c, rfl, h, heq⟩
  | sign s => exact .inl (by cases s <;> decide)
  | opening bracket => exact .inl (by cases bracket <;> decide)
  | closing bracket => exact .inl (by cases bracket <;> decide)

/-- No mark begins with a letter. -/
theorem all_head?_of_mem_marks : ∀ mark ∈ marks,
    mark.chars.head?.all (fun c => !Token.continuesName c) = true := by
  decide +kernel

/-- No mark begins with another. -/
theorem eq_of_mem_marks : ∀ mark ∈ marks, ∀ other ∈ marks, mark.chars <+: other.chars →
    mark = other := by
  decide +kernel

/-- A piece at the beginning of another has its first character. -/
theorem head?_eq_of_prefix {piece other : Piece} (h : piece.chars <+: other.chars) :
    piece.chars.head? = other.chars.head? := by
  obtain ⟨rest, hrest⟩ := h
  rw [← hrest, List.head?_append_of_ne_nil _ piece.chars_ne_nil]

/-- A letter is no beginning of a mark, and no mark is a beginning of it. -/
theorem head?_ne_of_mem_marks {mark : Piece} (hmark : mark ∈ marks) {c : Char}
    (hc : Token.continuesName c = true) : mark.chars.head? ≠ [c].head? := by
  intro h
  have hall := all_head?_of_mem_marks mark hmark
  rw [h] at hall
  simp [hc] at hall

/-- **The pieces are a prefix code.** -/
theorem eq_of_chars_prefix {piece other : Piece} (h : piece.Legible) (h' : other.Legible)
    (hbegins : piece.chars <+: other.chars) : piece = other := by
  have hhead := head?_eq_of_prefix hbegins
  rcases mem_marks_or h with hmark | ⟨c, rfl, hc, heq⟩ <;>
    rcases mem_marks_or h' with hmark' | ⟨c', rfl, hc', heq'⟩
  · exact eq_of_mem_marks _ hmark _ hmark' hbegins
  · exact absurd (heq' ▸ hhead) (head?_ne_of_mem_marks hmark hc')
  · exact absurd (heq ▸ hhead).symm (head?_ne_of_mem_marks hmark' hc)
  · rw [heq, heq'] at hhead
    exact congrArg Piece.letter (Option.some.inj hhead)

end Piece

/-! ### From characters to pieces -/

/-- **What is spelled tells the pieces.** -/
theorem eq_of_flatMap_chars_eq {ps qs : List Piece} (hps : ∀ piece ∈ ps, piece.Legible)
    (hqs : ∀ piece ∈ qs, piece.Legible) (h : ps.flatMap Piece.chars = qs.flatMap Piece.chars) :
    ps = qs := by
  induction ps generalizing qs with
  | nil =>
    match qs with
    | [] => rfl
    | piece :: qs =>
      exact absurd (List.append_eq_nil_iff.1 h.symm).1 piece.chars_ne_nil
  | cons piece ps ih =>
    match qs with
    | [] => exact absurd (List.append_eq_nil_iff.1 h).1 piece.chars_ne_nil
    | other :: qs =>
      obtain ⟨hpiece, hps'⟩ := List.forall_mem_cons.1 hps
      obtain ⟨hother, hqs'⟩ := List.forall_mem_cons.1 hqs
      rw [List.flatMap_cons, List.flatMap_cons] at h
      -- both pieces begin the same text, so one of them begins the other
      have hsame : piece = other := by
        rcases List.prefix_or_prefix_of_prefix (List.prefix_append piece.chars _)
          (h ▸ List.prefix_append other.chars _) with hbegins | hbegins
        · exact Piece.eq_of_chars_prefix hpiece hother hbegins
        · exact (Piece.eq_of_chars_prefix hother hpiece hbegins).symm
      subst hsame
      have htail : ps.flatMap Piece.chars = qs.flatMap Piece.chars := List.append_cancel_left h
      rw [ih hps' hqs' htail]

/-- The pieces of a legible row are legible. -/
theorem Legible.of_mem_pieces {row : List Box} (h : Legible row) :
    ∀ piece ∈ pieces row, piece.Legible := by
  intro piece hpiece
  cases piece with
  | letter c => exact h c hpiece
  | sign | opening | closing => exact True.intro

/-! ### From pieces to rows -/

/-- Whether no group goes on with these pieces: there are none, or they close one. -/
def Closes (rest : List Piece) : Prop :=
  ∀ piece ∈ rest.head?, ∃ bracket, piece = .closing bracket

theorem closes_nil : Closes [] := fun _ h => absurd h (Option.not_mem_none _)

/-- Behind the last box of a group no group goes on. -/
theorem closes_closing (bracket : Bracket) (rest : List Piece) :
    Closes (.closing bracket :: rest) :=
  fun _ h => ⟨bracket, (Option.some.inj h).symm⟩

/-- A box does not begin with a closing bracket. -/
theorem not_closes_pieces (box : Box) (row : List Box) (rest : List Piece) :
    ¬ Closes (pieces (box :: row) ++ rest) := by
  intro h
  cases box with
  | letter c => obtain ⟨bracket, hbracket⟩ := h (.letter c) rfl; cases hbracket
  | sign s => obtain ⟨bracket, hbracket⟩ := h (.sign s) rfl; cases hbracket
  | group b row => obtain ⟨bracket, hbracket⟩ := h (.opening b) rfl; cases hbracket

/-- The pieces of a row that begins with a group: those of the group come between its two brackets.
-/
theorem pieces_group_append (bracket : Bracket) (inner row : List Box) (rest : List Piece) :
    pieces (.group bracket inner :: row) ++ rest =
      .opening bracket :: (pieces inner ++ .closing bracket :: (pieces row ++ rest)) := by
  simp [pieces, Box.pieces]

/-- **The pieces tell the row.** -/
theorem pieces_append_inj {row row' : List Box} {rest rest' : List Piece} (hrest : Closes rest)
    (hrest' : Closes rest') (h : pieces row ++ rest = pieces row' ++ rest') :
    row = row' ∧ rest = rest' := by
  -- Behind the row of a group stands its closing bracket, hence the induction with any `rest`.
  induction row using row_induction generalizing row' rest rest' with
  | nil =>
    match row' with
    | [] => exact ⟨rfl, h⟩
    | box :: row' => exact absurd (h ▸ hrest) (not_closes_pieces box row' rest')
  | letter c row ih =>
    match row' with
    | [] =>
      have hrest' : Closes (pieces ([] : List Box) ++ rest') := hrest'
      exact absurd (h ▸ hrest') (not_closes_pieces _ row rest)
    | .letter c' :: row' =>
      obtain ⟨hc, htail⟩ := List.cons.inj h
      obtain ⟨rfl, hrests⟩ := ih hrest hrest' htail
      exact ⟨congrArg (· :: row) (congrArg Box.letter (Piece.letter.inj hc)), hrests⟩
    | .sign _ :: _ | .group .. :: _ => cases h
  | sign s row ih =>
    match row' with
    | [] =>
      have hrest' : Closes (pieces ([] : List Box) ++ rest') := hrest'
      exact absurd (h ▸ hrest') (not_closes_pieces _ row rest)
    | .sign s' :: row' =>
      obtain ⟨hs, htail⟩ := List.cons.inj h
      obtain ⟨rfl, hrests⟩ := ih hrest hrest' htail
      exact ⟨congrArg (· :: row) (congrArg Box.sign (Piece.sign.inj hs)), hrests⟩
    | .letter _ :: _ | .group .. :: _ => cases h
  | group bracket inner row ih ih' =>
    match row' with
    | [] =>
      have hrest' : Closes (pieces ([] : List Box) ++ rest') := hrest'
      exact absurd (h ▸ hrest') (not_closes_pieces _ row rest)
    | .group bracket' inner' :: row' =>
      rw [pieces_group_append, pieces_group_append] at h
      obtain ⟨hbracket, hinside⟩ := List.cons.inj h
      obtain ⟨rfl, hbehind⟩ := ih (closes_closing bracket _) (closes_closing bracket' _) hinside
      obtain ⟨rfl, hrests⟩ := ih' hrest hrest' (List.cons.inj hbehind).2
      exact ⟨congrArg (Box.group · inner :: row) (Piece.opening.inj hbracket), hrests⟩
    | .letter _ :: _ | .sign _ :: _ => cases h

/-- **No two rows of legible letters are spelled the same.** -/
theorem row_eq_of_spell_eq {row row' : List Box} (h : Legible row) (h' : Legible row')
    (heq : spell row = spell row') : row = row' := by
  have hpieces := eq_of_flatMap_chars_eq h.of_mem_pieces h'.of_mem_pieces heq
  exact (pieces_append_inj closes_nil closes_nil (congrArg (· ++ []) hpieces)).1

end Latex
end QubitSphere
