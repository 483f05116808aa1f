/-
# The brackets of a formula

A formula has two kinds of brackets, braces and `\left( ... \right)`, and they are nested in each
other (`WellBracketed`).  Both kinds come from the groups of its row alone: neither its letters,
which are alphabetic or numeric characters, underscores and points, nor its signs have a bracket of
their own.  So every row of such letters is well bracketed (`wellBracketed_spell`), and what stands
before a parenthesis or an underscore can be seen piece by piece (`introduced_piece`).
-/

import QubitSphere.Proofs.Latex.Boxes
import Mathlib.Data.List.Basic

namespace QubitSphere
namespace Latex

/-- Nested braces and `\left( ... \right)`; no other character is a brace or a parenthesis. -/
inductive WellBracketed : List Char → Prop
  | nil : WellBracketed []
  | plain {c : Char} (h : c ∉ ['{', '}', '(', ')']) : WellBracketed [c]
  | braces {cs : List Char} (h : WellBracketed cs) : WellBracketed ('{' :: (cs ++ ['}']))
  | parens {cs : List Char} (h : WellBracketed cs) :
    WellBracketed ("\\left(".toList ++ (cs ++ "\\right)".toList))
  | append {cs ds : List Char} (h : WellBracketed cs) (h' : WellBracketed ds) :
    WellBracketed (cs ++ ds)

/-- Wherever `c` stands in `cs`, the characters `before` stand directly before it. -/
def PrecededBy (before : List Char) (c : Char) (cs : List Char) : Prop :=
  ∀ ahead behind, cs = ahead ++ c :: behind → before <:+ ahead

/-! ### Nesting -/

/-- A text without brackets is well bracketed. -/
theorem WellBracketed.of_all {cs : List Char}
    (h : cs.all (fun c => c ∉ ['{', '}', '(', ')']) = true) : WellBracketed cs := by
  induction cs with
  | nil => exact .nil
  | cons c cs ih =>
    rw [List.all_cons, Bool.and_eq_true] at h
    exact .append (.plain (of_decide_eq_true h.1)) (ih h.2)

/-- What may stand in a name is no part of a sign or a bracket. -/
theorem not_mem_of_continuesName {c : Char} (h : Token.continuesName c = true) :
    c ∉ ['{', '}', '(', ')', '\\', '^', '-', ' '] := by
  intro hc
  have hall : ['{', '}', '(', ')', '\\', '^', '-', ' '].all (!Token.continuesName ·) = true := by
    decide +kernel
  have hnot := List.all_eq_true.1 hall c hc
  rw [h] at hnot
  cases hnot

/-- A letter of a name has no brackets. -/
theorem wellBracketed_letter {c : Char} (h : Token.continuesName c = true) :
    WellBracketed (Piece.letter c).chars := by
  have hc := not_mem_of_continuesName h
  obtain ⟨-, heq⟩ | ⟨-, heq⟩ := chars_letter c <;> rw [heq]
  · exact .of_all (by decide)
  · exact .plain fun hmem => hc (List.mem_append_left ['\\', '^', '-', ' '] hmem)

/-- No sign has brackets: those of the printed form come from groups alone. -/
theorem wellBracketed_sign (s : Sign) : WellBracketed s.text.toList := by
  refine .of_all ?_
  cases s <;> decide

/-- **The brackets of a row are nested.** -/
theorem wellBracketed_spell {row : List Box} (h : Legible row) : WellBracketed (spell row) := by
  induction row using row_induction with
  | nil => exact .nil
  | letter c row ih =>
    obtain ⟨hc, hrow⟩ := legible_letter.1 h
    exact .append (wellBracketed_letter hc) (ih hrow)
  | sign s row ih => exact .append (wellBracketed_sign s) (ih (legible_sign.1 h))
  | group bracket inner row ih ih' =>
    obtain ⟨hinner, hrow⟩ := legible_group.1 h
    have hgroup : WellBracketed
        (bracket.opening.toList ++ (spell inner ++ bracket.closing.toList)) := by
      cases bracket with
      | brace => exact .braces (ih hinner)
      | paren => exact .parens (ih hinner)
    rw [spell_group, ← List.append_assoc, ← List.append_assoc, List.append_assoc _ (spell inner)]
    exact hgroup.append (ih' hrow)

/-! ### Directly before a character -/

namespace PrecededBy

variable {before cs ds : List Char} {c : Char}

/-- Nothing has to come before a character that does not occur. -/
theorem of_not_mem (h : c ∉ cs) : PrecededBy before c cs := by
  rintro ahead behind rfl
  exact absurd List.mem_append_cons_self h

theorem append (h : PrecededBy before c cs) (h' : PrecededBy before c ds) :
    PrecededBy before c (cs ++ ds) := by
  intro ahead behind heq
  rcases List.append_eq_append_iff.1 heq with ⟨rest, rfl, hds⟩ | ⟨rest, hcs, hbehind⟩
  · exact (h' rest behind hds).trans (List.suffix_append cs rest)
  · rcases List.append_eq_cons_iff.1 hbehind.symm with ⟨rfl, hds⟩ | ⟨rest', rfl, -⟩
    · exact (h' [] behind hds).trans List.nil_suffix
    · exact h ahead rest' hcs

/-- A character that comes at the end only. -/
theorem concat (h : c ∉ before) : PrecededBy before c (before ++ [c]) := by
  intro ahead behind heq
  obtain ⟨rfl, -⟩ := (List.append_cons_inj_of_notMem h List.not_mem_nil).1 heq
  exact List.suffix_rfl

theorem flatMap {α : Type} {f : α → List Char} {xs : List α}
    (h : ∀ x ∈ xs, PrecededBy before c (f x)) : PrecededBy before c (xs.flatMap f) := by
  induction xs with
  | nil => exact of_not_mem List.not_mem_nil
  | cons x xs ih =>
    exact append (h x List.mem_cons_self) (ih fun y hy => h y (List.mem_cons_of_mem _ hy))

end PrecededBy

/-- What stands before the parentheses and underscores of a text. -/
structure Introduced (cs : List Char) : Prop where
  openParen : PrecededBy "\\left".toList '(' cs
  closeParen : PrecededBy "\\right".toList ')' cs
  underscore : PrecededBy ['\\'] '_' cs

/-- A text with neither parenthesis nor underscore asks for nothing. -/
theorem Introduced.of_not_mem {cs : List Char} (hopen : '(' ∉ cs) (hclose : ')' ∉ cs)
    (hunderscore : '_' ∉ cs) : Introduced cs where
  openParen := .of_not_mem hopen
  closeParen := .of_not_mem hclose
  underscore := .of_not_mem hunderscore

/-- A letter of a name is no parenthesis, and its underscore comes behind a backslash. -/
theorem introduced_letter {c : Char} (h : Token.continuesName c = true) :
    Introduced (Piece.letter c).chars := by
  have hc := not_mem_of_continuesName h
  obtain ⟨-, heq⟩ | ⟨hne, heq⟩ := chars_letter c <;> rw [heq]
  · exact ⟨.of_not_mem (by decide), .of_not_mem (by decide), .concat (by decide)⟩
  · have hparen (d : Char) (hd : d ∈ ['{', '}', '(', ')', '\\', '^', '-', ' ']) : d ∉ [c] :=
      fun hmem => hc (List.mem_singleton.1 hmem ▸ hd)
    exact .of_not_mem (hparen '(' (by decide)) (hparen ')' (by decide))
      fun hmem => hne (List.mem_singleton.1 hmem).symm

/-- In every piece that spells a row a parenthesis comes behind its command, and an underscore
behind a backslash. -/
theorem introduced_piece {piece : Piece}
    (h : ∀ c, piece = .letter c → Token.continuesName c = true) : Introduced piece.chars := by
  cases piece with
  | letter c => exact introduced_letter (h c rfl)
  | sign s => cases s <;> exact .of_not_mem (by decide) (by decide) (by decide)
  | opening bracket =>
    cases bracket with
    | brace => exact .of_not_mem (by decide) (by decide) (by decide)
    | paren =>
      exact ⟨.concat (by decide), .of_not_mem (by decide), .of_not_mem (by decide)⟩
  | closing bracket =>
    cases bracket with
    | brace => exact .of_not_mem (by decide) (by decide) (by decide)
    | paren =>
      exact ⟨.of_not_mem (by decide), .concat (by decide), .of_not_mem (by decide)⟩

/-- **Parentheses and underscores come only behind the words and the backslash before them.** -/
theorem introduced_spell {row : List Box} (h : Legible row) : Introduced (spell row) := by
  have hpieces : ∀ piece ∈ pieces row, Introduced piece.chars := fun piece hpiece =>
    introduced_piece fun c hc => h c (hc ▸ hpiece)
  exact ⟨.flatMap fun piece hpiece => (hpieces piece hpiece).openParen,
    .flatMap fun piece hpiece => (hpieces piece hpiece).closeParen,
    .flatMap fun piece hpiece => (hpieces piece hpiece).underscore⟩

end Latex

namespace Expr

open Latex

/-- **Every formula is well bracketed.**  Its braces and its parentheses are nested together, a
parenthesis comes only behind `\left` or `\right`, and an underscore only behind a backslash. -/
theorem wellBracketed_latexOrEmpty (text : String) :
    WellBracketed (latexOrEmpty text).toList ∧ Introduced (latexOrEmpty text).toList := by
  obtain ⟨-, heq⟩ | ⟨t, -, ht, heq⟩ := latexOrEmpty_cases text <;> rw [heq]
  · exact ⟨.nil, .of_not_mem List.not_mem_nil List.not_mem_nil List.not_mem_nil⟩
  · have hlegible := legible_boxes ht .atom
    exact ⟨wellBracketed_spell hlegible, introduced_spell hlegible⟩

end Expr
end QubitSphere
