/-
# The parts that a state equation leaves out

The state equation of a qubit shows four parts, each the formula of a text or nothing at all:

| part | shown as |
| --- | --- |
| real, with the formula `f` | `f` |
| imaginary, with the formula `f` | `+(f)i` |
| absent, or no expression | nothing |

That a text is no expression is told from its formula alone, which is empty then.  So no formula of
an expression may be empty (`latexOrEmpty_eq_empty_iff`): its row has a box, and every box is
spelled with some character.  A part is left out, which is to say that the equation is the same
without it, exactly if it shows nothing (`stateEquation_without_eq_iff`).
-/

import QubitSphere.Proofs.Latex.Boxes
import QubitSphere.Record.Qubit
import Mathlib.Logic.Function.Basic

namespace QubitSphere

namespace Latex

/-- A row with a box in it is spelled with at least one character. -/
theorem spell_ne_nil {row : List Box} (h : row ≠ []) : spell row ≠ [] := by
  match row with
  | .letter c :: row =>
    rw [spell_letter]
    exact List.append_ne_nil_of_left_ne_nil (Piece.chars_ne_nil _) _
  | .sign s :: row =>
    rw [spell_sign]
    exact List.append_ne_nil_of_left_ne_nil (Piece.chars_ne_nil (.sign s)) _
  | .group bracket inner :: row =>
    rw [spell_group]
    exact List.append_ne_nil_of_left_ne_nil (Piece.chars_ne_nil (.opening bracket)) _

end Latex

namespace Expr

open Latex

/-- **A formula is empty exactly if its text is no expression.** -/
theorem latexOrEmpty_eq_empty_iff {text : String} :
    latexOrEmpty text = "" ↔ ∃ cause, read text = .error cause := by
  obtain ⟨hread, heq⟩ | ⟨t, hread, ht, heq⟩ := latexOrEmpty_cases text
  · exact iff_of_true heq hread
  · refine iff_of_false (fun hempty => ?_) fun ⟨cause, hcause⟩ => ?_
    · rw [hempty] at heq
      exact spell_ne_nil (boxes_ne_nil ht .atom) heq.symm
    · rw [hread] at hcause
      cases hcause

/-- The empty text is no expression. -/
theorem exists_read_empty_eq_error : ∃ cause, read "" = .error cause := by
  cases hread : read "" with
  | error cause => exact ⟨cause, rfl⟩
  | ok t =>
    obtain ⟨d, -, h⟩ := read_eq_ok_iff.1 hread
    exact absurd Token.scan_nil h.ne_nil

end Expr

/-- The parts of the two amplitudes of a qubit. -/
inductive AmplitudePart where
  | alphaReal
  | alphaImaginary
  | betaReal
  | betaImaginary
deriving DecidableEq

namespace Qubit

/-- The text of a part. -/
def text (qubit : Qubit) : AmplitudePart → Option String
  | .alphaReal => qubit.alphaReal
  | .alphaImaginary => qubit.alphaImaginary
  | .betaReal => qubit.betaReal
  | .betaImaginary => qubit.betaImaginary

/-- A qubit without one of its parts. -/
def without (qubit : Qubit) : AmplitudePart → Qubit
  | .alphaReal => { qubit with alphaReal := none }
  | .alphaImaginary => { qubit with alphaImaginary := none }
  | .betaReal => { qubit with betaReal := none }
  | .betaImaginary => { qubit with betaImaginary := none }

/-- How a part with a text is shown. -/
def partLatex : AmplitudePart → Option String → String
  | .alphaReal | .betaReal => realLatex
  | .alphaImaginary | .betaImaginary => imaginaryLatex

/-- What the state equation shows of a part. -/
def shown (qubit : Qubit) (part : AmplitudePart) : String :=
  partLatex part (qubit.text part)

/-- Whether a part has no text, or a text that is no expression. -/
def Unreadable (part : Option String) : Prop :=
  ∀ text ∈ part, ∃ cause, Expr.read text = .error cause

theorem unreadable_none : Unreadable none :=
  fun _ h => absurd h (Option.not_mem_none _)

/-- **A text is shown as nothing exactly if it is unreadable**, as the boxes of an expression are
never none. -/
theorem latexOrEmpty_getD_eq_empty_iff {part : Option String} :
    Expr.latexOrEmpty (part.getD "") = "" ↔ Unreadable part := by
  rw [Expr.latexOrEmpty_eq_empty_iff]
  cases part with
  | none => exact iff_of_true Expr.exists_read_empty_eq_error unreadable_none
  | some text => simp [Unreadable]

/-- A real part is shown as nothing exactly if it is unreadable. -/
theorem realLatex_eq_empty_iff {part : Option String} :
    realLatex part = "" ↔ Unreadable part :=
  latexOrEmpty_getD_eq_empty_iff

/-- An imaginary part is shown as nothing exactly if it is unreadable: its `i` is put only behind a
factor that is shown. -/
theorem imaginaryLatex_eq_empty_iff {part : Option String} :
    imaginaryLatex part = "" ↔ Unreadable part := by
  rw [← latexOrEmpty_getD_eq_empty_iff]
  dsimp only [imaginaryLatex]
  split
  · next hempty => exact iff_of_true rfl (String.isEmpty_iff.1 hempty)
  · next hempty =>
    refine iff_of_false (fun h => ?_) fun h => hempty (String.isEmpty_iff.2 h)
    have hlist := congrArg String.toList h
    rw [String.toList_append, String.toList_append] at hlist
    exact absurd hlist (List.cons_ne_nil _ _)

/-- Any of the four parts is shown as nothing exactly if it is unreadable. -/
theorem partLatex_eq_empty_iff (part : AmplitudePart) (text : Option String) :
    partLatex part text = "" ↔ Unreadable text := by
  cases part with
  | alphaReal | betaReal => exact realLatex_eq_empty_iff
  | alphaImaginary | betaImaginary => exact imaginaryLatex_eq_empty_iff

/-- The equation that shows `shown` of each part. -/
def equation (states : String × String) (shown : AmplitudePart → String) : String :=
  "|\\psi\\rangle = " ++ shown .alphaReal ++ " " ++ shown .alphaImaginary ++ " " ++ states.1 ++
    " + " ++ shown .betaReal ++ " " ++ shown .betaImaginary ++ " " ++ states.2

/-- The equation depends on the parts only by what each of them shows. -/
theorem stateEquation_eq (qubit : Qubit) :
    qubit.stateEquation = equation qubit.basis.states qubit.shown := rfl

/-- What is shown of one part can be told from the equation and the other parts. -/
theorem equation_update_eq_iff (states : String × String) (shown : AmplitudePart → String)
    (part : AmplitudePart) (formula : String) :
    equation states (Function.update shown part formula) = equation states shown ↔
      formula = shown part := by
  unfold equation
  cases part <;>
    simp only [Function.update_self, ne_eq, reduceCtorEq, not_false_eq_true, Function.update_of_ne,
      String.append_left_inj, String.append_right_inj]

/-- Clearing a part leaves the texts of the three others. -/
theorem text_without (qubit : Qubit) (part : AmplitudePart) :
    (qubit.without part).text = Function.update qubit.text part none := by
  funext other
  cases part <;> cases other <;> rfl

/-- Clearing a part leaves what the three others show. -/
theorem shown_without (qubit : Qubit) (part : AmplitudePart) :
    (qubit.without part).shown = Function.update qubit.shown part "" := by
  funext other
  rw [shown, text_without]
  by_cases hother : other = part
  · subst hother
    rw [Function.update_self, Function.update_self]
    exact (partLatex_eq_empty_iff other none).2 unreadable_none
  · rw [Function.update_of_ne hother, Function.update_of_ne hother, shown]

theorem basis_without (qubit : Qubit) (part : AmplitudePart) :
    (qubit.without part).basis = qubit.basis := by
  cases part <;> rfl

/-- **An empty formula means failure, and nothing else does.**  The formula of a text is empty
exactly if the text is no expression.  So a part of a qubit shows nothing in the state equation, and
the equation is the same without it, exactly if its text is absent or no expression. -/
theorem stateEquation_without_eq_iff :
    (∀ text, Expr.latexOrEmpty text = "" ↔ ∃ cause, Expr.read text = .error cause) ∧
      ∀ (qubit : Qubit) (part : AmplitudePart),
        (qubit.shown part = "" ↔ Unreadable (qubit.text part)) ∧
          ((qubit.without part).stateEquation = qubit.stateEquation ↔
            Unreadable (qubit.text part)) := by
  refine ⟨fun _ => Expr.latexOrEmpty_eq_empty_iff, fun qubit part => ?_⟩
  have hshown : qubit.shown part = "" ↔ Unreadable (qubit.text part) :=
    partLatex_eq_empty_iff part (qubit.text part)
  refine ⟨hshown, ?_⟩
  rw [stateEquation_eq, stateEquation_eq, basis_without, shown_without, equation_update_eq_iff,
    ← hshown, eq_comm]

end Qubit
end QubitSphere
