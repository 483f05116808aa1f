/-
# Formulas as rows of boxes

A formula is a row of boxes: the letters of its numbers and names, its signs, and its groups.  A
group is a row of its own in braces or in parentheses, so the brackets of a row always match.

| expression | its row |
| --- | --- |
| `2.0`, `theta` | the letters `2`, the letters `theta` |
| `a + b` | the row of `a`, `+`, the row of `b` |
| `a / b` | `\frac`, a group with `a`, a group with `b` |
| `pow(a, b)` | the row of `a` or a group with it, `^`, a group with `b` |
| `f(a)` | `\mathrm`, a group with the letters `f`, a group with `a` |

`Expr.boxes` is the row of an expression, and its LaTeX spells this row (`toList_render`).  What
holds of every formula can so be said of rows: a row of an expression that a text can write is not
empty (`boxes_ne_nil`), and no character of its letters is a sign or a bracket (`legible_boxes`).
-/

import QubitSphere.Proofs.Latex.Tokens

namespace QubitSphere
namespace Token

/-- Every character of a name can stand in a name. -/
theorem Lexical.continuesName {text : String} (h : (name text).Lexical) :
    ∀ c ∈ text.toList, Token.continuesName c = true := by
  obtain ⟨first, rest, htext, hfirst, hrest⟩ := h
  rw [htext]
  rintro c (_ | ⟨_, hc⟩)
  · exact continuesName_of_startsName hfirst
  · exact hrest c hc

/-- No name is empty. -/
theorem Lexical.name_ne_nil {text : String} (h : (name text).Lexical) : text.toList ≠ [] := by
  obtain ⟨first, rest, htext, -⟩ := h
  exact htext ▸ List.cons_ne_nil _ _

theorem lexical_x : (name "x").Lexical :=
  ⟨'x', [], rfl, by decide, List.all_eq_true.1 rfl⟩

end Token

namespace Latex

/-- The signs of formulas. -/
inductive Sign where
  | plus
  | minus
  | times
  | negative
  | caret
  | pi
  | frac
  | sqrt
  | sin
  | cos
  | tan
  | ln
  | mathrm
deriving DecidableEq

/-- What a sign is spelled as, with the blanks around it. -/
def Sign.text : Sign → String
  | plus => " + "
  | minus => " - "
  | times => " \\cdot "
  | negative => "-"
  | caret => "^"
  | pi => "\\pi"
  | frac => "\\frac"
  | sqrt => "\\sqrt"
  | sin => "\\sin"
  | cos => "\\cos"
  | tan => "\\tan"
  | ln => "\\ln"
  | mathrm => "\\mathrm"

/-- The brackets that a group stands in. -/
inductive Bracket where
  | brace
  | paren
deriving DecidableEq

/-- How a group begins. -/
def Bracket.opening : Bracket → String
  | brace => "\x7b"
  | paren => "\\left("

/-- How a group ends. -/
def Bracket.closing : Bracket → String
  | brace => "\x7d"
  | paren => "\\right)"

/-- A part of a formula. -/
inductive Box where
  | letter (c : Char)
  | sign (s : Sign)
  | group (bracket : Bracket) (row : List Box)

/-- What a formula is spelled from, once its groups are laid out flat. -/
inductive Piece where
  | letter (c : Char)
  | sign (s : Sign)
  | opening (bracket : Bracket)
  | closing (bracket : Bracket)
deriving DecidableEq

/-- The characters of a piece: an underscore has a backslash before it. -/
def Piece.chars : Piece → List Char
  | letter c => if c == '_' then ['\\', '_'] else [c]
  | sign s => s.text.toList
  | opening bracket => bracket.opening.toList
  | closing bracket => bracket.closing.toList

mutual

/-- The pieces of a box. -/
def Box.pieces : Box → List Piece
  | .letter c => [.letter c]
  | .sign s => [.sign s]
  | .group bracket row => .opening bracket :: (pieces row ++ [.closing bracket])

/-- The pieces of a row of boxes. -/
def pieces : List Box → List Piece
  | [] => []
  | box :: row => box.pieces ++ pieces row

end

/-- What a row of boxes is spelled as. -/
def spell (row : List Box) : List Char :=
  (pieces row).flatMap Piece.chars

/-- The letters of a number or a name. -/
def letters (text : String) : List Box :=
  text.toList.map .letter

/-- A row, as a group of its own where it is `enclosed`. -/
def grouped (bracket : Bracket) (enclosed : Bool) (row : List Box) : List Box :=
  if enclosed then [.group bracket row] else row

/-- The command that a function is shown by. -/
def command? : String → Option Sign
  | "sqrt" => some .sqrt
  | "sin" => some .sin
  | "cos" => some .cos
  | "tan" => some .tan
  | "log" | "ln" => some .ln
  | _ => none

end Latex

/-- The sign between the operands of an operation; a quotient has its sign before them. -/
def Operation.shownSign : Operation → Latex.Sign
  | add => .plus
  | sub => .minus
  | mul => .times
  | div => .frac

namespace Expr

open Latex

/-- Whether an expression is the number `1` or `1.0`. -/
def isOne : Expr → Bool
  | number literal => literal.text == "1" || literal.text == "1.0"
  | _ => false

/-- Whether an expression needs no group beneath a minus sign or as the base of a power. -/
def standsAlone (t : Expr) (place : Place) : Bool :=
  t.isAtomic || hasOwnParentheses t place

/-- The row of a call of `function` on `argument`, whose row is `inner`. -/
def callBoxes (function : String) (argument : Expr) (inner : List Box) : List Box :=
  match command? function with
  | some command => [.sign command, .group .brace inner]
  | none =>
    if function = "exp" then
      if argument.isOne then [.letter 'e'] else [.letter 'e', .sign .caret, .group .brace inner]
    else [.sign .mathrm, .group .brace (letters function), .group .paren inner]

/-- The row of an expression that stands beneath `place`. -/
def boxes : Expr → Place → List Box
  | number literal, _ => letters (ofLiteral literal.text)
  | name text, _ => if isPiName text then [.sign .pi] else letters text
  | negate operand, _ =>
    .sign .negative :: grouped .paren (!operand.standsAlone .unary) (operand.boxes .unary)
  | binary .div left right, _ =>
    [.sign .frac, .group .brace (left.boxes .atom), .group .brace (right.boxes .atom)]
  | binary operation left right, place =>
    grouped .paren (hasOwnParentheses (binary operation left right) place)
      (left.boxes operation.place ++ .sign operation.shownSign :: right.boxes operation.place)
  | pow base exponent, _ =>
    grouped .brace (!base.standsAlone .power) (base.boxes .power) ++
      [.sign .caret, .group .brace (exponent.boxes .power)]
  | call function argument, _ => callBoxes function argument (argument.boxes .atom)

end Expr

namespace Latex

/-! ### Spelling -/

@[simp]
theorem pieces_append (row row' : List Box) : pieces (row ++ row') = pieces row ++ pieces row' := by
  induction row with
  | nil => rfl
  | cons box row ih => rw [List.cons_append, pieces, pieces, ih, List.append_assoc]

@[simp]
theorem spell_nil : spell [] = [] := rfl

@[simp]
theorem spell_append (row row' : List Box) : spell (row ++ row') = spell row ++ spell row' := by
  rw [spell, pieces_append, List.flatMap_append, spell, spell]

/-- A row is spelled from its first letter on, an underscore behind a backslash. -/
@[simp]
theorem spell_letter (c : Char) (row : List Box) :
    spell (.letter c :: row) = (Piece.letter c).chars ++ spell row := rfl

/-- A row that begins with a sign is spelled with the text of the sign first. -/
@[simp]
theorem spell_sign (s : Sign) (row : List Box) :
    spell (.sign s :: row) = s.text.toList ++ spell row := rfl

/-- A row that begins with a group is spelled with the group in its two brackets first. -/
@[simp]
theorem spell_group (bracket : Bracket) (inner row : List Box) :
    spell (.group bracket inner :: row) =
      bracket.opening.toList ++ (spell inner ++ (bracket.closing.toList ++ spell row)) := by
  simp [spell, pieces, Box.pieces, Piece.chars]

/-- A letter is written as itself, but for the underscore, which gets a backslash. -/
theorem chars_letter (c : Char) :
    c = '_' ∧ (Piece.letter c).chars = ['\\', '_'] ∨ c ≠ '_' ∧ (Piece.letter c).chars = [c] := by
  by_cases hc : c = '_'
  · exact .inl ⟨hc, if_pos (beq_iff_eq.2 hc)⟩
  · exact .inr ⟨hc, if_neg fun h => hc (beq_iff_eq.1 h)⟩

/-- Every piece has some character. -/
theorem Piece.chars_ne_nil (piece : Piece) : piece.chars ≠ [] := by
  cases piece with
  | letter c =>
    obtain ⟨-, heq⟩ | ⟨-, heq⟩ := chars_letter c <;> rw [heq] <;> exact List.cons_ne_nil _ _
  | sign s => cases s <;> decide
  | opening bracket => cases bracket <;> decide
  | closing bracket => cases bracket <;> decide

/-- The letters of a text are spelled as the text with its underscores escaped. -/
theorem spell_letters (text : String) : spell (letters text) = (escaped text).toList := by
  rw [escaped, String.toList_ofList, letters]
  induction text.toList with
  | nil => rfl
  | cons c cs ih => rw [List.map_cons, spell_letter, ih, List.flatMap_cons, Piece.chars]

/-- A text without underscores is spelled as it is. -/
theorem spell_letters_of_not_mem {text : String} (h : '_' ∉ text.toList) :
    spell (letters text) = text.toList := by
  rw [letters]
  generalize text.toList = cs at h
  induction cs with
  | nil => rfl
  | cons c cs ih =>
    have hc : (c == '_') = false := beq_false_of_ne fun hc => h (hc ▸ List.mem_cons_self)
    rw [List.map_cons, spell_letter, ih fun hmem => h (List.mem_cons_of_mem _ hmem), Piece.chars,
      hc]
    rfl

/-- A text in braces spells a group in braces. -/
theorem toList_braced {text : String} {row : List Box} (h : text.toList = spell row) :
    (braced text).toList = spell [.group .brace row] := by
  simp [braced, Bracket.opening, Bracket.closing, h]

/-- A text in parentheses spells a group in parentheses. -/
theorem toList_parenthesized {text : String} {row : List Box} (h : text.toList = spell row) :
    (parenthesized text).toList = spell [.group .paren row] := by
  simp [parenthesized, Bracket.opening, Bracket.closing, h]

/-- A command with its argument in braces spells the sign and the group. -/
theorem toList_command {text inner : String} {row : List Box} {command : Sign}
    (htext : text = command.text) (h : inner.toList = spell row) :
    (text ++ braced inner).toList = spell [.sign command, .group .brace row] := by
  rw [String.toList_append, toList_braced h, spell_sign, htext]

/-- The exponential spells the letter `e`, the caret and its exponent in braces. -/
theorem toList_exponential {inner : String} {row : List Box} (h : inner.toList = spell row) :
    ("e^" ++ braced inner).toList = spell [.letter 'e', .sign .caret, .group .brace row] := by
  rw [String.toList_append, toList_braced h, spell_letter, spell_sign]
  rfl

/-- There is a command for these six functions alone. -/
theorem command?_eq_none {function : String} (hsqrt : function ≠ "sqrt") (hsin : function ≠ "sin")
    (hcos : function ≠ "cos") (htan : function ≠ "tan") (hlog : function ≠ "log")
    (hln : function ≠ "ln") : command? function = none := by
  unfold command?
  split <;> first | contradiction | rfl

/-- The exponential is shown as a power and has no command. -/
theorem ne_exp_of_command? {function : String} {command : Sign}
    (h : command? function = some command) : function ≠ "exp" := by
  rintro rfl
  cases h

/-- The boxes of the exponential: `e` alone for the argument 1, else `e` with an exponent. -/
theorem callBoxes_exp (argument : Expr) (inner : List Box) :
    argument.callBoxes "exp" inner =
      if argument.isOne then [.letter 'e'] else [.letter 'e', .sign .caret, .group .brace inner] :=
  rfl

/-- **A call is spelled as its boxes are**, if its argument is. -/
theorem toList_ofCall {inner : String} {row : List Box} (function : String) (argument : Expr)
    (h : inner.toList = spell row) :
    (ofCall function argument inner).toList = spell (argument.callBoxes function row) := by
  unfold ofCall
  split
  · exact toList_command rfl h
  · exact toList_command rfl h
  · exact toList_command rfl h
  · exact toList_command rfl h
  · exact toList_command rfl h
  · exact toList_command rfl h
  · rw [callBoxes_exp]
    split
    · next literal =>
      have hone : (Expr.number literal).isOne = literal.isOne := rfl
      rw [hone]
      split
      · rfl
      · exact toList_exponential h
    · next hne =>
      have hone : argument.isOne = false := by
        cases argument with
        | number literal => exact absurd rfl (hne literal)
        | name | negate | binary | pow | call => rfl
      rw [hone, if_neg Bool.false_ne_true]
      exact toList_exponential h
  · next hsqrt hsin hcos htan hlog hln hexp =>
    rw [Expr.callBoxes, command?_eq_none hsqrt hsin hcos htan hlog hln]
    dsimp only
    rw [if_neg hexp, String.toList_append, String.toList_append, toList_parenthesized h,
      toList_braced (spell_letters function).symm, List.append_assoc, ← spell_append]
    rfl

/-- A call is shown by a command, as the letter `e`, as a power of `e`, or by its name. -/
theorem callBoxes_cases (function : String) (argument : Expr) (inner : List Box) :
    (∃ command, command? function = some command ∧
        argument.callBoxes function inner = [.sign command, .group .brace inner]) ∨
      (function = "exp" ∧ argument.isOne = true ∧
        argument.callBoxes function inner = [.letter 'e']) ∨
      (function = "exp" ∧ argument.isOne = false ∧
        argument.callBoxes function inner = [.letter 'e', .sign .caret, .group .brace inner]) ∨
      (function ≠ "exp" ∧ command? function = none ∧
        argument.callBoxes function inner =
          [.sign .mathrm, .group .brace (letters function), .group .paren inner]) := by
  unfold Expr.callBoxes
  cases hcommand : command? function with
  | some command => exact .inl ⟨command, rfl, rfl⟩
  | none =>
    dsimp only
    split
    · next hexp =>
      cases hone : argument.isOne with
      | true => exact .inr (.inl ⟨hexp, rfl, rfl⟩)
      | false => exact .inr (.inr (.inl ⟨hexp, rfl, rfl⟩))
    · next hexp => exact .inr (.inr (.inr ⟨hexp, rfl, rfl⟩))

/-- Induction on a row, box by box and into its groups. -/
@[elab_as_elim]
theorem row_induction {motive : List Box → Prop} (nil : motive [])
    (letter : ∀ c row, motive row → motive (.letter c :: row))
    (sign : ∀ s row, motive row → motive (.sign s :: row))
    (group : ∀ bracket inner row, motive inner → motive row →
      motive (.group bracket inner :: row)) :
    ∀ row, motive row
  | [] => nil
  | .letter c :: row => letter c row (row_induction nil letter sign group row)
  | .sign s :: row => sign s row (row_induction nil letter sign group row)
  | .group bracket inner :: row =>
    group bracket inner row (row_induction nil letter sign group inner)
      (row_induction nil letter sign group row)

/-! ### Legible letters -/

/-- Whether every letter of a row, also within its groups, may stand in a number or a name. -/
def Legible (row : List Box) : Prop :=
  ∀ c, .letter c ∈ pieces row → Token.continuesName c = true

theorem legible_nil : Legible [] := fun _ h => absurd h List.not_mem_nil

theorem legible_append {row row' : List Box} :
    Legible (row ++ row') ↔ Legible row ∧ Legible row' := by
  simp only [Legible, pieces_append, List.mem_append, or_imp, forall_and]

/-- A row behind a letter is legible if the letter can stand in a name and the rest is legible. -/
theorem legible_letter {c : Char} {row : List Box} :
    Legible (.letter c :: row) ↔ Token.continuesName c = true ∧ Legible row := by
  simp [Legible, pieces, Box.pieces, or_imp, forall_and]

theorem legible_sign {s : Sign} {row : List Box} : Legible (.sign s :: row) ↔ Legible row := by
  simp [Legible, pieces, Box.pieces]

theorem legible_group {bracket : Bracket} {inner row : List Box} :
    Legible (.group bracket inner :: row) ↔ Legible inner ∧ Legible row := by
  simp [Legible, pieces, Box.pieces, or_imp, forall_and]

/-- Grouping a row or not does not matter. -/
theorem legible_grouped {bracket : Bracket} {enclosed : Bool} {row : List Box} :
    Legible (grouped bracket enclosed row) ↔ Legible row := by
  cases enclosed with
  | true => exact legible_group.trans (and_iff_left legible_nil)
  | false => exact Iff.rfl

/-- The letters of a name are legible. -/
theorem legible_letters {text : String} (h : ∀ c ∈ text.toList, Token.continuesName c = true) :
    Legible (letters text) := by
  rw [letters]
  generalize text.toList = cs at h
  induction cs with
  | nil => exact legible_nil
  | cons c cs ih =>
    exact legible_letter.2
      ⟨h c List.mem_cons_self, ih fun d hd => h d (List.mem_cons_of_mem _ hd)⟩

theorem letters_ne_nil {text : String} (h : text.toList ≠ []) : letters text ≠ [] :=
  fun hnil => h (List.map_eq_nil_iff.1 hnil)

end Latex

namespace Expr

open Latex

/-- The boxes of an operation on one line: both operands with the sign between them, in parentheses
where the place asks for them. -/
theorem boxes_binary {operation : Operation} (h : operation ≠ .div) (left right : Expr)
    (place : Place) :
    (binary operation left right).boxes place =
      grouped .paren (hasOwnParentheses (binary operation left right) place)
        (left.boxes operation.place ++
          .sign operation.shownSign :: right.boxes operation.place) := by
  cases operation with
  | add | sub | mul => rfl
  | div => exact absurd rfl h

/-- **An operation on one line is spelled as its boxes are**, if both operands are in every place.
-/
theorem toList_render_binary {operation : Operation} (h : operation ≠ .div) {left right : Expr}
    (hleft : ∀ place, (render left place).toList = spell (left.boxes place))
    (hright : ∀ place, (render right place).toList = spell (right.boxes place)) (place : Place) :
    (render (binary operation left right) place).toList =
      spell ((binary operation left right).boxes place) := by
  have htext : (render left operation.place ++ operation.formulaSign ++
      render right operation.place).toList =
      spell (left.boxes operation.place ++ .sign operation.shownSign ::
        right.boxes operation.place) := by
    have hsign : operation.formulaSign = operation.shownSign.text := by
      cases operation with
      | add | sub | mul => rfl
      | div => exact absurd rfl h
    rw [String.toList_append, String.toList_append, hleft, hright, hsign, spell_append, spell_sign,
      List.append_assoc]
  rw [render_binary h, boxes_binary h]
  cases hasOwnParentheses (binary operation left right) place with
  | true => exact toList_parenthesized htext
  | false => exact htext

/-- **The LaTeX of an expression spells its row.** -/
theorem toList_render {t : Expr} (h : t.Readable) (place : Place) :
    (render t place).toList = spell (t.boxes place) := by
  induction t generalizing place with
  | number literal =>
    obtain ⟨-, hchars, -⟩ := lexical_ofLiteral h.1
    refine (spell_letters_of_not_mem fun hmem => ?_).symm
    exact absurd (hchars _ hmem) (by decide)
  | name text =>
    dsimp only [render, ofName, boxes]
    split
    · rfl
    · exact (spell_letters text).symm
  | negate operand ih =>
    have hinner := ih h .unary
    dsimp only [render, boxes]
    rw [standsAlone]
    -- the text and the row decide on parentheses by the same condition
    cases operand.isAtomic || hasOwnParentheses operand .unary with
    | true => rw [if_pos rfl, String.toList_append, hinner]; rfl
    | false =>
      rw [if_neg Bool.false_ne_true, String.toList_append, toList_parenthesized hinner]; rfl
  | binary operation left right ih ih' =>
    by_cases hdiv : operation = .div
    · subst hdiv
      dsimp only [render, boxes]
      rw [String.toList_append, String.toList_append, toList_braced (ih h.1 _),
        toList_braced (ih' h.2 _), List.append_assoc, ← spell_append]
      rfl
    · exact toList_render_binary hdiv (ih h.1) (ih' h.2) place
  | pow base exponent ih ih' =>
    have hbase := ih h.1 .power
    dsimp only [render, boxes]
    rw [standsAlone, String.toList_append, String.toList_append, toList_braced (ih' h.2 _),
      spell_append, List.append_assoc]
    cases base.isAtomic || hasOwnParentheses base .power with
    | true => rw [if_pos rfl, hbase]; rfl
    | false => rw [if_neg Bool.false_ne_true, toList_braced hbase]; rfl
  | call function argument ih => exact toList_ofCall function argument (ih h.2 _)

/-! ### Letters -/

/-- **The boxes of a readable tree are legible**, in every place; the induction is on the tree. -/
theorem legible_boxes {t : Expr} (h : t.Readable) (place : Place) : Legible (t.boxes place) := by
  induction t generalizing place with
  | number literal =>
    obtain ⟨-, hchars, -⟩ := lexical_ofLiteral h.1
    exact legible_letters fun c hc => Token.continuesName_of_startsNumber (hchars c hc)
  | name text =>
    dsimp only [boxes]
    split
    · exact legible_sign.2 legible_nil
    · exact legible_letters h.continuesName
  | negate operand ih => exact legible_sign.2 (legible_grouped.2 (ih h .unary))
  | binary operation left right ih ih' =>
    by_cases hdiv : operation = .div
    · subst hdiv
      exact legible_sign.2 (legible_group.2 ⟨ih h.1 _, legible_group.2 ⟨ih' h.2 _, legible_nil⟩⟩)
    · rw [boxes_binary hdiv]
      exact legible_grouped.2 (legible_append.2 ⟨ih h.1 _, legible_sign.2 (ih' h.2 _)⟩)
  | pow base exponent ih ih' =>
    exact legible_append.2 ⟨legible_grouped.2 (ih h.1 _),
      legible_sign.2 (legible_group.2 ⟨ih' h.2 _, legible_nil⟩)⟩
  | call function argument ih =>
    have hinner := ih h.2 .atom
    rw [boxes]
    obtain ⟨command, -, heq⟩ | ⟨-, -, heq⟩ | ⟨-, -, heq⟩ | ⟨-, -, heq⟩ :=
      callBoxes_cases function argument (argument.boxes .atom) <;> rw [heq]
    · exact legible_sign.2 (legible_group.2 ⟨hinner, legible_nil⟩)
    · exact legible_letter.2 ⟨by decide +kernel, legible_nil⟩
    · exact legible_letter.2 ⟨by decide +kernel,
        legible_sign.2 (legible_group.2 ⟨hinner, legible_nil⟩)⟩
    · exact legible_sign.2 (legible_group.2 ⟨legible_letters h.1.continuesName,
        legible_group.2 ⟨hinner, legible_nil⟩⟩)

/-- A readable tree has boxes. -/
theorem boxes_ne_nil {t : Expr} (h : t.Readable) (place : Place) : t.boxes place ≠ [] := by
  cases t with
  | number literal => exact letters_ne_nil (lexical_ofLiteral h.1).1
  | name text =>
    dsimp only [boxes]
    split
    · exact List.cons_ne_nil _ _
    · exact letters_ne_nil h.name_ne_nil
  | negate operand => exact List.cons_ne_nil _ _
  | binary operation left right =>
    by_cases hdiv : operation = .div
    · subst hdiv
      exact List.cons_ne_nil _ _
    · rw [boxes_binary hdiv, grouped]
      split
      · exact List.cons_ne_nil _ _
      · exact List.append_ne_nil_of_right_ne_nil _ (List.cons_ne_nil _ _)
  | pow base exponent => exact List.append_ne_nil_of_right_ne_nil _ (List.cons_ne_nil _ _)
  | call function argument =>
    rw [boxes]
    obtain ⟨command, -, heq⟩ | ⟨-, -, heq⟩ | ⟨-, -, heq⟩ | ⟨-, -, heq⟩ :=
      callBoxes_cases function argument (argument.boxes .atom) <;> rw [heq] <;>
      exact List.cons_ne_nil _ _

/-! ### Texts -/

/-- A text without an expression has an empty formula, any other the row of its expression. -/
theorem latexOrEmpty_cases (text : String) :
    (∃ e, read text = .error e) ∧ latexOrEmpty text = "" ∨
      ∃ t : Expr, read text = .ok t ∧ t.Readable ∧
        (latexOrEmpty text).toList = spell (t.boxes .atom) := by
  cases hread : read text with
  | error e =>
    refine .inl ⟨⟨e, rfl⟩, ?_⟩
    rw [latexOrEmpty, latexOf, hread]
    rfl
  | ok t =>
    have ht := readable_of_read hread
    exact .inr ⟨t, rfl, ht, latexOrEmpty_of_read hread ▸ toList_render ht .atom⟩

end Expr
end QubitSphere
