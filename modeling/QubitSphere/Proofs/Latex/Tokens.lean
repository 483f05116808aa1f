/-
# The tokens of a formula

A formula is LaTeX, but it is cut into tokens like any text: the words `left` and `right` in front
of parentheses say nothing, and `cdot` is the sign of a product.  What is left are the tokens of an
expression (`Latex.tokens`), for the expressions that numbers, minus signs, sums, differences and
products make up (`Expr.Arithmetical`).  They have fewer parentheses than the text that the
expression was read from: `Expr.shownTokens` says which are there.
-/

import QubitSphere.Proofs.Expr.SourceForm
import QubitSphere.Expr.Latex

namespace QubitSphere

/-- The place of the operands of an operation. -/
def Operation.place : Operation → Latex.Place
  | add | sub => .sum
  | mul => .product
  | div => .atom

/-- The sign of an operation in a formula; a quotient has none. -/
def Operation.formulaSign : Operation → String
  | add => " + "
  | sub => " - "
  | mul => " \\cdot "
  | div => ""

namespace Latex

/-- The token of an expression that a token of a formula stands for. -/
def expressionToken? : Token → Option Token
  | .name "left" | .name "right" => none
  | .name "cdot" => some .star
  | token => some token

/-- The tokens of an expression that a formula shows. -/
def tokens (formula : String) : List Token :=
  (Token.scan formula.toList).filterMap expressionToken?

/-- Tokens, in parentheses where they are `enclosed`. -/
def bracket (enclosed : Bool) (ts : List Token) : List Token :=
  if enclosed then .openParen :: (ts ++ [.closeParen]) else ts

/-- The tokens of a formula are tokens of some text. -/
theorem lexical_of_mem_tokens {formula : String} {token : Token} (h : token ∈ tokens formula) :
    token.Lexical := by
  obtain ⟨shown, hshown, htoken⟩ := List.mem_filterMap.1 h
  have hlex := Token.lexical_of_mem_scan hshown
  unfold expressionToken? at htoken
  split at htoken <;> cases htoken
  · exact True.intro
  · exact hlex

/-! ### The tokens of the parts -/

theorem lexical_left : (Token.name "left").Lexical :=
  ⟨'l', ['e', 'f', 't'], rfl, by decide, List.all_eq_true.1 rfl⟩

theorem lexical_right : (Token.name "right").Lexical :=
  ⟨'r', ['i', 'g', 'h', 't'], rfl, by decide, List.all_eq_true.1 rfl⟩

theorem lexical_cdot : (Token.name "cdot").Lexical :=
  ⟨'c', ['d', 'o', 't'], rfl, by decide, List.all_eq_true.1 rfl⟩

/-- Parentheses of a formula are parentheses of the expression. -/
theorem tokens_parenthesized (text : String) :
    tokens (parenthesized text) = bracket true (tokens text) := by
  have htext : (parenthesized text).toList =
      '\\' :: ("left".toList ++ '(' :: (text.toList ++ '\\' :: ("right".toList ++ [')']))) := by
    simp [parenthesized]
  rw [tokens, htext, Token.scan_cons_separator rfl, Token.scan_append_sign rfl,
    Token.scan_append_cons rfl, Token.scan_cons_separator rfl, Token.scan_append_sign rfl,
    Token.scan_name lexical_left, Token.scan_name lexical_right, Token.scan_nil]
  simp [expressionToken?, Token.ofSign?, bracket, tokens]

/-- A minus sign of a formula is one of the expression. -/
theorem tokens_minus (text : String) : tokens ("-" ++ text) = .minus :: tokens text := by
  have htext : ("-" ++ text).toList = '-' :: text.toList := by simp
  rw [tokens, htext, Token.scan_cons_sign rfl]
  rfl

/-- A sign between blanks stands between the tokens on its two sides. -/
theorem tokens_sign {text : String} {c : Char} {sign : Token} (htext : text.toList = [' ', c, ' '])
    (hsign : Token.ofSign? c = some sign) (hshown : expressionToken? sign = some sign)
    (left right : String) :
    tokens (left ++ text ++ right) = tokens left ++ sign :: tokens right := by
  have hlist : (left ++ text ++ right).toList = left.toList ++ ' ' :: c :: ' ' :: right.toList := by
    simp [htext]
  rw [tokens, hlist, Token.scan_append_blank, Token.scan_cons_sign hsign, Token.scan_cons_blank,
    List.filterMap_append, List.filterMap_cons_some hshown]
  rfl

/-- The sign of an operation stands between the tokens of its two operands. -/
theorem tokens_operation {operation : Operation} (h : operation ≠ .div) (left right : String) :
    tokens (left ++ operation.formulaSign ++ right) =
      tokens left ++ operation.token :: tokens right := by
  cases operation with
  | add => exact tokens_sign rfl rfl rfl left right
  | sub => exact tokens_sign rfl rfl rfl left right
  | mul =>
    have hlist : (left ++ Operation.mul.formulaSign ++ right).toList =
        left.toList ++ ' ' :: '\\' :: ("cdot".toList ++ ' ' :: right.toList) := by
      simp [Operation.formulaSign]
    rw [tokens, hlist, Token.scan_append_blank, Token.scan_cons_separator rfl,
      Token.scan_append_blank, Token.scan_name lexical_cdot]
    simp [expressionToken?, Token.ofSign?, tokens, Operation.token]
  | div => exact absurd rfl h

/-! ### Numbers -/

/-- A number loses a final `.0`, and keeps a digit. -/
theorem ofLiteral_cases (text : String) :
    ofLiteral text = text ∨
      ∃ whole, text.toList = whole ++ ['.', '0'] ∧
        (ofLiteral text).toList = if whole = [] then ['0'] else whole := by
  unfold ofLiteral
  split
  · next whole hwhole =>
    refine .inr ⟨whole.reverse, ?_, ?_⟩
    · rw [← List.reverse_inj, hwhole]
      simp
    · cases whole <;> simp
  · exact .inl rfl

/-- A number without its final `.0` is a number. -/
theorem lexical_ofLiteral {text : String} (h : (Token.number text).Lexical) :
    (Token.number (ofLiteral text)).Lexical := by
  rcases ofLiteral_cases text with heq | ⟨whole, htext, heq⟩
  · rwa [heq]
  · obtain ⟨-, hchars, hcount⟩ := h
    rw [htext] at hchars hcount
    rw [Token.Lexical, heq]
    split
    · exact ⟨by decide, List.all_eq_true.1 rfl, by decide⟩
    · next hne =>
      refine ⟨hne, fun c hc => hchars c (List.mem_append_left _ hc), ?_⟩
      rw [List.count_append] at hcount
      omega

/-- A number without its final `.0` is not the point alone. -/
theorem ofLiteral_ne_point {text : String} (h : (Token.number text).Lexical) (hne : text ≠ ".") :
    ofLiteral text ≠ "." := by
  rcases ofLiteral_cases text with heq | ⟨whole, htext, heq⟩
  · rwa [heq]
  · obtain ⟨-, -, hcount⟩ := h
    intro hpoint
    rw [hpoint] at heq
    split at heq
    · exact absurd heq (by decide)
    · rw [htext, ← heq] at hcount
      exact absurd hcount (by decide)

/-- A number of a formula is one token. -/
theorem tokens_ofLiteral {text : String} (h : (Token.number text).Lexical) :
    tokens (ofLiteral text) = [.number (ofLiteral text)] := by
  rw [tokens, Token.scan_number (lexical_ofLiteral h)]
  rfl

end Latex

namespace Expr

open Latex

/-- Whether numbers, minus signs, sums, differences and products are all that an expression is made
of. -/
def Arithmetical : Expr → Prop
  | number _ => True
  | negate operand => operand.Arithmetical
  | binary operation left right => operation ≠ .div ∧ left.Arithmetical ∧ right.Arithmetical
  | name _ | pow .. | call .. => False

/-- The tokens that the formula of an arithmetical expression shows. -/
def shownTokens : Expr → List Token
  | number literal => [.number (ofLiteral literal.text)]
  | negate operand => .minus :: bracket (!operand.isAtomic) operand.shownTokens
  | binary operation left right =>
    bracket (hasOwnParentheses left operation.place) left.shownTokens ++ operation.token ::
      bracket (hasOwnParentheses right operation.place) right.shownTokens
  | name _ | pow .. | call .. => []

/-- The formula of an operation on one line, by the formulas of its operands. -/
theorem render_binary {operation : Operation} (h : operation ≠ .div) (left right : Expr)
    (place : Place) :
    render (binary operation left right) place =
      let text := render left operation.place ++ operation.formulaSign ++
        render right operation.place
      if hasOwnParentheses (binary operation left right) place then parenthesized text
      else text := by
  cases operation with
  | add | sub | mul => rfl
  | div => exact absurd rfl h

/-- What is atomic has no parentheses anywhere. -/
theorem hasOwnParentheses_of_isAtomic {t : Expr} (h : t.isAtomic = true) (place : Place) :
    hasOwnParentheses t place = false := by
  cases t with
  | number | name | call => rfl
  | negate | binary | pow => cases h

/-- **A formula shows the tokens of its expression.** -/
theorem tokens_render {t : Expr} (h : t.Readable) (ha : t.Arithmetical) (place : Place) :
    tokens (render t place) = bracket (hasOwnParentheses t place) t.shownTokens := by
  induction t generalizing place with
  | number literal => exact tokens_ofLiteral h.1
  | negate operand ih =>
    have hinner := ih h ha .unary
    have hplace : hasOwnParentheses (negate operand) place = false := rfl
    rw [hplace, bracket, if_neg Bool.false_ne_true, shownTokens]
    dsimp only [render]
    cases hatomic : operand.isAtomic with
    | true =>
      rw [hasOwnParentheses_of_isAtomic hatomic] at hinner
      rw [Bool.true_or, if_pos rfl, tokens_minus, hinner]
      rfl
    | false =>
      cases hown : hasOwnParentheses operand .unary with
      | true =>
        rw [hown] at hinner
        rw [Bool.or_true, if_pos rfl, tokens_minus, hinner]
        rfl
      | false =>
        rw [hown] at hinner
        rw [Bool.or_false, if_neg Bool.false_ne_true, tokens_minus, tokens_parenthesized, hinner]
        rfl
  | binary operation left right ih ih' =>
    have htext := tokens_operation ha.1 (render left operation.place) (render right operation.place)
    rw [ih h.1 ha.2.1, ih' h.2 ha.2.2] at htext
    rw [render_binary ha.1]
    cases hasOwnParentheses (binary operation left right) place with
    | true => exact (tokens_parenthesized _).trans (congrArg (bracket true) htext)
    | false => exact htext
  | name | pow | call => exact ha.elim

/-- **A formula shows the tokens of its expression**, with no parentheses around all of it. -/
theorem tokens_latex {t : Expr} (h : t.Readable) (ha : t.Arithmetical) :
    tokens t.latex = t.shownTokens := by
  have hatom : hasOwnParentheses t .atom = false := by
    match t with
    | binary operation _ _ => cases operation <;> rfl
    | number _ | negate _ | name _ | pow .. | call .. => rfl
  rw [latex, tokens_render h ha, hatom]
  rfl

/-- A text that can be read is shown as the formula of its expression. -/
theorem latexOrEmpty_of_read {text : String} {t : Expr} (h : read text = .ok t) :
    latexOrEmpty text = t.latex := by
  rw [latexOrEmpty, latexOf, h]
  rfl

end Expr
end QubitSphere
