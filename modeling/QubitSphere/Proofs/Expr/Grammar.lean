/-
# The grammar of expressions

Which tokens are a phrase, and of which expression (`Derives`):

| phrase | is |
| --- | --- |
| sum | a product, or a sum, `+` or `-`, and a product |
| product | a power, or a product, `*` or `/`, and a power |
| power | `pow ( sum , sum )`, or a unary that does not begin with `pow (` |
| unary | `-` and a unary, or a primary |
| primary | a number other than `.`, a name, `name ( sum )`, or `( sum )` |

A chain is its longest beginning that is a chain, a sign and one more operand, so its operations
group to the left.  A derivation also tells its depth: the most parentheses, calls, powers and minus
signs that are around one of its tokens.
-/

import QubitSphere.Expr.Reading

namespace QubitSphere

/-- The literal that a text of digits and points writes. -/
def Literal.written (text : String) : Literal where
  text := text
  value := Binary64.ofRatio (ofDigits (text.toList.filter Char.isDigit))
    (Nat.pow 10 (fraction text.toList).length)

/-- A literal has at least one digit; a point alone is none, although it is a token. -/
theorem Literal.ofText?_eq (text : String) :
    ofText? text =
      if (text.toList.filter Char.isDigit).isEmpty then none else some (written text) := rfl

namespace Expr

/-- The phrases of the grammar. -/
inductive Phrase where
  | chain (rank : Rank)
  | power
  | unary
  | primary
deriving DecidableEq

/-- A sum. -/
abbrev Phrase.sum : Phrase := .chain .sum

/-- What a chain joins: products in a sum, powers in a product. -/
def Rank.operand : Rank → Phrase
  | .sum => .chain .product
  | .product => .power

/-- The tokens of a phrase, with the expression that they write and the depth they are nested to. -/
inductive Derives : Phrase → List Token → Expr → Nat → Prop
  | operand {rank : Rank} {ts : List Token} {t : Expr} {d : Nat} :
      Derives rank.operand ts t d → Derives (.chain rank) ts t d
  | chain {rank : Rank} {ts us : List Token} {sign : Token} {operation : Operation}
      {left right : Expr} {d e : Nat} :
      Derives (.chain rank) ts left d → rank.operation? sign = some operation →
      Derives rank.operand us right e →
      Derives (.chain rank) (ts ++ sign :: us) (.binary operation left right) (max d e)
  | pow {ts us : List Token} {base exponent : Expr} {d e : Nat} :
      Derives .sum ts base d → Derives .sum us exponent e →
      Derives .power (.name "pow" :: .openParen :: (ts ++ .comma :: (us ++ [.closeParen])))
        (.pow base exponent) (max d e + 1)
  | unary {ts : List Token} {t : Expr} {d : Nat} :
      Derives .unary ts t d → ¬ [.name "pow", .openParen] <+: ts → Derives .power ts t d
  | negate {ts : List Token} {t : Expr} {d : Nat} :
      Derives .unary ts t d → Derives .unary (.minus :: ts) (.negate t) (d + 1)
  | primary {ts : List Token} {t : Expr} {d : Nat} :
      Derives .primary ts t d → Derives .unary ts t d
  | number {text : String} :
      text ≠ "." → Derives .primary [.number text] (.number (Literal.written text)) 0
  | name {text : String} : Derives .primary [.name text] (.name text) 0
  | call {function : String} {ts : List Token} {t : Expr} {d : Nat} :
      Derives .sum ts t d →
      Derives .primary (.name function :: .openParen :: (ts ++ [.closeParen])) (.call function t)
        (d + 1)
  | group {ts : List Token} {t : Expr} {d : Nat} :
      Derives .sum ts t d → Derives .primary (.openParen :: (ts ++ [.closeParen])) t (d + 1)

/-- Every phrase has a token. -/
theorem Derives.ne_nil {phrase : Phrase} {ts : List Token} {t : Expr} {d : Nat}
    (h : Derives phrase ts t d) : ts ≠ [] := by
  induction h with
  | operand _ ih | unary _ _ ih | primary _ ih => exact ih
  | chain _ _ _ ih => exact fun h => ih (List.append_eq_nil_iff.1 h).1
  | pow | negate | number | name | call | group => exact List.cons_ne_nil _ _

end Expr
end QubitSphere
