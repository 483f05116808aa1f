/-
# The source form of an expression

Every operation in its own parentheses, so that the grouping can be read off the text.
-/

import QubitSphere.Expr.Basic

namespace QubitSphere

/-- The sign of an operation. -/
def Operation.sign : Operation → String
  | add => "+"
  | sub => "-"
  | mul => "*"
  | div => "/"

/-- The fully parenthesised text of an expression.  The operand of a minus sign has parentheses
of its own, since a two-argument power may not follow the sign directly. -/
def Expr.source : Expr → String
  | number literal => literal.text
  | name text => text
  | negate operand => "(-(" ++ operand.source ++ "))"
  | binary operation left right =>
    "(" ++ left.source ++ " " ++ operation.sign ++ " " ++ right.source ++ ")"
  | pow base exponent => "pow(" ++ base.source ++ ", " ++ exponent.source ++ ")"
  | call function argument => function ++ "(" ++ argument.source ++ ")"

end QubitSphere
