/-
# Reasons why a text is no expression
-/

import QubitSphere.Expr.Token

namespace QubitSphere

/-- Why reading stopped.  The end of the text is no token, so only `unexpected` can have found
it, as `none`. -/
inductive SyntaxError where
  /-- A comma or a closing parenthesis had to come here. -/
  | unexpected (expected : Token) (found : Option Token)
  /-- An operand had to come here, and no operand begins with this token. -/
  | noOperand (found : Token)
  /-- The text ended where an operand had to come. -/
  | endedEarly
  /-- The expression was complete before this token. -/
  | trailing (found : Token)
  /-- A number token without a digit. -/
  | malformedNumber (text : String)
  /-- More than `limit` parentheses, calls, powers and minus signs around one operand. -/
  | tooDeep (limit : Nat)
deriving DecidableEq

/-- The wording of a syntax error. -/
def SyntaxError.message : SyntaxError → String
  | unexpected expected found =>
    "expected " ++ expected.describe ++ ", found " ++ Token.describeFound found
  | noOperand found => "unexpected " ++ found.describe
  | endedEarly => "input ended in the middle of an expression"
  | trailing found => "trailing " ++ found.describe ++ " after a complete expression"
  | malformedNumber text => "malformed number literal \"" ++ text ++ "\""
  | tooDeep limit => "expression nested deeper than " ++ toString limit ++ " levels"

end QubitSphere
