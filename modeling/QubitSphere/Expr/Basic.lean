/-
# Expressions

Numbers as written, names, negation, the four operations, powers and calls of a one-argument
function.
-/

import QubitSphere.Binary64.Nearest

namespace QubitSphere

/-- A number with the text it was written as. -/
structure Literal where
  text : String
  value : Float
deriving BEq

namespace Literal

/-- The natural number that a list of decimal digits writes. -/
def ofDigits (digits : List Char) : Nat :=
  digits.foldl (fun n c => 10 * n + (c.toNat - '0'.toNat)) 0

/-- The digits after the first point. -/
def fraction (cs : List Char) : List Char :=
  (cs.dropWhile (· != '.')).drop 1

/-- Reads digits with at most one point as the nearest double; a point alone is no number. -/
def ofText? (text : String) : Option Literal :=
  let digits := text.toList.filter Char.isDigit
  if digits.isEmpty then none
  else some {
    text
    value := Binary64.ofRatio (ofDigits digits) (Nat.pow 10 (fraction text.toList).length) }

/-- Whether a number is written as `1` or `1.0`. -/
def isOne (literal : Literal) : Bool :=
  literal.text == "1" || literal.text == "1.0"

end Literal

/-- The four operations. -/
inductive Operation where
  | add
  | sub
  | mul
  | div
deriving DecidableEq

/-- An expression. -/
inductive Expr where
  | number (literal : Literal)
  | name (name : String)
  | negate (operand : Expr)
  | binary (operation : Operation) (left right : Expr)
  | pow (base exponent : Expr)
  | call (function : String) (argument : Expr)
deriving BEq

/-- Numbers, names and calls never need grouping. -/
def Expr.isAtomic : Expr → Bool
  | number _ | name _ | call .. => true
  | negate _ | binary .. | pow .. => false

end QubitSphere
