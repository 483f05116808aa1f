/-
# The value of an expression

Constants and functions are looked up by name; everything else is double arithmetic, so a division
by zero or the root of a negative number has a value too.  Operands are evaluated from left to
right and a function is looked up before its argument is evaluated: the first unknown name met in
this order is the one reported.
-/

import QubitSphere.Expr.Reading

namespace QubitSphere

/-- Why a text has no value. -/
inductive EvalError where
  | syntaxError (cause : SyntaxError)
  | unknownConstant (name : String)
  | unknownFunction (name : String)
deriving DecidableEq

/-- The wording of an evaluation error. -/
def EvalError.message : EvalError → String
  | syntaxError cause => cause.message
  | unknownConstant name => "unknown constant `" ++ name ++ "`"
  | unknownFunction name => "unknown function `" ++ name ++ "`"

/-- The number named `pi`, as the nearest double. -/
def piValue : Float := 3.141592653589793

/-- The number named `e`, as the nearest double. -/
def eulerValue : Float := 2.718281828459045

/-- The four names of `pi`. -/
def isPiName (name : String) : Bool :=
  name == "pi" || name == "Double.pi" || name == "Float.pi" || name == "CGFloat.pi"

/-- The constant with a name. -/
def constant? (name : String) : Option Float :=
  if name == "e" then some eulerValue
  else if isPiName name then some piValue
  else none

/-- The function with a name; `log` is the natural logarithm. -/
def function? : String → Option (Float → Float)
  | "exp" => some Float.exp
  | "ln" | "log" => some Float.log
  | "log10" => some Float.log10
  | "sqrt" => some Float.sqrt
  | "sin" => some Float.sin
  | "cos" => some Float.cos
  | "tan" => some Float.tan
  | "asin" => some Float.asin
  | "acos" => some Float.acos
  | "atan" => some Float.atan
  | "abs" => some Float.abs
  | _ => none

/-- What an operation does to two numbers. -/
def Operation.apply : Operation → Float → Float → Float
  | add, x, y => x + y
  | sub, x, y => x - y
  | mul, x, y => x * y
  | div, x, y => x / y

namespace Expr

/-- The value of an expression, or the first unknown name in it. -/
def value : Expr → Except EvalError Float
  | number literal => .ok literal.value
  | name text =>
    match constant? text with
    | some x => .ok x
    | none => .error (.unknownConstant text)
  | negate operand => do
    let x ← operand.value
    return -x
  | binary operation left right => do
    let x ← left.value
    let y ← right.value
    return operation.apply x y
  | pow base exponent => do
    let x ← base.value
    let y ← exponent.value
    return x.pow y
  | call function argument =>
    match function? function with
    | none => .error (.unknownFunction function)
    | some f => do
      let x ← argument.value
      return f x

/-- The value of the expression that a text writes. -/
def valueOf (text : String) : Except EvalError Float :=
  match read text with
  | .error cause => .error (.syntaxError cause)
  | .ok expr => expr.value

/-- The value of a text, if it has one. -/
def valueOf? (text : String) : Option Float :=
  (valueOf text).toOption

/-- The value of a text, or zero if it has none. -/
def valueOrZero (text : String) : Float :=
  (valueOf? text).getD 0.0

end Expr
end QubitSphere
