/-
# Expressions as LaTeX

Parentheses are put back only where the place of a phrase asks for them: around a sum inside a
product, a power or a negation, and around a product inside a power.

| expression | LaTeX |
| --- | --- |
| `2.0`, `.0` | `2`, `0` |
| `pi`, `theta_1` | `\pi`, `theta\_1` |
| `a * b` | `a \cdot b` |
| `a / b` | `\frac{a}{b}` |
| `pow(a / b, 2)` | `{\frac{a}{b}}^{2}` |
| `sqrt(x)`, `sin(x)`, `log(x)` | `\sqrt{x}`, `\sin{x}`, `\ln{x}` |
| `exp(1)`, `exp(x)` | `e`, `e^{x}` |
| `f(x)` | `\mathrm{f}\left(x\right)` |
-/

import QubitSphere.Expr.Value

namespace QubitSphere
namespace Latex

/-- What an expression stands directly beneath. -/
inductive Place where
  | atom
  | sum
  | product
  | power
  | unary
deriving DecidableEq

/-- A text in braces. -/
def braced (text : String) : String :=
  "\x7b" ++ text ++ "\x7d"

/-- A text in parentheses that grow with it. -/
def parenthesized (text : String) : String :=
  "\\left(" ++ text ++ "\\right)"

/-- A name with a backslash before each underscore. -/
def escaped (name : String) : String :=
  String.ofList (name.toList.flatMap fun c => if c == '_' then ['\\', '_'] else [c])

/-- A name: `\pi` under each of its names, and otherwise as written. -/
def ofName (name : String) : String :=
  if isPiName name then "\\pi" else escaped name

/-- A number as written, less a final `.0`. -/
def ofLiteral (text : String) : String :=
  match text.toList.reverse with
  | '0' :: '.' :: whole => if whole.isEmpty then "0" else String.ofList whole.reverse
  | _ => text

/-- Sums and products have parentheses of their own in the places that need them. -/
def hasOwnParentheses : Expr → Place → Bool
  | .binary .add .. , place | .binary .sub .., place =>
    place == .product || place == .power || place == .unary
  | .binary .mul .., place => place == .power
  | _, _ => false

/-- A call of `function` on `argument`, whose LaTeX is `inner`. -/
def ofCall (function : String) (argument : Expr) (inner : String) : String :=
  match function with
  | "sqrt" => "\\sqrt" ++ braced inner
  | "sin" => "\\sin" ++ braced inner
  | "cos" => "\\cos" ++ braced inner
  | "tan" => "\\tan" ++ braced inner
  | "log" | "ln" => "\\ln" ++ braced inner
  | "exp" =>
    match argument with
    | .number literal => if literal.isOne then "e" else "e^" ++ braced inner
    | _ => "e^" ++ braced inner
  | _ => "\\mathrm" ++ braced (escaped function) ++ parenthesized inner

/-- The LaTeX of an expression that stands beneath `place`. -/
def render : Expr → Place → String
  | .number literal, _ => ofLiteral literal.text
  | .name name, _ => ofName name
  | .negate operand, _ =>
    let inner := render operand .unary
    if operand.isAtomic || hasOwnParentheses operand .unary then "-" ++ inner
    else "-" ++ parenthesized inner
  | .binary .add left right, place =>
    let text := render left .sum ++ " + " ++ render right .sum
    if hasOwnParentheses (.binary .add left right) place then parenthesized text else text
  | .binary .sub left right, place =>
    let text := render left .sum ++ " - " ++ render right .sum
    if hasOwnParentheses (.binary .sub left right) place then parenthesized text else text
  | .binary .mul left right, place =>
    let text := render left .product ++ " \\cdot " ++ render right .product
    if hasOwnParentheses (.binary .mul left right) place then parenthesized text else text
  | .binary .div left right, _ =>
    "\\frac" ++ braced (render left .atom) ++ braced (render right .atom)
  | .pow base exponent, _ =>
    let inner := render base .power
    let lower := if base.isAtomic || hasOwnParentheses base .power then inner else braced inner
    lower ++ "^" ++ braced (render exponent .power)
  | .call function argument, _ => ofCall function argument (render argument .atom)

end Latex

namespace Expr

/-- The LaTeX of an expression. -/
def latex (expr : Expr) : String :=
  Latex.render expr .atom

/-- The LaTeX of the expression that a text writes. -/
def latexOf (text : String) : Except SyntaxError String :=
  (read text).map latex

/-- The LaTeX of a text, empty if it writes no expression. -/
def latexOrEmpty (text : String) : String :=
  match latexOf text with
  | .ok formula => formula
  | .error _ => ""

end Expr
end QubitSphere
