/-
# Reading expressions

The grammar, over tokens:

| phrase | is |
| --- | --- |
| sum | products joined by `+` and `-`, grouped to the left |
| product | powers joined by `*` and `/`, grouped to the left |
| power | `pow ( sum , sum )`, or else a unary |
| unary | `-` before a unary, or a primary |
| primary | a number, a name, a name before a group, or a group |
| group | `( sum )` |

The name `pow` before a parenthesis takes two arguments where a power may stand.  Below a minus
sign only a unary may stand, so there it calls a function of one argument like any other name.

Parentheses, calls, powers and minus signs each open one level, and a limit on the levels open at
once is a parameter of every reader; `none` is no limit.  Each reader leaves strictly fewer tokens
than it was given, and says so in its type: that is why reading ends.
-/

import QubitSphere.Expr.Basic
import QubitSphere.Expr.SyntaxError

namespace QubitSphere
namespace Expr

/-- Most levels of parentheses, calls, powers and minus signs that may be open at once. -/
def maxDepth : Nat := 256

/-- What is left to read: fewer than `n` tokens. -/
abbrev Left (n : Nat) := { rest : List Token // rest.length < n }

/-- An expression with what is left after it, or the reason why none was read. -/
abbrev Reading (n : Nat) := Except SyntaxError (Expr × Left n)

/-- Takes the token `expected` off `tokens`. -/
def expect (expected : Token) (tokens : List Token) : Except SyntaxError (Left tokens.length) :=
  match tokens with
  | [] => .error (.unexpected expected none)
  | token :: rest =>
    if token = expected then .ok ⟨rest, Nat.lt_succ_self _⟩
    else .error (.unexpected expected (some token))

/-- Opens one more level, with `depth` levels open already. -/
def enter (limit : Option Nat) (depth : Nat) : Except SyntaxError Unit :=
  match limit with
  | none => .ok ()
  | some most => if depth < most then .ok () else .error (.tooDeep most)

/-- The two levels of left-grouped chains. -/
inductive Rank where
  | sum
  | product
deriving DecidableEq

/-- The operation that a sign stands for in a chain of the given rank. -/
def Rank.operation? : Rank → Token → Option Operation
  | .sum, .plus => some .add
  | .sum, .minus => some .sub
  | .product, .star => some .mul
  | .product, .slash => some .div
  | _, _ => none

/-- Orders the readers that call each other before a token is taken: sums above products, and
products above the readers of single operands. -/
def Rank.stage : Rank → Nat
  | .sum => 5
  | .product => 3

mutual

/-- Reads a sum or a product: one operand and then the rest of the chain. -/
def readChain (limit : Option Nat) (depth : Nat) (rank : Rank) (tokens : List Token) :
    Reading tokens.length := do
  let (first, ⟨rest, fewer⟩) ← readOperand limit depth rank tokens
  readChainTail limit depth rank first rest fewer
termination_by (tokens.length, rank.stage + 1)

/-- Reads signs and operands as long as they come, grouping them to the left onto `first`. -/
def readChainTail (limit : Option Nat) (depth : Nat) (rank : Rank) (first : Expr)
    (tokens : List Token) {n : Nat} (fewer : tokens.length < n) : Reading n :=
  match tokens with
  | [] => .ok (first, ⟨[], fewer⟩)
  | token :: rest =>
    match rank.operation? token with
    | none => .ok (first, ⟨token :: rest, fewer⟩)
    | some operation => do
      let (next, ⟨rest', _⟩) ← readOperand limit depth rank rest
      readChainTail limit depth rank (.binary operation first next) rest'
        (by rw [List.length_cons] at fewer; omega)
termination_by (tokens.length, 0)

/-- Reads what a chain joins: products in a sum, powers in a product. -/
def readOperand (limit : Option Nat) (depth : Nat) (rank : Rank) (tokens : List Token) :
    Reading tokens.length :=
  match rank with
  | .sum => readChain limit depth .product tokens
  | .product => readPower limit depth tokens
termination_by (tokens.length, rank.stage)
decreasing_by
  · exact Prod.Lex.right _ (by decide)
  · exact Prod.Lex.right _ (by decide)

/-- Reads a two-argument power, or else a unary. -/
def readPower (limit : Option Nat) (depth : Nat) (tokens : List Token) : Reading tokens.length :=
  match tokens with
  | .name text :: .openParen :: rest =>
    if text = "pow" then do
      enter limit depth
      let (base, ⟨rest₁, _⟩) ← readChain limit (depth + 1) .sum rest
      let ⟨rest₂, _⟩ ← expect .comma rest₁
      let (exponent, ⟨rest₃, _⟩) ← readChain limit (depth + 1) .sum rest₂
      let ⟨rest₄, _⟩ ← expect .closeParen rest₃
      return (.pow base exponent, ⟨rest₄, by simp only [List.length_cons]; omega⟩)
    else readUnary limit depth (.name text :: .openParen :: rest)
  | tokens => readUnary limit depth tokens
termination_by (tokens.length, 2)

/-- Reads minus signs and the primary behind them. -/
def readUnary (limit : Option Nat) (depth : Nat) (tokens : List Token) : Reading tokens.length :=
  match tokens with
  | .minus :: rest => do
    enter limit depth
    let (operand, ⟨rest', _⟩) ← readUnary limit (depth + 1) rest
    return (.negate operand, ⟨rest', by rw [List.length_cons]; omega⟩)
  | tokens => readPrimary limit depth tokens
termination_by (tokens.length, 1)

/-- Reads a number, a name, a call or a group. -/
def readPrimary (limit : Option Nat) (depth : Nat) (tokens : List Token) :
    Reading tokens.length :=
  match tokens with
  | [] => .error .endedEarly
  | .number text :: rest =>
    match Literal.ofText? text with
    | some literal => .ok (.number literal, ⟨rest, Nat.lt_succ_self _⟩)
    | none => .error (.malformedNumber text)
  | .name text :: .openParen :: rest => do
    enter limit depth
    let (argument, ⟨rest', _⟩) ← readGroup limit (depth + 1) rest
    return (.call text argument, ⟨rest', by simp only [List.length_cons]; omega⟩)
  | .name text :: rest => .ok (.name text, ⟨rest, Nat.lt_succ_self _⟩)
  | .openParen :: rest => do
    enter limit depth
    let (inner, ⟨rest', _⟩) ← readGroup limit (depth + 1) rest
    return (inner, ⟨rest', by rw [List.length_cons]; omega⟩)
  | token :: _ => .error (.noOperand token)
termination_by (tokens.length, 0)

/-- Reads what follows an opening parenthesis: a sum and the closing parenthesis. -/
def readGroup (limit : Option Nat) (depth : Nat) (tokens : List Token) :
    Reading tokens.length := do
  let (inner, ⟨rest, _⟩) ← readChain limit depth .sum tokens
  let ⟨rest', _⟩ ← expect .closeParen rest
  return (inner, ⟨rest', by omega⟩)
termination_by (tokens.length, 7)
decreasing_by exact Prod.Lex.right _ (by decide)

end

/-- The expression that all of `tokens` make up, within a limit on the levels open at once. -/
def ofTokens (limit : Option Nat) (tokens : List Token) : Except SyntaxError Expr := do
  let (expr, ⟨rest, _⟩) ← readChain limit 0 .sum tokens
  match rest with
  | [] => return expr
  | token :: _ => throw (.trailing token)

/-- The expression that a text writes. -/
def read (text : String) : Except SyntaxError Expr :=
  ofTokens (some maxDepth) (Token.scan text.toList)

end Expr
end QubitSphere
