/-
# Tokens of the expression language

A text is cut into numbers, names, parentheses, commas and the four operator signs, from the left
and each token as long as it can be:

| token | first character | goes on with |
| --- | --- | --- |
| number | an ASCII digit or a point | ASCII digits, and a point if it has none yet |
| name | an alphabetic character or `_` | alphabetic or numeric characters, `_` and points |
| sign | one of `( ) , + - * /` | nothing |

A point belongs to names so that `Double.pi` is one name.  Every other character separates tokens
and is dropped, so `2 ^ 3` has the tokens of `2 3`.
-/

import QubitSphere.Text.Alphabetic
import QubitSphere.Text.Numeric

namespace QubitSphere

/-- A token; numbers and names keep their text as written. -/
inductive Token where
  | number (text : String)
  | name (text : String)
  | openParen
  | closeParen
  | comma
  | plus
  | minus
  | star
  | slash
deriving DecidableEq

namespace Token

/-- The token that a sign stands for. -/
def ofSign? : Char → Option Token
  | '(' => some openParen
  | ')' => some closeParen
  | ',' => some comma
  | '+' => some plus
  | '-' => some minus
  | '*' => some star
  | '/' => some slash
  | _ => none

/-- A number begins with an ASCII digit or with its point. -/
def startsNumber (c : Char) : Bool :=
  c.isDigit || c == '.'

/-- A name begins with an alphabetic character or an underscore. -/
def startsName (c : Char) : Bool :=
  Text.isAlphabetic c || c == '_'

/-- A name goes on with alphabetic and numeric characters, underscores and points. -/
def continuesName (c : Char) : Bool :=
  Text.isAlphabetic c || Text.isNumeric c || c == '_' || c == '.'

/-- A name goes on with every character that it can begin with. -/
theorem continuesName_of_startsName {c : Char} (h : startsName c = true) :
    continuesName c = true := by
  simp only [startsName, Bool.or_eq_true] at h
  rcases h with h | h <;> simp [continuesName, h]

/-- Cuts off what a number still takes: digits, and one point unless `pointSeen`. -/
def numberTail (pointSeen : Bool) : List Char → List Char × List Char
  | [] => ([], [])
  | c :: cs =>
    if c.isDigit then
      let tail := numberTail pointSeen cs
      (c :: tail.1, tail.2)
    else if c == '.' && !pointSeen then
      let tail := numberTail true cs
      (c :: tail.1, tail.2)
    else
      ([], c :: cs)

/-- Nothing is lost between a number and what follows it. -/
theorem numberTail_append (pointSeen : Bool) (cs : List Char) :
    (numberTail pointSeen cs).1 ++ (numberTail pointSeen cs).2 = cs := by
  induction cs generalizing pointSeen with
  | nil => rfl
  | cons c cs ih =>
    simp only [numberTail]
    split
    · simp [ih]
    · split
      · simp [ih]
      · rfl

/-- What is left behind a number is no longer than what it was taken from, so `scan` ends. -/
theorem length_numberTail_le (pointSeen : Bool) (cs : List Char) :
    (numberTail pointSeen cs).2.length ≤ cs.length := by
  have h := congrArg List.length (numberTail_append pointSeen cs)
  rw [List.length_append] at h
  omega

/-- The tokens of a text, from left to right. -/
def scan : List Char → List Token
  | [] => []
  | c :: cs =>
    if startsNumber c then
      number (String.ofList (c :: (numberTail (c == '.') cs).1)) ::
        scan (numberTail (c == '.') cs).2
    else if startsName c then
      name (String.ofList (c :: cs.takeWhile continuesName)) :: scan (cs.dropWhile continuesName)
    else
      match ofSign? c with
      | some sign => sign :: scan cs
      | none => scan cs
termination_by cs => cs.length
decreasing_by
  · exact Nat.lt_succ_of_le (length_numberTail_le _ _)
  · exact Nat.lt_succ_of_le (List.dropWhile_sublist _).length_le
  · exact Nat.lt_succ_self _
  · exact Nat.lt_succ_self _

/-- How messages name a token. -/
def describe : Token → String
  | number text => "number `" ++ text ++ "`"
  | name text => "identifier `" ++ text ++ "`"
  | openParen => "`(`"
  | closeParen => "`)`"
  | comma => "`,`"
  | plus => "`+`"
  | minus => "`-`"
  | star => "`*`"
  | slash => "`/`"

/-- How messages name what stands at some place: a token, or the end of the text. -/
def describeFound : Option Token → String
  | some token => token.describe
  | none => "end of input"

end Token
end QubitSphere
