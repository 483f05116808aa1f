/-
# Numbers, truth values, dates and times

Each reader takes one value off the front of a text.  An integer has 64 bits; it is decimal with an
optional sign and no leading zero, or has one of the marks `0x`, `0o` and `0b`.  Underscores may
stand between digits.  A float has a fraction, an exponent or both.
-/

import QubitSphere.Binary64.Hypot
import QubitSphere.Toml.Quoted
import QubitSphere.Toml.Value

namespace QubitSphere
namespace Toml

/-- Cuts off digits, single underscores between them left out. -/
def digitRun (isDigit : Char → Bool) : List Char → List Char × List Char
  | '_' :: c :: rest =>
    if isDigit c then
      let run := digitRun isDigit rest
      (c :: run.1, run.2)
    else ([], '_' :: c :: rest)
  | c :: rest =>
    if isDigit c then
      let run := digitRun isDigit rest
      (c :: run.1, run.2)
    else ([], c :: rest)
  | [] => ([], [])

/-- Cuts off at least one digit. -/
def digits? (isDigit : Char → Bool) (cs : List Char) : Cut :=
  match cs with
  | c :: _ => if isDigit c then some (digitRun isDigit cs) else none
  | [] => none

/-- Whether a character is a digit in some base up to sixteen. -/
def isDigitIn (base : Nat) (c : Char) : Bool :=
  match hexDigit? c with
  | some n => n < base
  | none => false

/-- The number that digits write in a base. -/
def ofDigits (base : Nat) (digits : List Char) : Nat :=
  digits.foldl (fun n c => base * n + (hexDigit? c).getD 0) 0

/-- An integer, if it fits into 64 bits. -/
def integer? (n : Int) : Option Value :=
  if -(Int.pow 2 63) ≤ n && n < Int.pow 2 63 then some (.integer n) else none

/-- Takes a sign off the front; `true` is a minus sign. -/
def takeSign : List Char → Bool × List Char
  | '-' :: rest => (true, rest)
  | '+' :: rest => (false, rest)
  | cs => (false, cs)

/-- Decimal digits without a leading zero. -/
def wholeDigits? (cs : List Char) : Cut := do
  let (digits, rest) ← digits? Char.isDigit cs
  if digits.head? == some '0' && digits.length != 1 then none else some (digits, rest)

/-- Reads an integer in one of the marked bases. -/
def markedInteger? (base : Nat) (cs : List Char) : Option (Value × List Char) := do
  let (digits, rest) ← digits? (isDigitIn base) cs
  return (← integer? (ofDigits base digits), rest)

/-- Reads an integer. -/
def takeInteger? : List Char → Option (Value × List Char)
  | '0' :: 'x' :: rest => markedInteger? 16 rest
  | '0' :: 'o' :: rest => markedInteger? 8 rest
  | '0' :: 'b' :: rest => markedInteger? 2 rest
  | cs => do
    let (negative, cs) := takeSign cs
    let (digits, rest) ← wholeDigits? cs
    let n : Int := ofDigits 10 digits
    return (← integer? (if negative then -n else n), rest)

/-- The double nearest to `digits · 10 ^ exponent`; exponents beyond all doubles are not worked
out. -/
def decimalFloat (digits : Nat) (exponent : Int) : Float :=
  let length : Int := (Nat.toDigits 10 digits).length
  if digits = 0 || length + exponent < -400 then 0.0
  else if 400 < length + exponent then Binary64.infinity
  else Binary64.ofRatio (digits * Nat.pow 10 exponent.toNat) (Nat.pow 10 (-exponent).toNat)

/-- Takes a point and the digits after it off the front; nothing if there is no point. -/
def takeFraction? : List Char → Cut
  | '.' :: rest => digits? Char.isDigit rest
  | cs => some ([], cs)

/-- Takes an exponent off the front, if there is one. -/
def takeExponent? : List Char → Option (Option Int × List Char)
  | c :: rest =>
    if c == 'e' || c == 'E' then do
      let (negative, rest) := takeSign rest
      let (digits, rest) ← digits? Char.isDigit rest
      let n : Int := ofDigits 10 digits
      return (some (if negative then -n else n), rest)
    else some (none, c :: rest)
  | [] => some (none, [])

/-- Reads a float, which is too large if it rounds to positive infinity. -/
def takeFloat? (cs : List Char) : Option (Value × List Char) := do
  let (negative, cs) := takeSign cs
  match cs with
  | 'i' :: 'n' :: 'f' :: rest =>
    return (.float (if negative then -Binary64.infinity else Binary64.infinity), rest)
  | 'n' :: 'a' :: 'n' :: rest => return (.float Binary64.notANumber, rest)
  | _ =>
    let (whole, rest) ← wholeDigits? cs
    let (fraction, rest) ← takeFraction? rest
    let (exponent, rest) ← takeExponent? rest
    if fraction.isEmpty && exponent.isNone then none
    let size := decimalFloat (ofDigits 10 (whole ++ fraction))
      (exponent.getD 0 - fraction.length)
    if negative then return (.float (-size), rest)
    else if size == Binary64.infinity then none
    else return (.float size, rest)

/-- Takes a number of exactly `width` digits within `[least, most]` off the front. -/
def takeField? (width least most : Nat) (cs : List Char) : Option (Nat × List Char) :=
  let digits := cs.take width
  let n := ofDigits 10 digits
  if digits.length == width && digits.all Char.isDigit && least ≤ n && n ≤ most then
    some (n, cs.drop width)
  else none

/-- Takes one given character off the front. -/
def takeChar? (expected : Char) : List Char → Option (List Char)
  | c :: rest => if c == expected then some rest else none
  | [] => none

/-- The number of days of a month. -/
def daysIn (year month : Nat) : Nat :=
  if month = 2 then
    if year % 4 = 0 && (year % 100 != 0 || year % 400 = 0) then 29 else 28
  else if month = 4 || month = 6 || month = 9 || month = 11 then 30
  else 31

/-- Passes over a date. -/
def passDate? (cs : List Char) : Option (List Char) := do
  let (year, cs) ← takeField? 4 0 9999 cs
  let cs ← takeChar? '-' cs
  let (month, cs) ← takeField? 2 1 12 cs
  let cs ← takeChar? '-' cs
  let (_, cs) ← takeField? 2 1 (daysIn year month) cs
  return cs

/-- Passes over a time of the day; its seconds may have a fraction. -/
def passTime? (cs : List Char) : Option (List Char) := do
  let (_, cs) ← takeField? 2 0 23 cs
  let cs ← takeChar? ':' cs
  let (_, cs) ← takeField? 2 0 59 cs
  let cs ← takeChar? ':' cs
  let (_, cs) ← takeField? 2 0 60 cs
  match cs with
  | '.' :: c :: rest => return if c.isDigit then rest.dropWhile Char.isDigit else cs
  | _ => return cs

/-- Passes over an offset from universal time. -/
def passOffset? : List Char → Option (List Char)
  | c :: rest =>
    if c == 'Z' || c == 'z' then some rest
    else if c == '+' || c == '-' then do
      let (_, cs) ← takeField? 2 0 23 rest
      let cs ← takeChar? ':' cs
      let (_, cs) ← takeField? 2 0 59 cs
      return cs
    else none
  | [] => none

/-- Passes over a time with an optional offset behind a date, if there is one. -/
def passTimeOfDate : List Char → List Char
  | c :: rest =>
    if c == 'T' || c == 't' || c == ' ' then
      match passTime? rest with
      | some cs => (passOffset? cs).getD cs
      | none => c :: rest
    else c :: rest
  | [] => []

/-- Reads a date, a time, or both. -/
def takeMoment? (cs : List Char) : Option (Value × List Char) := do
  let rest ← match passDate? cs with
    | some rest => some (passTimeOfDate rest)
    | none => passTime? cs
  return (.moment (String.ofList (cs.take (cs.length - rest.length))), rest)

/-- Reads a value that is no array and no table. -/
def takeScalar? (cs : List Char) : Option (Value × List Char) :=
  match cs with
  | 't' :: 'r' :: 'u' :: 'e' :: rest => some (.boolean true, rest)
  | 'f' :: 'a' :: 'l' :: 's' :: 'e' :: rest => some (.boolean false, rest)
  | c :: _ =>
    if c == doubleQuote || c == singleQuote then
      (quoted cs).map fun (text, rest) => (.string (String.ofList text), rest)
    else takeMoment? cs <|> takeFloat? cs <|> takeInteger? cs
  | [] => none

end Toml
end QubitSphere
