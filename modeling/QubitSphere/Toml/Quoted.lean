/-
# Text in quotes

TOML has four ways to quote a text: double quotes, where a backslash escapes, single quotes, where
nothing does, and both tripled, where the text may have line breaks.

`quote` writes a text in the first of these forms that needs no escape:

| form | used when the text has none of |
| --- | --- |
| `"…"` | control character, backslash, double quote, line break |
| `'…'` | control character, single quote, line break |
| `"""…"""` | control character, backslash, three double quotes in a row |
| `'''…'''` | control character, three single quotes in a row |

and otherwise in double quotes with escapes, tripled if there is a line break.  A tab counts as no
control character here, but double quotes escape it.

A tripled form drops a line break right after its opening, and a line break in it is a line feed
however it was written.
-/

namespace QubitSphere
namespace Toml

/-- The double quote. -/
def doubleQuote : Char := '\x22'

/-- The single quote. -/
def singleQuote : Char := '\x27'

/-- Whether a character is a control character other than tab and line feed. -/
def isControl (c : Char) : Bool :=
  c.toNat < 0x20 && c != '\t' && c != '\n' || c.toNat == 0x7f

/-- Whether a text has three of `quote` in a row. -/
def hasThree (quote : Char) : List Char → Bool
  | a :: b :: c :: rest =>
    (a == quote && b == quote && c == quote) || hasThree quote (b :: c :: rest)
  | _ => false

/-- How double quotes write a character other than the double quote itself. -/
def escapedChar (multiline : Bool) (c : Char) : List Char :=
  if c == '\x08' then ['\\', 'b']
  else if c == '\t' then ['\\', 't']
  else if c == '\n' then if multiline then ['\n'] else ['\\', 'n']
  else if c == '\x0c' then ['\\', 'f']
  else if c == '\r' then ['\\', 'r']
  else if c == '\\' then ['\\', '\\']
  else if isControl c then
    let digits := Nat.toDigits 16 c.toNat
    ['\\', 'u'] ++ List.replicate (4 - digits.length) '0' ++ digits.map Char.toUpper
  else [c]

/-- A text as it stands between double quotes.  Up to `spare` more double quotes in a row need no
backslash; single-line text allows none, tripled quotes two. -/
def escapedText (multiline : Bool) (spare : Nat) : List Char → List Char
  | [] => []
  | c :: rest =>
    let most := if multiline then 2 else 0
    if c == doubleQuote then
      match spare with
      | 0 => '\\' :: c :: escapedText multiline most rest
      | spare + 1 => c :: escapedText multiline spare rest
    else escapedChar multiline c ++ escapedText multiline most rest

/-- A text as a TOML string. -/
def quote (text : String) : String :=
  let cs := text.toList
  let control := cs.any isControl
  let backslash := cs.contains '\\'
  let lines := cs.contains '\n'
  let opening := if lines then ['\n'] else []
  let double := List.replicate 3 doubleQuote
  let single := List.replicate 3 singleQuote
  String.ofList <|
    if !control && !backslash && !cs.contains doubleQuote && !lines then
      [doubleQuote] ++ escapedText false 0 cs ++ [doubleQuote]
    else if !control && !cs.contains singleQuote && !lines then
      [singleQuote] ++ cs ++ [singleQuote]
    else if !control && !backslash && !hasThree doubleQuote cs then
      double ++ opening ++ escapedText true 2 cs ++ double
    else if !control && !hasThree singleQuote cs then
      single ++ opening ++ cs ++ single
    else if lines then
      double ++ opening ++ escapedText true 2 cs ++ double
    else
      [doubleQuote] ++ escapedText false 0 cs ++ [doubleQuote]

/-- Whether a character may stand for itself in a comment or a string: a tab, or anything that is
no control character. -/
def isPlain (c : Char) : Bool :=
  c == '\t' || 0x20 ≤ c.toNat && c.toNat != 0x7f

/-- What a backslash and one more character stand for. -/
def escapeOf? : Char → Option Char
  | 'b' => some '\x08'
  | 't' => some '\t'
  | 'n' => some '\n'
  | 'f' => some '\x0c'
  | 'r' => some '\r'
  | '\\' => some '\\'
  | c => if c == doubleQuote then some doubleQuote else none

/-- The value of a hexadecimal digit. -/
def hexDigit? (c : Char) : Option Nat :=
  if c.isDigit then some (c.toNat - '0'.toNat)
  else if 'a' ≤ c && c ≤ 'f' then some (c.toNat - 'a'.toNat + 10)
  else if 'A' ≤ c && c ≤ 'F' then some (c.toNat - 'A'.toNat + 10)
  else none

/-- The character with a code point in hexadecimal digits. -/
def codePoint? (digits : List Char) : Option Char := do
  let n ← digits.foldlM (fun n c => (hexDigit? c).map (16 * n + ·)) 0
  if h : n.isValidChar then some (Char.ofNatAux n h) else none

/-- A quoted text and what follows it. -/
abbrev Cut := Option (List Char × List Char)

/-- Puts a character in front of a quoted text. -/
def Cut.cons (c : Char) (cut : Cut) : Cut :=
  cut.map fun (text, rest) => (c :: text, rest)

/-- Reads the text after an opening double quote. -/
def doubleQuoted : List Char → Cut
  | '\\' :: 'u' :: a :: b :: c :: d :: rest => do
    Cut.cons (← codePoint? [a, b, c, d]) (doubleQuoted rest)
  | '\\' :: 'U' :: a :: b :: c :: d :: e :: f :: g :: h :: rest => do
    Cut.cons (← codePoint? [a, b, c, d, e, f, g, h]) (doubleQuoted rest)
  | '\\' :: c :: rest => do
    Cut.cons (← escapeOf? c) (doubleQuoted rest)
  | c :: rest =>
    if c == doubleQuote then some ([], rest)
    else if isPlain c && c != '\\' then Cut.cons c (doubleQuoted rest)
    else none
  | [] => none

/-- Reads the text after an opening single quote. -/
def singleQuoted : List Char → Cut
  | c :: rest =>
    if c == singleQuote then some ([], rest)
    else if isPlain c then Cut.cons c (singleQuoted rest)
    else none
  | [] => none

/-- Closes a tripled form, whose three quotes are read: up to two quotes more are text. -/
def closeTripled (quote : Char) : List Char → List Char × List Char
  | a :: b :: rest =>
    if a == quote && b == quote then ([a, b], rest)
    else if a == quote then ([a], b :: rest)
    else ([], a :: b :: rest)
  | [a] => if a == quote then ([a], []) else ([], [a])
  | [] => ([], [])

/-- Whether a list begins with three of `quote`. -/
def opensTripled (quote : Char) : List Char → Bool
  | a :: b :: c :: _ => a == quote && b == quote && c == quote
  | _ => false

/-- Whether only spaces and tabs stand before the next line break. -/
def endsLine (cs : List Char) : Bool :=
  match cs.dropWhile (fun c => c == ' ' || c == '\t') with
  | '\n' :: _ | '\r' :: '\n' :: _ => true
  | _ => false

/-- Reads the text after three opening double quotes.  A backslash at the end of a line takes away
all white space up to the next text, which is what `trimming` stands for. -/
def doubleTripled (trimming : Bool) : List Char → Cut
  | '\r' :: '\n' :: rest =>
    if trimming then doubleTripled true rest else Cut.cons '\n' (doubleTripled false rest)
  | '\\' :: 'u' :: a :: b :: c :: d :: rest => do
    Cut.cons (← codePoint? [a, b, c, d]) (doubleTripled false rest)
  | '\\' :: 'U' :: a :: b :: c :: d :: e :: f :: g :: h :: rest => do
    Cut.cons (← codePoint? [a, b, c, d, e, f, g, h]) (doubleTripled false rest)
  | '\\' :: c :: rest =>
    if endsLine (c :: rest) then doubleTripled true (c :: rest)
    else do Cut.cons (← escapeOf? c) (doubleTripled false rest)
  | c :: rest =>
    if opensTripled doubleQuote (c :: rest) then
      some (closeTripled doubleQuote (rest.drop 2))
    else if trimming && (c == ' ' || c == '\t' || c == '\n') then doubleTripled true rest
    else if c == '\n' || isPlain c && c != '\\' then Cut.cons c (doubleTripled false rest)
    else none
  | [] => none

/-- Reads the text after three opening single quotes. -/
def singleTripled : List Char → Cut
  | '\r' :: '\n' :: rest => Cut.cons '\n' (singleTripled rest)
  | c :: rest =>
    if opensTripled singleQuote (c :: rest) then
      some (closeTripled singleQuote (rest.drop 2))
    else if c == '\n' || isPlain c then Cut.cons c (singleTripled rest)
    else none
  | [] => none

/-- Leaves out one line break in front. -/
def dropLineBreak : List Char → List Char
  | '\n' :: rest => rest
  | '\r' :: '\n' :: rest => rest
  | cs => cs

/-- Reads a text in quotes of any form. -/
def quoted (cs : List Char) : Cut :=
  if opensTripled doubleQuote cs then doubleTripled false (dropLineBreak (cs.drop 3))
  else if opensTripled singleQuote cs then singleTripled (dropLineBreak (cs.drop 3))
  else
    match cs with
    | c :: rest =>
      if c == doubleQuote then doubleQuoted rest
      else if c == singleQuote then singleQuoted rest
      else none
    | [] => none

end Toml
end QubitSphere
