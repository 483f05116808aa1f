/-
# The lines of a TOML document

A document is headers and keys with values, one to a line, with comments and blank lines between.
A value may run over several lines only inside brackets and tripled quotes.

Arrays and tables in braces nest less than `nestingLimit` deep, and a key has fewer than
`nestingLimit` names.  The readers that call each other are bounded by `fuel`; each character
takes at most two units of it, so `lines?` gives enough.
-/

import QubitSphere.Toml.Scalar
import QubitSphere.Toml.Section

namespace QubitSphere
namespace Toml

/-- What a line says. -/
inductive Line where
  | table (path : Path)
  | tableInArray (path : Path)
  | assignment (path : Path) (value : Value)

/-- The least depth of brackets and braces, and the least number of names in a key, that is too
much. -/
def nestingLimit : Nat := 80

/-- Passes over spaces and tabs. -/
def skipBlanks (cs : List Char) : List Char :=
  cs.dropWhile (fun c => c == ' ' || c == '\t')

/-- Passes over blanks, line breaks and comments, as they may stand between the items of an
array. -/
def skipLines (inComment : Bool) : List Char → List Char
  | '\r' :: '\n' :: rest => skipLines false rest
  | c :: rest =>
    if c == '\n' then skipLines false rest
    else if inComment then if isPlain c then skipLines true rest else c :: rest
    else if c == ' ' || c == '\t' then skipLines false rest
    else if c == '#' then skipLines true rest
    else c :: rest
  | [] => []

/-- Passes over the rest of a line, which may hold a comment. -/
def endLine? (cs : List Char) : Option (List Char) :=
  let cs := skipBlanks cs
  let cs := if cs.head? == some '#' then cs.dropWhile isPlain else cs
  match cs with
  | [] => some []
  | '\n' :: rest => some rest
  | '\r' :: '\n' :: rest => some rest
  | _ => none

/-- Whether a character may stand in a name without quotes. -/
def isBare (c : Char) : Bool :=
  c.isAlphanum || c == '-' || c == '_'

/-- Takes one name off the front. -/
def takeName? (cs : List Char) : Option (String × List Char) :=
  match cs with
  | [] => none
  | c :: rest =>
    if c == doubleQuote then
      (doubleQuoted rest).map fun (text, rest) => (String.ofList text, rest)
    else if c == singleQuote then
      (singleQuoted rest).map fun (text, rest) => (String.ofList text, rest)
    else if isBare c then some (String.ofList (cs.takeWhile isBare), cs.dropWhile isBare)
    else none

/-- Takes names with dots between them off the front. -/
def takeNames? : Nat → List Char → Option (List String × List Char)
  | 0, _ => none
  | fuel + 1, cs => do
    let (name, rest) ← takeName? (skipBlanks cs)
    match skipBlanks rest with
    | '.' :: rest =>
      let (names, rest) ← takeNames? fuel rest
      return (name :: names, rest)
    | rest => return ([name], rest)

/-- Takes a key off the front. -/
def takePath? (cs : List Char) : Option (Path × List Char) := do
  let (names, rest) ← takeNames? (nestingLimit - 1) cs
  return (⟨names.dropLast, ← names.getLast?⟩, rest)

mutual

/-- Takes a value off the front, with at most `levels` more brackets and braces in it. -/
def takeValue? : Nat → Nat → List Char → Option (Value × List Char)
  | 0, _, _ => none
  | fuel + 1, levels, cs =>
    match levels, cs with
    | 0, '[' :: _ => none
    | 0, '\x7b' :: _ => none
    | levels + 1, '[' :: rest => do
      let (items, rest) ← takeItems? fuel levels (skipLines false rest)
      return (.array items, rest)
    | levels + 1, '\x7b' :: rest => do
      let (pairs, rest) ← match skipBlanks rest with
        | '\x7d' :: rest => some ([], rest)
        | rest => takePairs? fuel levels rest
      return (← Section.ofPairs? pairs, rest)
    | _, cs => takeScalar? cs

/-- Takes the items of an array and its closing bracket off the front. -/
def takeItems? : Nat → Nat → List Char → Option (List Value × List Char)
  | 0, _, _ => none
  | fuel + 1, levels, cs =>
    match cs with
    | ']' :: rest => some ([], rest)
    | cs => do
      let (item, rest) ← takeValue? fuel levels cs
      match skipLines false rest with
      | ']' :: rest => return ([item], rest)
      | ',' :: rest =>
        let (items, rest) ← takeItems? fuel levels (skipLines false rest)
        return (item :: items, rest)
      | _ => none

/-- Takes the keys and values of a table in braces and its closing brace off the front. -/
def takePairs? : Nat → Nat → List Char → Option (List (Path × Value) × List Char)
  | 0, _, _ => none
  | fuel + 1, levels, cs => do
    let (path, rest) ← takePath? cs
    let rest ← takeChar? '=' rest
    let (value, rest) ← takeValue? fuel levels (skipBlanks rest)
    match skipBlanks rest with
    | '\x7d' :: rest => return ([(path, value)], rest)
    | ',' :: rest =>
      let (pairs, rest) ← takePairs? fuel levels rest
      return ((path, value) :: pairs, rest)
    | _ => none

end

/-- Reads lines up to the end of the text. -/
def takeLines? (fuel : Nat) : Nat → List Char → Option (List Line)
  | 0, _ => none
  | count + 1, cs =>
    match skipBlanks cs with
    | [] => some []
    | '[' :: '[' :: rest => do
      let (path, rest) ← takePath? rest
      let rest ← endLine? (← takeChar? ']' (← takeChar? ']' rest))
      return .tableInArray path :: (← takeLines? fuel count rest)
    | '[' :: rest => do
      let (path, rest) ← takePath? rest
      let rest ← endLine? (← takeChar? ']' rest)
      return .table path :: (← takeLines? fuel count rest)
    | cs =>
      match endLine? cs with
      | some rest => takeLines? fuel count rest
      | none => do
        let (path, rest) ← takePath? cs
        let rest ← takeChar? '=' rest
        let (value, rest) ← takeValue? fuel (nestingLimit - 1) (skipBlanks rest)
        let rest ← endLine? rest
        return .assignment path value :: (← takeLines? fuel count rest)

/-- The lines of a document.  A byte order mark in front is passed over. -/
def lines? (text : String) : Option (List Line) :=
  let cs := text.toList
  let cs := if cs.head? == some '\uFEFF' then cs.drop 1 else cs
  takeLines? (2 * cs.length + 2) (cs.length + 1) cs

/-- Follows the lines of a document below the last header. -/
def assemble : List String → Section → List Line → Option Section
  | _, content, [] => some content
  | header, content, .assignment path value :: rest => do
    assemble header (← content.assignUnder header path value) rest
  | _, content, .table path :: rest => do
    assemble (path.parents ++ [path.last]) (← content.openTable path) rest
  | _, content, .tableInArray path :: rest => do
    assemble (path.parents ++ [path.last]) (← content.openInArray path) rest

/-- The fields of the document that a text writes. -/
def read? (text : String) : Option Fields := do
  let content ← assemble [] (Section.empty .header) (← lines? text)
  return content.fields

end Toml
end QubitSphere
