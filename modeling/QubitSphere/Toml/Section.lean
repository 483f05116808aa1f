/-
# Tables under construction

The lines of a document put their values into tables step by step, and each table remembers how
it came to be:

| origin | made by |
| --- | --- |
| `header` | a line `[path]` or `[[path]]`, or the document or braces themselves |
| `implied` | the way to a longer header |
| `dotted` | the way along a key with dots |

A header may not name a table that a header or a dotted key has made, but may take over an implied
one.  A dotted key may not put values into a table that has a header, nor into an implied one.  No
key may be given twice.
-/

import QubitSphere.Toml.Value

namespace QubitSphere
namespace Toml

/-- A key with dots: the tables on the way, and the name at its end. -/
structure Path where
  parents : List String
  last : String

/-- How a table came to be. -/
inductive Origin where
  | header
  | implied
  | dotted
deriving DecidableEq

mutual

/-- What stands under one name: a value, a table, or an array of tables that may still grow,
latest first. -/
inductive Item where
  | value (value : Value)
  | table (content : Section)
  | tables (latest : Section) (earlier : List Section)

/-- A table under construction, its items in order. -/
inductive Section where
  | made (origin : Origin) (items : List (String × Item))

end

namespace Section

/-- How a table came to be. -/
def origin : Section → Origin
  | made origin _ => origin

/-- The items of a table. -/
def items : Section → List (String × Item)
  | made _ items => items

/-- A table without items. -/
def empty (origin : Origin) : Section :=
  made origin []

/-- Puts an item under a name, in place of one that is there. -/
def put (content : Section) (name : String) (item : Item) : Section :=
  if content.items.any (·.1 == name) then
    made content.origin (content.items.map fun old => if old.1 == name then (name, item) else old)
  else
    made content.origin (content.items ++ [(name, item)])

/-- Changes the table at the end of a way, making tables of the given origin where there are
none.  A way along dots may not pass a table that has a header. -/
def alter (making : Origin) (change : Section → Option Section) :
    List String → Section → Option Section
  | [], content => change content
  | name :: names, content => do
    match content.items.lookup name with
    | none =>
      return content.put name (.table (← alter making change names (empty making)))
    | some (.table inner) =>
      if making = .dotted ∧ inner.origin = .header then none
      else return content.put name (.table (← alter making change names inner))
    | some (.tables latest earlier) =>
      return content.put name (.tables (← alter making change names latest) earlier)
    | some (.value _) => none

/-- Gives a value to a key. -/
def assign (path : Path) (value : Value) : Section → Option Section :=
  alter .dotted (fun content =>
    if (content.origin == .dotted) == path.parents.isEmpty then none
    else if (content.items.lookup path.last).isSome then none
    else some (content.put path.last (.value value))) path.parents

/-- Opens the table of a header `[path]`. -/
def openTable (path : Path) : Section → Option Section :=
  alter .implied (fun content =>
    match content.items.lookup path.last with
    | none => some (content.put path.last (.table (empty .header)))
    | some (.table inner) =>
      if inner.origin = .implied then
        some (content.put path.last (.table (made .header inner.items)))
      else none
    | some _ => none) path.parents

/-- Opens one more table of a header `[[path]]`. -/
def openInArray (path : Path) : Section → Option Section :=
  alter .implied (fun content =>
    match content.items.lookup path.last with
    | none => some (content.put path.last (.tables (empty .header) []))
    | some (.tables latest earlier) =>
      some (content.put path.last (.tables (empty .header) (latest :: earlier)))
    | some _ => none) path.parents

/-- Gives a value to a key in the table that the header `path` has opened. -/
def assignUnder (header : List String) (path : Path) (value : Value) :
    Section → Option Section :=
  alter .implied (assign path value) header

mutual

/-- The finished fields of a table. -/
def fields : Section → Fields
  | made _ items => fieldsOf items

/-- The finished fields of items. -/
def fieldsOf : List (String × Item) → Fields
  | [] => []
  | (name, item) :: items => (name, valueOf item) :: fieldsOf items

/-- The finished value of an item. -/
def valueOf : Item → Value
  | .value value => value
  | .table content => .table (fields content)
  | .tables latest earlier => .array ((.table (fields latest) :: tablesOf earlier).reverse)

/-- The finished tables of an array. -/
def tablesOf : List Section → List Value
  | [] => []
  | content :: rest => .table (fields content) :: tablesOf rest

end

/-- The table that keys in braces make up. -/
def ofPairs? (pairs : List (Path × Value)) : Option Value := do
  let content ← pairs.foldlM (fun content pair => assign pair.1 pair.2 content) (empty .header)
  return .table content.fields

end Section
end Toml
end QubitSphere
