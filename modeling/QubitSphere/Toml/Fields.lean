/-
# Taking TOML values apart

How a record is read from a value.  A record is a table, whose fields the reader looks up by name;
fields that no record knows are passed over.  It may also be an array, which holds the fields in
their fixed order.  A choice among words is a text or a table with one empty field.
-/

import QubitSphere.Toml.Value

namespace QubitSphere
namespace Toml

/-- A text. -/
def Value.text? : Value → Option String
  | string text => some text
  | _ => none

/-- A word that stands for one of several choices: a text, or the name of the one field of a table
which holds nothing, that is an empty table or an empty array. -/
def Value.choice? : Value → Option String
  | string name => some name
  | table [(name, table [])] | table [(name, array [])] => some name
  | _ => none

/-- An array, each item read in the same way. -/
def Value.listOf? {α : Type} (read : Value → Option α) : Value → Option (List α)
  | array items => items.mapM read
  | _ => none

/-- The fields of a record whose fields have the given names in order.  A date or time is taken
for a record too, without any field that has a name. -/
def Value.fields? (names : List String) : Value → Option Fields
  | table fields => some fields
  | array items => some (names.zip items)
  | moment _ => some []
  | _ => none

/-- A field that may be missing, and then has a default. -/
def optional {α : Type} (fields : Fields) (name : String) (default : α)
    (read : Value → Option α) : Option α :=
  match fields.lookup name with
  | some value => read value
  | none => some default

/-- A field that has to be there. -/
def required {α : Type} (fields : Fields) (name : String) (read : Value → Option α) :
    Option α :=
  (fields.lookup name).bind read

end Toml
end QubitSphere
