/-
# TOML values
-/

namespace QubitSphere
namespace Toml

/-- A TOML value.  The fields of a table keep the order they were given in; a date or time is kept
as its text. -/
inductive Value where
  | string (text : String)
  | integer (n : Int)
  | float (x : Float)
  | boolean (b : Bool)
  | moment (text : String)
  | array (items : List Value)
  | table (fields : List (String × Value))

/-- The fields of a table. -/
abbrev Fields := List (String × Value)

/-- Whether a value is a table. -/
def Value.isTable : Value → Bool
  | table _ => true
  | _ => false

/-- Whether a value has lines of its own under a header: a table, or an array of tables. -/
def Value.isSection : Value → Bool
  | table _ => true
  | array items => !items.isEmpty && items.all isTable
  | _ => false

end Toml
end QubitSphere
