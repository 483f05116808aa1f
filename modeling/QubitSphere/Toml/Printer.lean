/-
# Writing TOML documents

Fields that take one line come first.  Then every table has a header and lines of its own, and so
has every table of a non-empty array of tables.  A header has a blank line before it unless it
begins the document.  Keys are written as they are, so they have to be names without quotes.
-/

import QubitSphere.Decimal.Plain
import QubitSphere.Toml.Quoted
import QubitSphere.Toml.Value

namespace QubitSphere
namespace Toml

/-- Floats have a point even when they are whole. -/
def floatStyle : Decimal.Style where
  whole := ".0"
  nan := "nan"

mutual

/-- A value on one line. -/
def inline : Value → String
  | .string text => quote text
  | .integer n => toString n
  | .float x => Decimal.text floatStyle x
  | .boolean b => if b then "true" else "false"
  | .moment text => text
  | .array items => "[" ++ ", ".intercalate (inlineAll items) ++ "]"
  | .table fields => "\x7b " ++ ", ".intercalate (inlinePairs fields) ++ " \x7d"

/-- Values, each on one line. -/
def inlineAll : List Value → List String
  | [] => []
  | item :: items => inline item :: inlineAll items

/-- Fields, each on one line. -/
def inlinePairs : Fields → List String
  | [] => []
  | (key, value) :: fields => (key ++ " = " ++ inline value) :: inlinePairs fields

end

/-- The lines of the fields that take one line each. -/
def fieldLines (fields : Fields) : List String :=
  inlinePairs (fields.filter fun field => !field.2.isSection)

mutual

/-- The lines of the fields that have headers; `path` is in front of their keys. -/
def sectionLines (path : String) : Fields → List String
  | [] => []
  | (key, value) :: fields => valueLines (path ++ key) value ++ sectionLines path fields

/-- The lines of a value that has headers, all with the key `path`. -/
def valueLines (path : String) : Value → List String
  | .table fields =>
    ["", "[" ++ path ++ "]"] ++ fieldLines fields ++ sectionLines (path ++ ".") fields
  | .array items => if items.all Value.isTable then itemLines path items else []
  | _ => []

/-- The lines of an array of tables with the key `path`. -/
def itemLines (path : String) : List Value → List String
  | [] => []
  | .table fields :: items =>
    ["", "[[" ++ path ++ "]]"] ++ fieldLines fields ++ sectionLines (path ++ ".") fields
      ++ itemLines path items
  | _ :: items => itemLines path items

end

/-- A document with the given fields. -/
def print (fields : Fields) : String :=
  let lines := fieldLines fields ++ sectionLines "" fields
  let lines := if lines.head? == some "" then lines.drop 1 else lines
  String.join (lines.map (· ++ "\n"))

end Toml
end QubitSphere
