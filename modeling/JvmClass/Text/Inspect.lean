/-!
# Inspected values

The notation in which values are shown to somebody looking into a class file: records with named
fields, constructors applied to arguments, lists, and values that may be absent.
-/

namespace JvmClass.Text

/-- Items with a comma and a blank between neighbours. -/
def commaSeparated (items : List String) : String :=
  ", ".intercalate items

/-- A record: its name, then its fields in braces. -/
def record (name : String) (fields : List (String × String)) : String :=
  name ++ " \x7b " ++ commaSeparated (fields.map fun (field, value) => field ++ ": " ++ value)
    ++ " \x7d"

/-- A constructor applied to arguments; the empty name gives a tuple. -/
def applied (name : String) (arguments : List String) : String :=
  name ++ "(" ++ commaSeparated arguments ++ ")"

/-- A list in square brackets. -/
def bracketed (items : List String) : String :=
  "[" ++ commaSeparated items ++ "]"

/-- A value that may be absent. -/
def optional : Option String → String
  | some value => applied "Some" [value]
  | none => "None"

end JvmClass.Text
