/-!
# Text of a record

A name and its fields, `Name { a: 1, b: 2 }`. An open record shows only some of its fields and
ends in two dots.
-/

namespace Turnstile.Text

def field (f : String × String) : String := f.1 ++ ": " ++ f.2

def braced (name : String) (items : List String) : String :=
  name ++ " \x7b " ++ String.intercalate ", " items ++ " \x7d"

def record (name : String) (fields : List (String × String)) : String :=
  braced name (fields.map field)

def openRecord (name : String) (fields : List (String × String)) : String :=
  braced name (fields.map field ++ [".."])

/-- A value that may be absent. -/
def optional : Option String → String
  | none => "None"
  | some s => "Some(" ++ s ++ ")"

end Turnstile.Text
