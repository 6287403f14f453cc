/-!
Values as text: records with named fields, constructors with one argument, lists and options.
-/

namespace BlockSync.Text

def record (name : String) (fields : List (String × String)) : String :=
  name ++ " \x7b " ++ ", ".intercalate (fields.map fun field => field.1 ++ ": " ++ field.2) ++ " \x7d"

def applied (name argument : String) : String := name ++ "(" ++ argument ++ ")"

def listed (items : List String) : String := "[" ++ ", ".intercalate items ++ "]"

def optional : Option String → String
  | none => "None"
  | some text => applied "Some" text

end BlockSync.Text
