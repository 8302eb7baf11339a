/-!
# Diagnostic texts

The one-line form in which records, lists and options are shown to a person: a
record is its name and its fields between braces, a constructor with arguments
is its name and the arguments between parentheses.
-/

namespace WasmEngine.Text

/-- Texts in a row, divided by a comma and a blank. -/
def commas (xs : List String) : String := String.intercalate ", " xs

/-- A record with its fields, `Name { a: 1, b: 2 }`. -/
def record (name : String) (fields : List (String × String)) : String :=
  name ++ " \x7b " ++ commas (fields.map fun (k, v) => k ++ ": " ++ v) ++ " \x7d"

/-- A record that shows only some of its fields, `Name { a: 1, .. }`. -/
def openRecord (name : String) (fields : List (String × String)) : String :=
  name ++ " \x7b " ++ commas (fields.map (fun (k, v) => k ++ ": " ++ v) ++ [".."]) ++ " \x7d"

/-- A constructor applied to arguments, `Name(1, 2)`. -/
def applied (name : String) (args : List String) : String :=
  name ++ "(" ++ commas args ++ ")"

/-- A list, `[1, 2]`. -/
def bracketed (xs : List String) : String := "[" ++ commas xs ++ "]"

/-- A finite map in the order of its entries, `{a: 1, b: 2}`. -/
def braced (entries : List (String × String)) : String :=
  "\x7b" ++ commas (entries.map fun (k, v) => k ++ ": " ++ v) ++ "\x7d"

/-- An optional item, `Some(1)` or `None`. -/
def optional (x : Option String) : String :=
  match x with
  | some s => applied "Some" [s]
  | none => "None"

end WasmEngine.Text
