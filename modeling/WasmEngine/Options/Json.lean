import WasmEngine.Options
import WasmEngine.Text.Json

/-!
# Options as JSON texts

Options are read from an object with the fields `max_call_depth` and
`max_pages`, or from an array with the two in that order. What is missing takes
its default. Fields of other names are ignored, whatever they hold, but a field
that counts may stand there once only.
-/

namespace WasmEngine.Options

/-- The numbers that fit the two fields. -/
def bound : Nat := 0x100000000

/-- The fields that have been read so far. -/
structure Fields where
  maxCallDepth : Option Nat := none
  maxPages : Option Nat := none

namespace Fields

/-- Takes a field of an object. -/
def put? (f : Fields) (field : List Nat × Text.Json) : Option Fields := do
  let key := String.ofList (← Text.Json.ofUnits? field.1)
  if key == "max_call_depth" then
    if f.maxCallDepth.isSome then none
    return { f with maxCallDepth := some (← field.2.natBelow? bound) }
  else if key == "max_pages" then
    if f.maxPages.isSome then none
    return { f with maxPages := some (← field.2.natBelow? bound) }
  else return f

/-- The options with the fields that were given. -/
def options (f : Fields) : Options :=
  { maxCallDepth := f.maxCallDepth.getD ({} : Options).maxCallDepth
    maxPages := f.maxPages.getD ({} : Options).maxPages }

end Fields

/-- The options a value stands for. -/
def ofJson? : Text.Json → Option Options
  | .object fields => (fields.foldlM Fields.put? {}).map Fields.options
  | .array items => do
    match ← items.mapM (Text.Json.natBelow? bound) with
    | [] => some {}
    | [depth] => some { maxCallDepth := depth }
    | [depth, pages] => some { maxCallDepth := depth, maxPages := pages }
    | _ => none
  | _ => none

/-- The options a text stands for. -/
def ofText? (s : String) : Option Options := do ofJson? (← Text.Json.ofText? s)

end WasmEngine.Options
