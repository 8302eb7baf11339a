import WasmEngine.Text.Record
import WasmEngine.Value

/-!
# Types of functions, tables, memories and globals

The types a module declares its parts with. A table holds function references, a
memory is measured in pages of 64 KiB, and both may declare a maximum.
-/

namespace WasmEngine

/-- The type of a function: what it takes and what it returns. -/
structure FuncType where
  /-- The types of the parameters. -/
  params : List ValType
  /-- The types of the results. -/
  results : List ValType
  deriving DecidableEq

namespace FuncType

/-- The diagnostic text of a function type. -/
def debug (t : FuncType) : String :=
  Text.record "FuncType"
    [("params", Text.bracketed (t.params.map ValType.debug)),
      ("results", Text.bracketed (t.results.map ValType.debug))]

/-- The value types of a comma-separated list; `t*n` repeats a type, and one
type may stand in parentheses. -/
def readTypes? (s : String) : Option (List ValType) :=
  if s.isEmpty then some []
  else
    let inner := if s.startsWith "(" && s.endsWith ")" then ((s.drop 1).dropEnd 1).toString else s
    ((inner.splitOn ",").mapM fun (part : String) =>
      match part.splitOn "*" with
      | [t, n] => return List.replicate (← n.toNat?) (← ValType.ofName? t)
      | _ => (ValType.ofName? part).map ([·])).map List.flatten

/-- The function type written `params->results`. -/
def ofText? (s : String) : Option FuncType :=
  match s.splitOn "->" with
  | [ps, rs] => return ⟨← readTypes? ps, ← readTypes? rs⟩
  | _ => none

end FuncType

/-- The type of a table of function references. -/
structure TableType where
  /-- The number of entries at the start. -/
  initial : Nat
  /-- The number of entries it may grow to. -/
  max : Option Nat
  deriving DecidableEq

/-- The type of a memory. -/
structure MemoryType where
  /-- The number of pages at the start. -/
  initial : Nat
  /-- The number of pages it may grow to. -/
  max : Option Nat
  deriving DecidableEq

/-- The type of a global. -/
structure GlobalType where
  /-- Whether programs may write it. -/
  isMutable : Bool
  /-- The type of what it holds. -/
  type : ValType
  deriving DecidableEq

end WasmEngine
