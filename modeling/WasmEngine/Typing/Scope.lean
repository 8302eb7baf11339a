import WasmEngine.Operator
import WasmEngine.Type.Decl

/-!
# What expressions may name

The parts of a module that a function body or a constant expression can refer
to, each list numbered from zero with imported parts first. By the time an
expression is checked all declared types are function types of the engine's
value types, and memories and tables are indexed with 32 bits.
-/

namespace WasmEngine

/-- The parts of a module that are in scope. -/
structure Scope where
  /-- The declared types, for references. -/
  space : TypeSpace := {}
  /-- The declared types, as function types. -/
  types : Array FuncType := #[]
  /-- The type index of each function. -/
  funcs : List Nat := []
  /-- What each table holds. -/
  tables : List RefType := []
  /-- The number of memories. -/
  memories : Nat := 0
  /-- The globals. -/
  globals : List GlobalDecl := []
  /-- What each segment of table entries holds. -/
  elements : List RefType := []
  /-- The number of segments of bytes, if it was announced. -/
  dataCount : Option Nat := none
  /-- The functions that references may be made to. -/
  referable : List Nat := []

namespace Scope

variable (s : Scope)

/-- The type of a function. -/
def funcType? (func : Nat) : Option FuncType := do s.types[← s.funcs[func]?]?

/-- The parameters and results of a block. -/
def blockType? : BlockType → Option (List AnyType × List AnyType)
  | .empty => some ([], [])
  | .value t => if s.space.has t then some ([], [t]) else none
  | .func i => s.types[i]?.map fun t => (ValType.lift t.params, ValType.lift t.results)

/-- Whether there is such a memory. -/
def hasMemory (memory : Nat) : Bool := memory < s.memories

/-- Whether there is such a segment of bytes, which has to be announced. -/
def hasData (data : Nat) : Bool := s.dataCount.any (data < ·)

end Scope

end WasmEngine
