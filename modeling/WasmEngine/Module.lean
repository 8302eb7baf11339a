import WasmEngine.Instr
import WasmEngine.Type

/-!
# Modules

A module as the engine runs it: types, functions in flat code, imports, exports
and the initial contents of globals, tables and memory. The functions of a
module are numbered through, imported ones first; `importedTypes` is the
imported part of that numbering.
-/

namespace WasmEngine

/-- What an import asks for. -/
inductive ImportKind
  /-- A function of a declared type. -/
  | func (type : Nat)
  /-- A table. -/
  | table (type : TableType)
  /-- A memory. -/
  | memory (type : MemoryType)
  /-- A global. -/
  | global (type : GlobalType)
  deriving DecidableEq

/-- An import, named by a module and a field. -/
structure Import where
  /-- The module it comes from. -/
  moduleName : String
  /-- The name there. -/
  name : String
  /-- What it is. -/
  kind : ImportKind

/-- The kinds of things that are exported. -/
inductive ExternKind
  | func
  | table
  | memory
  | global
  deriving DecidableEq

/-- An export. -/
structure Export where
  /-- The name it is exported under. -/
  name : String
  /-- What it is. -/
  kind : ExternKind
  /-- Its index among its kind. -/
  index : Nat

/-- A function that the module defines. -/
structure Func where
  /-- The index of its type. -/
  type : Nat
  /-- The types of its locals, parameters not included. -/
  locals : List ValType
  /-- Its body. -/
  code : Array Instr

/-- A global with its initial value. -/
structure Global where
  /-- Its type. -/
  type : GlobalType
  /-- The expression that gives its initial value. -/
  init : Const

/-- How a segment of table entries is used. -/
inductive ElementKind
  /-- Only by instructions. -/
  | passive
  /-- Not at all, beyond declaring references. -/
  | declared
  /-- Written into a table at the start. -/
  | active (table : Nat) (offset : Const)

/-- A segment of table entries. -/
structure Element where
  /-- How it is used. -/
  kind : ElementKind
  /-- The entries; `none` is the null reference. -/
  items : List (Option Nat)
  /-- Where it starts and ends in the binary. -/
  range : Nat × Nat

/-- How a segment of bytes is used. -/
inductive DataKind
  /-- Only by instructions. -/
  | passive
  /-- Written into a memory at the start. -/
  | active (memory : Nat) (offset : Const)

/-- A segment of bytes. -/
structure Data where
  /-- How it is used. -/
  kind : DataKind
  /-- The bytes. -/
  bytes : List UInt8
  /-- Where it starts and ends in the binary. -/
  range : Nat × Nat

/-- A module ready to run. -/
structure Module where
  /-- The version of the binary it came from. -/
  version : Option Nat := none
  /-- The function that runs at the end of instantiation. -/
  start : Option Nat := none
  /-- The declared function types. -/
  types : Array FuncType := #[]
  /-- The functions it defines. -/
  funcs : Array Func := #[]
  /-- The imports. -/
  imports : List Import := []
  /-- The exports. -/
  exports : List Export := []
  /-- The globals it defines. -/
  globals : List Global := []
  /-- The tables it defines. -/
  tables : List TableType := []
  /-- The memories it defines. -/
  memories : List MemoryType := []
  /-- The segments of table entries. -/
  elements : List Element := []
  /-- The segments of bytes. -/
  data : List Data := []

namespace Module

/-- The type indices of the imported functions, in order. -/
def importedTypes (m : Module) : List Nat :=
  m.imports.filterMap fun i => match i.kind with
    | .func t => some t
    | _ => none

/-- The number of imported functions. -/
def importedCount (m : Module) : Nat := m.importedTypes.length

/-- The index of the type of a function, imported or defined. -/
def typeIndex? (m : Module) (func : Nat) : Option Nat :=
  if func < m.importedCount then m.importedTypes[func]?
  else m.funcs[func - m.importedCount]?.map Func.type

/-- The type of a function, imported or defined. -/
def funcType? (m : Module) (func : Nat) : Option FuncType := do
  m.types[← m.typeIndex? func]?

/-- The types of all functions, imported ones first; a function of a type that
is not declared has none. -/
def funcTypes (m : Module) : List (Option FuncType) :=
  (m.importedTypes ++ m.funcs.toList.map Func.type).map (m.types[·]?)

/-- The function exported under a name. -/
def exportedFunc? (m : Module) (name : String) : Option Nat :=
  (m.exports.find? fun e => e.kind == .func && e.name == name).map Export.index

end Module

end WasmEngine
