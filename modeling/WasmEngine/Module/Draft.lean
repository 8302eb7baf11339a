import WasmEngine.Binary.Section
import WasmEngine.Operator.Lower
import WasmEngine.Typing.Expression

/-!
# Modules in the making

A binary is read section by section. Each section is read and checked as a
whole, against what earlier sections declared, and only then lowered to what the
engine has; so a fault of a later section never hides what an earlier one asked
for in vain. A `Draft` is what is known after some sections: the module so far,
and what expressions may name.

A section that is malformed or not valid is no value here (`none`), and one that
the engine cannot represent is a `ParseError`.
-/

namespace WasmEngine

/-- A module of which some sections have been read. -/
structure Draft where
  /-- The module so far. -/
  mod : Module := { version := some 1 }
  /-- What expressions may name. -/
  scope : Scope := {}
  /-- The types of the functions that the module defines. -/
  defined : List Nat := []
  /-- The size of the type of the module, of which imports and exports are parts. -/
  typeSize : Nat := 1

/-! ### Lowering of declarations -/

/-- The function type of the engine. -/
def Declared.lower (d : Declared) : Except ParseError FuncType :=
  match d.body with
  | .func params results => return ⟨← params.mapM AnyType.lower, ← results.mapM AnyType.lower⟩
  | _ => .error (.invalidType "only function types are supported")

/-- The type of a table of the engine: it holds functions, and its indices have
32 bits. -/
def TableDecl.lower (t : TableDecl) : Except ParseError TableType :=
  if t.element.isFunc && !t.is64 then .ok ⟨t.initial, t.max⟩
  else .error (.invalidType ("table of " ++ t.element.debug))

/-- The type of a memory of the engine. -/
def MemoryDecl.lower (m : MemoryDecl) : Except ParseError MemoryType :=
  if m.is64 || m.shared || m.pageSize.isSome then
    .error (.unsupportedSection "only 32-bit, unshared memories with 64 KiB pages")
  else .ok ⟨m.initial, m.max⟩

/-- The type of a global of the engine. -/
def GlobalDecl.lower (g : GlobalDecl) : Except ParseError GlobalType :=
  return ⟨g.isMutable, ← g.type.lower⟩

/-- The kind of an import of the engine. -/
def ImportDesc.lower : ImportDesc → Except ParseError ImportKind
  | .func t false => .ok (.func t)
  | .func _ true => .error (.unsupportedSection "import of kind FuncExact")
  | .table t => t.lower.map .table
  | .memory m => m.lower.map .memory
  | .global g => g.lower.map .global
  | .tag _ => .error (.unsupportedSection "import of kind Tag")

/-- An import of the engine. -/
def ImportDecl.lower (i : ImportDecl) : Except ParseError Import :=
  return ⟨i.moduleName, i.name, ← i.desc.lower⟩

/-- A table of the engine. -/
def TableDef.lower (t : TableDef) : Except ParseError TableType :=
  if t.init.isSome then .error (.unsupportedSection "table initializer expressions")
  else t.type.lower

/-- A global of the engine. -/
def GlobalDef.lower (g : GlobalDef) : Except ParseError Global :=
  return ⟨← g.type.lower, ← Const.ofOperators g.init⟩

/-- An entry of a table: a function or nothing. -/
def elementItem (ops : List Operator) : Except ParseError (Option Nat) := do
  match ← Const.ofOperators ops with
  | .refFunc f => return some f
  | .refNull => return none
  | c => .error (.unsupportedOperator ("element item " ++ c.debug))

/-- The entries of a segment. -/
def ElementItems.lower : ElementItems → Except ParseError (List (Option Nat))
  | .funcs indices => .ok (indices.map some)
  | .expressions type items =>
    if type.isFunc then items.mapM elementItem
    else .error (.invalidType ("element segment of " ++ type.debug))

/-- A segment of table entries of the engine. -/
def ElementDef.lower (e : ElementDef) : Except ParseError Element := do
  let kind ← match e.mode with
    | .passive => pure .passive
    | .declared => pure .declared
    | .active table offset => do pure (.active table (← Const.ofOperators offset))
  return ⟨kind, ← e.items.lower, e.range⟩

/-- A segment of bytes of the engine. -/
def DataDef.lower (d : DataDef) : Except ParseError Data := do
  let kind ← match d.mode with
    | .active memory offset => do pure (.active memory (← Const.ofOperators offset))
    | _ => pure .passive
  return ⟨kind, d.bytes, d.range⟩

/-- A function of the engine. -/
def BodyDef.lower (type : Nat) (b : BodyDef) : Except ParseError Func := do
  let locals ← b.locals.mapM fun g => do pure (List.replicate g.count (← g.type.lower))
  return ⟨type, locals.flatten, ← Operator.lower b.ops⟩

namespace Draft

variable (d : Draft)

/-- What a section makes of a draft: nothing if it is malformed or not valid. -/
abbrev Step := Option (Except ParseError Draft)

/-! ### Limits -/

/-- The size of the type of a function. -/
def funcSize (type : Nat) : Nat :=
  match d.scope.types[type]? with
  | some t => 2 + t.params.length + t.results.length
  | none => 1

/-- The draft with more parts of the given sizes in the type of the module, if
that does not get too large. -/
def grow? (sizes : List Nat) : Option Draft :=
  let typeSize := d.typeSize + sizes.foldr (· + ·) 0
  if typeSize < 1000000 then some { d with typeSize } else none

/-- Whether there are not too many functions, tables, memories and globals. -/
def isWithinLimits (s : Scope) : Bool :=
  s.funcs.length ≤ 1000000 && s.tables.length ≤ 100 && s.memories ≤
    100 && s.globals.length ≤ 1000000

/-! ### Types, imports and functions -/

/-- Takes in the declared types. -/
def types (bs : List UInt8) : Step := do
  let groups ← Reader.whole? (.vectorUpTo 1000000 .group) bs
  let space ← groups.foldlM TypeSpace.extend? {}
  return do
    let types := (← space.types.mapM Declared.lower).toArray
    return { d with mod := { d.mod with types }, scope := { d.scope with space, types } }

/-- Whether an import asks for something that can be. -/
def isImport (i : ImportDecl) : Bool :=
  match i.desc with
  | .func t _ => t < d.scope.types.size
  | .table t => t.isValid d.scope.space
  | .memory m => m.isValid
  | .global g => g.isValid d.scope.space
  | .tag t => d.scope.types[t]?.any (·.results.isEmpty)

/-- The size of the type of an import. -/
def importSize (i : ImportDecl) : Nat :=
  match i.desc with
  | .func t _ | .tag t => d.funcSize t
  | _ => 1

/-- The scope with imported parts. -/
def importAll (s : Scope) (descs : List ImportDesc) : Scope :=
  { s with
    funcs := s.funcs ++ descs.filterMap fun | .func t _ => some t | _ => none
    tables := s.tables ++ descs.filterMap fun | .table t => some t.element | _ => none
    memories := s.memories + descs.countP fun | .memory _ => true | _ => false
    globals := s.globals ++ descs.filterMap fun | .global g => some g | _ => none }

/-- Takes in the imports. -/
def imports (bs : List UInt8) : Step := do
  let groups ← Reader.whole? (.vectorUpTo 1000000 .importGroup) bs
  let decls := groups.flatten
  let scope := importAll d.scope (decls.map ImportDecl.desc)
  guard (decls.all d.isImport && isWithinLimits scope)
  let d ← d.grow? (decls.map d.importSize)
  return do
    let imports ← decls.mapM ImportDecl.lower
    return { d with mod := { d.mod with imports }, scope }

/-- Takes in the types of the functions that the module defines. -/
def functions (bs : List UInt8) : Step := do
  let defined ← Reader.whole? (.vectorUpTo 1000000 .u32) bs
  let scope := { d.scope with funcs := d.scope.funcs ++ defined }
  guard (defined.all (· < d.scope.types.size) && isWithinLimits scope)
  return .ok { d with scope, defined }

/-! ### Tables, memories, tags and globals -/

/-- Whether a table is valid: one that holds no null needs an initial entry. -/
def isTable (t : TableDef) : Bool :=
  t.type.isValid d.scope.space &&
    match t.init with
    | none => t.type.element.nullable
    | some init => Typing.isConstant d.scope (.ref t.type.element) init

/-- Takes in the tables. -/
def tables (bs : List UInt8) : Step := do
  let defs ← Reader.whole? (.vectorUpTo 100 .tableDef) bs
  let scope := { d.scope with tables := d.scope.tables ++ defs.map (·.type.element) }
  guard (defs.all d.isTable && isWithinLimits scope)
  return do
    let tables ← defs.mapM TableDef.lower
    return { d with mod := { d.mod with tables }, scope }

/-- Takes in the memories. The engine has one memory, an imported one included. -/
def memories (bs : List UInt8) : Step := do
  let decls ← Reader.whole? (.vectorUpTo 100 .memoryDecl) bs
  let scope := { d.scope with memories := d.scope.memories + decls.length }
  guard (decls.all MemoryDecl.isValid && isWithinLimits scope)
  return do
    let memories ← decls.mapM MemoryDecl.lower
    if 1 < scope.memories then .error (.unsupportedSection "multiple memories")
    else return { d with mod := { d.mod with memories }, scope }

/-- Takes in exception tags, which the engine does not have. -/
def tags (bs : List UInt8) : Step := do
  let types ← Reader.whole? (.vectorUpTo 1000000 .tag) bs
  guard (types.all fun t => d.scope.types[t]?.any (·.results.isEmpty))
  return .error (.unsupportedSection "TagSection")

/-- The scope with another global, if that is valid. -/
def global? (s : Scope) (g : GlobalDef) : Option Scope :=
  if g.type.isValid s.space && Typing.isConstant s g.type.type g.init then
    some { s with
      globals := s.globals ++ [g.type], referable := s.referable ++ Typing.referenced g.init }
  else none

/-- Takes in the globals. -/
def globals (bs : List UInt8) : Step := do
  let defs ← Reader.whole? (.vectorUpTo 1000000 .globalDef) bs
  let scope ← defs.foldlM global? d.scope
  guard (isWithinLimits scope)
  return do
    let globals ← defs.mapM GlobalDef.lower
    return { d with mod := { d.mod with globals }, scope }

/-! ### Exports and the start function -/

/-- Whether an export is of something that is there. -/
def isExport (e : Export) : Bool :=
  match e.kind with
  | .func => e.index < d.scope.funcs.length
  | .table => e.index < d.scope.tables.length
  | .memory => d.scope.hasMemory e.index
  | .global => e.index < d.scope.globals.length

/-- Whether a name is exported once at most. -/
def distinctNames : List Export → Bool
  | [] => true
  | e :: es => es.all (·.name != e.name) && distinctNames es

/-- The size of the type of an export. -/
def exportSize (e : Export) : Nat :=
  match e.kind, d.scope.funcs[e.index]? with
  | .func, some t => d.funcSize t
  | _, _ => 1

/-- Takes in the exports. -/
def exports (bs : List UInt8) : Step := do
  let exports ← Reader.whole? (.vectorUpTo 1000000 .exportDef) bs
  guard (exports.all d.isExport && distinctNames exports)
  let d ← d.grow? (exports.map d.exportSize)
  let funcs := (exports.filter (·.kind == .func)).map Export.index
  return .ok { d with mod := { d.mod with exports }
                      scope := { d.scope with referable := d.scope.referable ++ funcs } }

/-- Takes in the start function, which takes and returns nothing. -/
def start (bs : List UInt8) : Step := do
  let func ← Reader.whole? .u32 bs
  guard ((← d.scope.funcType? func) = ⟨[], []⟩)
  return .ok { d with mod := { d.mod with start := some func } }

/-! ### Segments -/

/-- What a segment of table entries holds. -/
def elementType : ElementItems → RefType
  | .funcs _ => .func
  | .expressions type _ => type

/-- The functions that the entries of a segment refer to. -/
def elementFuncs : ElementItems → List Nat
  | .funcs indices => indices
  | .expressions _ items => items.flatMap Typing.referenced

/-- Whether a segment of table entries is valid. -/
def isElement (e : ElementDef) : Bool :=
  let type := elementType e.items
  d.scope.space.hasHeap type.heap &&
    (match e.mode with
      | .active table offset => (d.scope.tables[table]?).any (d.scope.space.refBelow type) &&
        Typing.isConstant d.scope (.num .i32) offset
      | _ => true) &&
    match e.items with
    | .funcs indices => indices.all (· < d.scope.funcs.length)
    | .expressions type items => items.all (Typing.isConstant d.scope (.ref type))

/-- Takes in the segments of table entries. -/
def elements (stop : Nat) (bs : List UInt8) : Step := do
  let defs ← Reader.whole? (.vectorUpTo 100000 (.elementDef stop)) bs
  guard (defs.all d.isElement)
  return do
    let elements ← defs.mapM ElementDef.lower
    let scope := { d.scope with
      elements := defs.map fun e => elementType e.items
      referable := d.scope.referable ++ defs.flatMap fun e => elementFuncs e.items }
    return { d with mod := { d.mod with elements }, scope }

/-- Takes in the number of segments of bytes. -/
def dataCount (bs : List UInt8) : Step := do
  let n ← Reader.whole? .u32 bs
  guard (n ≤ 100000)
  return .ok { d with scope := { d.scope with dataCount := some n } }

/-- Whether a segment of bytes is valid. -/
def isData (e : DataDef) : Bool :=
  match e.mode with
  | .active memory offset =>
    d.scope.hasMemory memory && Typing.isConstant d.scope (.num .i32) offset
  | _ => true

/-- Takes in the segments of bytes, which have to be as many as announced. -/
def data (stop : Nat) (bs : List UInt8) : Step := do
  let defs ← Reader.whole? (.vectorUpTo 100000 (.dataDef stop)) bs
  guard (d.scope.dataCount.all (· == defs.length) && defs.all d.isData)
  return do
    let data ← defs.mapM DataDef.lower
    return { d with mod := { d.mod with data } }

/-! ### Bodies -/

/-- Takes in the body of a function of a type. -/
def body (type : Nat) (bs : List UInt8) : Step := do
  let b ← Reader.whole? .bodyDef bs
  let t ← d.scope.types[type]?
  guard (Typing.isBody d.scope t b.locals b.ops)
  return do
    let f ← b.lower type
    return { d with mod := { d.mod with funcs := d.mod.funcs.push f } }

end Draft

end WasmEngine
