import WasmEngine.Binary.Operator
import WasmEngine.Module
import WasmEngine.Typing.Body

/-!
# Sections of binaries

What the sections of a binary hold, as it is written there, and how it is read.
A segment also keeps where it lies in the binary; its reader is told where
the section ends.
-/

namespace WasmEngine

/-- What an import asks for. -/
inductive ImportDesc
  /-- A function of a declared type, or of exactly that type. -/
  | func (type : Nat) (exact : Bool)
  /-- A table. -/
  | table (type : TableDecl)
  /-- A memory. -/
  | memory (type : MemoryDecl)
  /-- A global. -/
  | global (type : GlobalDecl)
  /-- An exception tag with the parameters of a function type. -/
  | tag (type : Nat)

/-- An import. -/
structure ImportDecl where
  /-- The module it comes from. -/
  moduleName : String
  /-- The name there. -/
  name : String
  /-- What it is. -/
  desc : ImportDesc

/-- A table with its initial entry, if there is one. -/
structure TableDef where
  /-- Its type. -/
  type : TableDecl
  /-- The expression for all of its entries. -/
  init : Option (List Operator)

/-- A global with its initial value. -/
structure GlobalDef where
  /-- Its type. -/
  type : GlobalDecl
  /-- The expression for its value. -/
  init : List Operator

/-- How a segment is used. -/
inductive SegmentMode
  /-- Only by operators. -/
  | passive
  /-- Not at all, beyond declaring references. -/
  | declared
  /-- Written into a table or memory at the start. -/
  | active (target : Nat) (offset : List Operator)

/-- The entries of a segment. -/
inductive ElementItems
  /-- Functions. -/
  | funcs (indices : List Nat)
  /-- Expressions of a type. -/
  | expressions (type : RefType) (items : List (List Operator))

/-- A segment of table entries. -/
structure ElementDef where
  /-- How it is used. -/
  mode : SegmentMode
  /-- Its entries. -/
  items : ElementItems
  /-- Where it starts and ends in the binary. -/
  range : Nat × Nat

/-- A segment of bytes. -/
structure DataDef where
  /-- How it is used. -/
  mode : SegmentMode
  /-- Its bytes. -/
  bytes : List UInt8
  /-- Where it starts and ends in the binary. -/
  range : Nat × Nat

/-- A function body. -/
structure BodyDef where
  /-- Its locals. -/
  locals : List Typing.LocalGroup
  /-- Its operators, with the `endBlock` behind it. -/
  ops : List Operator

namespace Reader

/-- A tag: a byte that is always zero, and a function type. -/
def tag : Reader Nat := do
  require ((← byte) = 0)
  u32

/-- What an import asks for. -/
def importDesc : Reader ImportDesc := do
  match ← byte with
  | 0 => return .func (← u32) false
  | 1 => return .table (← tableDecl)
  | 2 => return .memory (← memoryDecl)
  | 3 => return .global (← globalDecl)
  | 4 => return .tag (← tag)
  | 0x20 => return .func (← u32) true
  | _ => refuse

/-- Imports from one module: one with its name, or behind an empty name any
number of them, each with its name and what it is, or of names that are all for
the same. -/
def importGroup : Reader (List ImportDecl) := do
  let moduleName ← name
  let first ← name
  match ← peek, first.isEmpty with
  | 0x7f, true => do
    let _ ← byte
    vector do return ⟨moduleName, ← name, ← importDesc⟩
  | 0x7e, true => do
    let _ ← byte
    let desc ← importDesc
    return (← vector name).map (⟨moduleName, ·, desc⟩)
  | _, _ => return [⟨moduleName, first, ← importDesc⟩]

/-- A table. -/
def tableDef : Reader TableDef := do
  if (← peek) = 0x40 then
    let _ ← byte
    require ((← byte) = 0)
    let type ← tableDecl
    return ⟨type, some (← expression)⟩
  else return ⟨← tableDecl, none⟩

/-- A global. -/
def globalDef : Reader GlobalDef := return ⟨← globalDecl, ← expression⟩

/-- The kind of an export. Tags are refused, as a binary with a tag gets no
further than that. -/
def externKind : Reader ExternKind := do
  match ← byte with
  | 0 => return .func
  | 1 => return .table
  | 2 => return .memory
  | 3 => return .global
  | _ => refuse

/-- An export. -/
def exportDef : Reader Export := return ⟨← name, ← externKind, ← u32⟩

/-- Where a reader is, when the bytes end at an offset. -/
def position (stop : Nat) : Reader Nat := return stop - (← remaining)

/-- A segment of table entries. The lowest bit of its flags is set unless it is
active; the second is set if an active one names its table and if any other is
only declared; the third is set if its entries are expressions. -/
def elementDef (stop : Nat) : Reader ElementDef := do
  let start ← position stop
  let flags ← u32
  require (flags < 8)
  let mode ← match flags % 4 with
    | 0 => do pure (.active 0 (← expression))
    | 1 => pure .passive
    | 2 => do pure (.active (← u32) (← expression))
    | _ => pure .declared
  let items ←
    if 4 ≤ flags then do
      let type ← if flags % 4 = 0 then pure .funcref else refType
      pure (.expressions type (← vectorUpTo 10000000 expression))
    else do
      if flags % 4 ≠ 0 then require ((← byte) = 0)
      pure (.funcs (← vectorUpTo 10000000 u32))
  return ⟨mode, items, (start, ← position stop)⟩

/-- A segment of bytes. -/
def dataDef (stop : Nat) : Reader DataDef := do
  let start ← position stop
  let mode ← match ← u32 with
    | 0 => do pure (.active 0 (← expression))
    | 1 => pure .passive
    | 2 => do pure (.active (← u32) (← expression))
    | _ => refuse
  let contents ← bytes (← u32)
  return ⟨mode, contents, (start, ← position stop)⟩

/-- Locals of one type. -/
def localGroup : Reader Typing.LocalGroup := return ⟨← u32, ← anyType⟩

/-- A function body. -/
def bodyDef : Reader BodyDef := return ⟨← vector localGroup, ← toEnd operator⟩

end Reader

end WasmEngine
