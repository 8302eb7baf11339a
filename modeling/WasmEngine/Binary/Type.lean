import WasmEngine.Binary.Reader
import WasmEngine.Type.Decl

/-!
# Types in binaries

Reads value types, references, declared types and the limits of tables and
memories. A heap type is a signed number: at least zero it is the index of a
declared type, and the negative ones of a single byte are built in. Of these two
stand in front of another: one of a built-in type that threads share, one of the
index of a type that is meant exactly.
-/

namespace WasmEngine

namespace Reader

/-- The built-in heap type of a byte. -/
def builtinHeap? : Nat → Option BuiltinHeap
  | 0x70 => some .func
  | 0x6f => some .external
  | 0x6e => some .any
  | 0x6d => some .eq
  | 0x6c => some .i31
  | 0x6b => some .struct
  | 0x6a => some .array
  | 0x69 => some .exn
  | 0x71 => some .noAny
  | 0x72 => some .noExternal
  | 0x73 => some .noFunc
  | 0x74 => some .noExn
  | 0x68 => some .cont
  | 0x75 => some .noCont
  | _ => none

/-- A heap type. -/
def heapType : Reader HeapType := do
  match ← peek with
  | 0x65 => do
    let _ ← byte
    return .shared (← the (builtinHeap? (← byte)))
  | 0x62 => do
    let _ ← byte
    return .exact (← u32)
  | b =>
    match builtinHeap? b with
    | some h => do
      let _ ← byte
      return .builtin h
    | none => return .declared (← typeIndex)

/-- A reference type. -/
def refType : Reader RefType := do
  match ← peek with
  | 0x63 => do
    let _ ← byte
    return ⟨true, ← heapType⟩
  | 0x64 => do
    let _ ← byte
    return ⟨false, ← heapType⟩
  | _ => return ⟨true, ← heapType⟩

/-- The type of a byte other than a reference. -/
def simpleType? : Nat → Option AnyType
  | 0x7f => some (.num .i32)
  | 0x7e => some (.num .i64)
  | 0x7d => some (.num .f32)
  | 0x7c => some (.num .f64)
  | 0x7b => some .v128
  | _ => none

/-- A type of values. -/
def anyType : Reader AnyType := do
  match simpleType? (← peek) with
  | some t => do
    let _ ← byte
    return t
  | none => return .ref (← refType)

/-- A truth value. -/
def bool : Reader Bool := do
  let b ← byte
  require (b < 2)
  return b == 1

/-! ### Declared types -/

/-- What a field holds. -/
def storage : Reader Storage := do
  match ← peek with
  | 0x78 => do
    let _ ← byte
    return .byte
  | 0x77 => do
    let _ ← byte
    return .short
  | _ => return .value (← anyType)

/-- A field. -/
def field : Reader Field := return ⟨← storage, ← bool⟩

/-- What a type is made of, after the byte that says so. -/
def composite : Nat → Reader Composite
  | 0x60 => return .func (← vectorUpTo 1000 anyType) (← vectorUpTo 1000 anyType)
  | 0x5f => return .struct (← vectorUpTo 10000 field)
  | 0x5e => return .array (← field)
  | _ => refuse

/-- A declared type that may say what is above it and whether others may be
below. -/
def declared : Reader Declared := do
  match ← byte with
  | 0x50 => return ⟨false, (← vectorUpTo 1 u32).head?, ← composite (← byte)⟩
  | 0x4f => return ⟨true, (← vectorUpTo 1 u32).head?, ← composite (← byte)⟩
  | b => return ⟨true, none, ← composite b⟩

/-- A group of declared types. -/
def group : Reader (List Declared) := do
  match ← peek with
  | 0x4e => do
    let _ ← byte
    vector declared
  | _ => return [← declared]

/-! ### Tables, memories and globals -/

/-- What is there if a flag is set. -/
def ifSet {α : Type} (flag : Bool) (item : Reader α) : Reader (Option α) :=
  if flag then return some (← item) else return none

/-- The type of a table. The flags are for a maximum, for sharing and for
indices of 64 bits; they leave the width of the limits as it is. -/
def tableDecl : Reader TableDecl := do
  let element ← refType
  let flags ← byte
  require (flags < 8)
  let initial ← u64
  let max ← ifSet (flags.testBit 0) u64
  return ⟨element, flags.testBit 2, flags.testBit 1, initial, max⟩

/-- The type of a memory. The flags are for a maximum, for sharing, for
addresses of 64 bits and for a size of pages; they leave the width of the limits
as it is. -/
def memoryDecl : Reader MemoryDecl := do
  let flags ← byte
  require (flags < 16)
  let initial ← u64
  let max ← ifSet (flags.testBit 0) u64
  let pageSize ← ifSet (flags.testBit 3) u32
  return ⟨flags.testBit 2, flags.testBit 1, initial, max, pageSize⟩

/-- The type of a global. The flags are for writing and for sharing. -/
def globalDecl : Reader GlobalDecl := do
  let type ← anyType
  let flags ← byte
  require (flags < 4)
  return ⟨flags.testBit 0, flags.testBit 1, type⟩

end Reader

end WasmEngine
