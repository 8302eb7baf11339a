import WasmEngine.Binary.Type
import WasmEngine.Operator

/-!
# Operators in binaries

Reads operators. Most are one byte and their operands; the bytes `0xfb`, `0xfc`
and `0xfe` lead into further tables of opcodes, for references, for bulk
operations and for atomic ones. Loads and stores carry the binary logarithm of
their alignment, which may not be above that of the bytes they access; an atomic
access has to carry exactly that.
-/

namespace WasmEngine

/-- The binary logarithm of a number of bytes. -/
def alignment (bytes : Nat) : Nat := Nat.log2 bytes

namespace Reader

/-- The signature of a block. -/
def blockType : Reader BlockType := do
  let b ← peek
  if b = 0x40 then
    let _ ← byte
    return .empty
  else if 0x40 < b ∧ b < 0x80 then return .value (← anyType)
  else return .func (← typeIndex)

/-- The operands of an access: its alignment, which memory it is for (the first
if not said), and an offset. -/
def access : Reader (Nat × MemArg) := do
  let flags ← u32
  let named := flags / 64 % 2 == 1
  let memory ← if named then u32 else pure 0
  return (if named then flags - 64 else flags, ⟨← u64, memory⟩)

/-- The operands of a load or store. The offset has no more bits than an address. -/
def memArg (natural : Nat) : Reader MemArg := do
  let (align, arg) ← access
  require (align ≤ natural ∧ arg.offset < 0x100000000)
  return arg

/-- The operands of an atomic access. -/
def atomicArg (natural : Nat) : Reader MemArg := do
  let (align, arg) ← access
  require (align = natural ∧ arg.offset < 0x100000000)
  return arg

/-- An integer constant. -/
def intConst (w : Width) : Reader Value := do
  let n ← signed w.bits
  match w with
  | .w32 => return .i32 (BitVec.ofInt 32 n)
  | .w64 => return .i64 (BitVec.ofInt 64 n)

/-- A handler of a block that catches exceptions. Those that need a tag are
refused. -/
def handler : Reader Catch := do
  match ← byte with
  | 2 => return ⟨false, ← u32⟩
  | 3 => return ⟨true, ← u32⟩
  | _ => refuse

/-- The two types of a branch that casts, after its label. -/
def castTypes (flags : Nat) : Reader (RefType × RefType) := do
  let source ← heapType
  let target ← heapType
  return (⟨flags % 2 == 1, source⟩, ⟨flags / 2 == 1, target⟩)

/-- An operator on references, behind `0xfb`. -/
def referenceOp : Reader Extended := do
  match ← u32 with
  | 0x0f => return .arrayLen
  | 0x14 => return .refTest ⟨false, ← heapType⟩
  | 0x15 => return .refTest ⟨true, ← heapType⟩
  | 0x16 => return .refCast ⟨false, ← heapType⟩
  | 0x17 => return .refCast ⟨true, ← heapType⟩
  | 0x18 => do
    let flags ← byte
    require (flags < 4)
    let depth ← u32
    let (source, target) ← castTypes flags
    return .brOnCast depth source target
  | 0x19 => do
    let flags ← byte
    require (flags < 4)
    let depth ← u32
    let (source, target) ← castTypes flags
    return .brOnCastFail depth source target
  | 0x1a => return .anyConvertExtern
  | 0x1b => return .externConvertAny
  | 0x1c => return .refI31
  | 0x1d => return .i31Get true
  | 0x1e => return .i31Get false
  | _ => refuse

/-- A saturating truncation or a bulk operation, behind `0xfc`. -/
def bulkOp : Reader SimpleOp := do
  let code ← u32
  match code with
  | 8 => do
    let data ← u32
    return .extended (.memoryInit data (← u32))
  | 9 => return .extended (.dataDrop (← u32))
  | 10 => do
    let dst ← u32
    return .plain (.memoryCopy dst (← u32))
  | 11 => return .plain (.memoryFill (← u32))
  | 12 => do
    let element ← u32
    return .extended (.tableInit element (← u32))
  | 13 => return .extended (.elemDrop (← u32))
  | 14 => do
    let dst ← u32
    return .extended (.tableCopy dst (← u32))
  | 15 => return .extended (.tableGrow (← u32))
  | 16 => return .extended (.tableSize (← u32))
  | 17 => return .extended (.tableFill (← u32))
  | _ =>
    match Numeric.saturating[code]? with
    | some (.unary op) => return .plain (.unary op)
    | some (.binary op) => return .plain (.binary op)
    | none => refuse

/-- An atomic operation, behind `0xfe`. -/
def atomicOp : Reader Extended := do
  let code ← u32
  match code with
  | 0 => return .notify (← atomicArg 2)
  | 1 => return .wait .w32 (← atomicArg 2)
  | 2 => return .wait .w64 (← atomicArg 3)
  | 3 => do
    require ((← byte) = 0)
    return .fence
  | _ =>
    require (0x10 ≤ code)
    let op ← the AtomicOp.all[(code - 0x10) / 7]?
    let access ← the AtomicAccess.all[(code - 0x10) % 7]?
    return .atomic op access (← atomicArg access.exponent)

/-- A load, a store or a numeric operation by its opcode. -/
def tabulatedOp (code : Nat) : Reader Plain :=
  if code < 0x28 then refuse
  else match LoadOp.all[code - 0x28]? with
    | some op => return .load op (← memArg (alignment op.width))
    | none => match StoreOp.all[code - 0x36]? with
      | some op => return .store op (← memArg (alignment op.width))
      | none =>
        if code < 0x45 then refuse
        else match Numeric.plain[code - 0x45]? with
          | some (.unary op) => return .unary op
          | some (.binary op) => return .binary op
          | none => refuse

/-- A plain operator by its opcode. -/
def plainOp (code : Nat) : Reader Plain :=
  match code with
  | 0x00 => return .unreachable
  | 0x01 => return .nop
  | 0x0c => return .br (← u32)
  | 0x0d => return .brIf (← u32)
  | 0x0f => return .ret
  | 0x10 => return .call (← u32)
  | 0x11 => do
    let type ← u32
    return .callIndirect type (← u32)
  | 0x1a => return .drop
  | 0x1b => return .select
  | 0x20 => return .localGet (← u32)
  | 0x21 => return .localSet (← u32)
  | 0x22 => return .localTee (← u32)
  | 0x23 => return .globalGet (← u32)
  | 0x24 => return .globalSet (← u32)
  | 0x3f => return .memorySize (← u32)
  | 0x40 => return .memoryGrow (← u32)
  | 0x41 => return .const (← intConst .w32)
  | 0x42 => return .const (← intConst .w64)
  | 0x43 => return .const (.f32 (BitVec.ofNat 32 (← fixed 4)))
  | 0x44 => return .const (.f64 (BitVec.ofNat 64 (← fixed 8)))
  | _ => tabulatedOp code

/-- An operator that stands alone, by its opcode. -/
def simpleOp (code : Nat) : Reader SimpleOp :=
  match code with
  | 0x0a => return .extended .throwRef
  | 0x0e => do
    let labels ← vector u32
    return .brTable labels (← u32)
  | 0x12 => return .extended (.returnCall (← u32))
  | 0x13 => do
    let type ← u32
    return .extended (.returnCallIndirect type (← u32))
  | 0x14 => return .extended (.callRef (← u32))
  | 0x15 => return .extended (.returnCallRef (← u32))
  | 0x1c => do
    require ((← u32) = 1)
    return .selectAs (← anyType)
  | 0x25 => return .extended (.tableGet (← u32))
  | 0x26 => return .extended (.tableSet (← u32))
  | 0xd0 => return .extended (.refNull (← heapType))
  | 0xd1 => return .extended .refIsNull
  | 0xd2 => return .extended (.refFunc (← u32))
  | 0xd3 => return .extended .refEq
  | 0xd4 => return .extended .refAsNonNull
  | 0xd5 => return .extended (.brOnNull (← u32))
  | 0xd6 => return .extended (.brOnNonNull (← u32))
  | 0xfb => return .extended (← referenceOp)
  | 0xfc => bulkOp
  | 0xfe => return .extended (← atomicOp)
  | _ => return .plain (← plainOp code)

/-- An operator. -/
def operator : Reader Operator := do
  match ← byte with
  | 0x02 => return .opening (.block (← blockType))
  | 0x03 => return .opening (.loop (← blockType))
  | 0x04 => return .cond (← blockType)
  | 0x05 => return .orElse
  | 0x0b => return .endBlock
  | 0x1f => do
    let type ← blockType
    return .opening (.tryTable type (← vectorUpTo 10000 handler))
  | code => return .simple (← simpleOp code)

/-- A constant expression, without the `endBlock` behind it. -/
def expression : Reader (List Operator) := upTo (· == .endBlock) operator

end Reader

end WasmEngine
