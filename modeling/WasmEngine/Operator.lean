import WasmEngine.Instr.Text
import WasmEngine.Type.Reference

/-!
# Operators

The operators of function bodies and constant expressions as a binary writes
them: block structure is in brackets, an `endBlock` for every opening, and a
branch table holds its labels. Those that do the engine's own work are shared
with its flat code (`Plain`). The others are `Extended` operators, on
references, tables and shared memory: a binary may use them and still be valid,
but the engine does not run them. Nor does it run blocks that catch exceptions.

Operators that need a structure, an array or a tag of the binary are not among
them: no binary gets as far as its expressions with one.
-/

namespace WasmEngine

/-- The signature of a block. -/
inductive BlockType
  /-- Takes and leaves nothing. -/
  | empty
  /-- Leaves one value. -/
  | value (type : AnyType)
  /-- Takes the parameters and leaves the results of a declared function type. -/
  | func (index : Nat)
  deriving DecidableEq

/-- A handler of a block that catches exceptions: it takes any exception to a
label. -/
structure Catch where
  /-- Whether the label also gets a reference to the exception. -/
  withRef : Bool
  /-- The label. -/
  label : Nat
  deriving DecidableEq

/-- The updates of an atomic operation. -/
inductive Update
  | add
  | sub
  | and
  | or
  | xor
  | xchg
  deriving DecidableEq

/-- What an atomic operation does to the memory it accesses. -/
inductive AtomicOp
  /-- Reads. -/
  | load
  /-- Writes. -/
  | store
  /-- Reads and updates. -/
  | update (op : Update)
  /-- Reads, and writes if an expected value was read. -/
  | compareExchange
  deriving DecidableEq

/-- How an atomic operation accesses memory: an integer of a width in so many
bytes. -/
structure AtomicAccess where
  /-- The width of the integer. -/
  w : Width
  /-- The binary logarithm of the number of bytes. -/
  exponent : Nat
  deriving DecidableEq

/-- The operators that the engine does not run. -/
inductive Extended
  /-- Throws an exception that was caught. -/
  | throwRef
  /-- Calls a function in place of the current one. -/
  | returnCall (func : Nat)
  /-- Calls the function a table holds in place of the current one. -/
  | returnCallIndirect (type table : Nat)
  /-- Calls the function of a reference. -/
  | callRef (type : Nat)
  /-- Calls the function of a reference in place of the current one. -/
  | returnCallRef (type : Nat)
  /-- Reads a table. -/
  | tableGet (table : Nat)
  /-- Writes a table. -/
  | tableSet (table : Nat)
  /-- Copies a segment into a table. -/
  | tableInit (element table : Nat)
  /-- Drops a segment of table entries. -/
  | elemDrop (element : Nat)
  /-- Copies within or between tables. -/
  | tableCopy (dst src : Nat)
  /-- Grows a table. -/
  | tableGrow (table : Nat)
  /-- The size of a table. -/
  | tableSize (table : Nat)
  /-- Fills entries of a table. -/
  | tableFill (table : Nat)
  /-- Copies a segment into a memory. -/
  | memoryInit (data memory : Nat)
  /-- Drops a segment of bytes. -/
  | dataDrop (data : Nat)
  /-- The null reference. -/
  | refNull (heap : HeapType)
  /-- Whether a reference is null. -/
  | refIsNull
  /-- A reference to a function. -/
  | refFunc (func : Nat)
  /-- Whether two references are the same. -/
  | refEq
  /-- Traps on the null reference. -/
  | refAsNonNull
  /-- Branches on the null reference. -/
  | brOnNull (depth : Nat)
  /-- Branches on any other reference. -/
  | brOnNonNull (depth : Nat)
  /-- The length of an array. -/
  | arrayLen
  /-- Whether a reference is of a type. -/
  | refTest (type : RefType)
  /-- Traps unless a reference is of a type. -/
  | refCast (type : RefType)
  /-- Branches if a reference of one type is of another. -/
  | brOnCast (depth : Nat) (source target : RefType)
  /-- Branches unless a reference of one type is of another. -/
  | brOnCastFail (depth : Nat) (source target : RefType)
  /-- A thing of the host for the program. -/
  | anyConvertExtern
  /-- A thing of the program for the host. -/
  | externConvertAny
  /-- The reference of an integer. -/
  | refI31
  /-- The integer of a reference. -/
  | i31Get (signed : Bool)
  /-- Wakes threads. -/
  | notify (arg : MemArg)
  /-- Waits for a change of memory. -/
  | wait (w : Width) (arg : MemArg)
  /-- Orders accesses. -/
  | fence
  /-- An atomic access. -/
  | atomic (op : AtomicOp) (access : AtomicAccess) (arg : MemArg)
  deriving DecidableEq

/-- An operator that neither opens nor closes anything. -/
inductive SimpleOp
  /-- One that the engine runs as it is. -/
  | plain (op : Plain)
  /-- Branches by the operand. -/
  | brTable (labels : List Nat) (default : Nat)
  /-- Keeps one of two operands of a given type. -/
  | selectAs (type : AnyType)
  /-- One that the engine does not run. -/
  | extended (op : Extended)
  deriving DecidableEq

/-- An operator that opens a block with a single arm. -/
inductive Opening
  /-- A block. -/
  | block (type : BlockType)
  /-- A loop. -/
  | loop (type : BlockType)
  /-- A block that catches exceptions. -/
  | tryTable (type : BlockType) (catches : List Catch)
  deriving DecidableEq

/-- An operator. -/
inductive Operator
  /-- One that stands alone. -/
  | simple (op : SimpleOp)
  /-- Opens a block. -/
  | opening (o : Opening)
  /-- Opens a conditional. -/
  | cond (type : BlockType)
  /-- Ends the first arm of a conditional. -/
  | orElse
  /-- Closes a block, or the whole expression. -/
  | endBlock
  deriving DecidableEq

/-! ### Names -/

namespace Update

/-- The name of an update. -/
def name : Update → String
  | .add => "Add"
  | .sub => "Sub"
  | .and => "And"
  | .or => "Or"
  | .xor => "Xor"
  | .xchg => "Xchg"

/-- All updates in the order of their opcodes. -/
def all : List Update := [.add, .sub, .and, .or, .xor, .xchg]

end Update

namespace AtomicAccess

/-- Whether it accesses the whole integer. -/
def isFull (a : AtomicAccess) : Bool := 8 <<< a.exponent == a.w.bits

/-- The accesses in the order of their opcodes. -/
def all : List AtomicAccess :=
  [⟨.w32, 2⟩, ⟨.w64, 3⟩, ⟨.w32, 0⟩, ⟨.w32, 1⟩, ⟨.w64, 0⟩, ⟨.w64, 1⟩, ⟨.w64, 2⟩]

/-- The number of bits in a name, which leaves those of a full access out. -/
def bitsName (a : AtomicAccess) : String := if a.isFull then "" else toString (8 <<< a.exponent)

/-- The letter of zero extension in a name, which leaves it out for a full
access. -/
def extensionName (a : AtomicAccess) : String := if a.isFull then "" else "U"

end AtomicAccess

namespace AtomicOp

/-- The name of an atomic operation. -/
def name (op : AtomicOp) (a : AtomicAccess) : String :=
  a.w.int.debug ++ "Atomic" ++ match op with
    | .load => "Load" ++ a.bitsName ++ a.extensionName
    | .store => "Store" ++ a.bitsName
    | .update u => "Rmw" ++ a.bitsName ++ u.name ++ a.extensionName
    | .compareExchange => "Rmw" ++ a.bitsName ++ "Cmpxchg" ++ a.extensionName

/-- All operations in the order of their opcodes. -/
def all : List AtomicOp := [.load, .store] ++ Update.all.map .update ++ [.compareExchange]

end AtomicOp

/-- The name of an operator. -/
def Extended.name : Extended → String
  | .throwRef => "ThrowRef"
  | .returnCall _ => "ReturnCall"
  | .returnCallIndirect _ _ => "ReturnCallIndirect"
  | .callRef _ => "CallRef"
  | .returnCallRef _ => "ReturnCallRef"
  | .tableGet _ => "TableGet"
  | .tableSet _ => "TableSet"
  | .tableInit _ _ => "TableInit"
  | .elemDrop _ => "ElemDrop"
  | .tableCopy _ _ => "TableCopy"
  | .tableGrow _ => "TableGrow"
  | .tableSize _ => "TableSize"
  | .tableFill _ => "TableFill"
  | .memoryInit _ _ => "MemoryInit"
  | .dataDrop _ => "DataDrop"
  | .refNull _ => "RefNull"
  | .refIsNull => "RefIsNull"
  | .refFunc _ => "RefFunc"
  | .refEq => "RefEq"
  | .refAsNonNull => "RefAsNonNull"
  | .brOnNull _ => "BrOnNull"
  | .brOnNonNull _ => "BrOnNonNull"
  | .arrayLen => "ArrayLen"
  | .refTest r => if r.nullable then "RefTestNullable" else "RefTestNonNull"
  | .refCast r => if r.nullable then "RefCastNullable" else "RefCastNonNull"
  | .brOnCast _ _ _ => "BrOnCast"
  | .brOnCastFail _ _ _ => "BrOnCastFail"
  | .anyConvertExtern => "AnyConvertExtern"
  | .externConvertAny => "ExternConvertAny"
  | .refI31 => "RefI31"
  | .i31Get signed => "I31Get" ++ signLetter signed
  | .notify _ => "MemoryAtomicNotify"
  | .wait w _ => "MemoryAtomicWait" ++ toString w.bits
  | .fence => "AtomicFence"
  | .atomic op access _ => op.name access

/-- The name of an operator. -/
def SimpleOp.name : SimpleOp → String
  | .plain op => op.name
  | .brTable _ _ => "BrTable"
  | .selectAs _ => "TypedSelect"
  | .extended op => op.name

/-- The name of an operator. -/
def Opening.name : Opening → String
  | .block _ => "Block"
  | .loop _ => "Loop"
  | .tryTable _ _ => "TryTable"

/-- The name of an operator. -/
def Operator.name : Operator → String
  | .simple op => op.name
  | .opening o => o.name
  | .cond _ => "If"
  | .orElse => "Else"
  | .endBlock => "End"

end WasmEngine
