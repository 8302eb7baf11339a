import WasmEngine.Numeric

/-!
# Flat code

The instructions function bodies are lowered to. The code of a function is a
flat array, and its blocks are held together by **relative offsets**: a block,
loop or conditional carries the distance to the `endBlock` that closes it, a
conditional also the distance to its `orElse` (zero when it has none), and an
`orElse` the distance to the `endBlock` it shares with its conditional. The end
of a function is a `return`. The labels of a branch table follow it as `brLabel`
instructions.
-/

namespace WasmEngine

/-- The signature of a block. -/
inductive BlockArgs
  /-- Takes and leaves nothing. -/
  | empty
  /-- Leaves one value. -/
  | value (type : ValType)
  /-- Takes the parameters and leaves the results of a declared function type. -/
  | func (index : Nat)
  deriving DecidableEq

/-- The address immediates of an access: a static offset and the memory it is
for. -/
structure MemArg where
  /-- Added to the dynamic address. -/
  offset : Nat
  /-- The index of the memory. -/
  memory : Nat
  deriving DecidableEq

/-- Loads, by the value they produce and the bytes they read. -/
inductive LoadOp
  /-- A whole value of a type. -/
  | full (type : ValType)
  /-- One byte, extended to an integer. -/
  | byte (w : Width) (signed : Bool)
  /-- Two bytes, extended to an integer. -/
  | short (w : Width) (signed : Bool)
  /-- Four bytes, extended to a 64-bit integer. -/
  | word (signed : Bool)
  deriving DecidableEq

namespace LoadOp

/-- The number of bytes read. -/
def width : LoadOp → Nat
  | .full t => if t.isNarrow then 4 else 8
  | .byte _ _ => 1
  | .short _ _ => 2
  | .word _ => 4

/-- The type of the value produced. -/
def type : LoadOp → ValType
  | .full t => t
  | .byte w _ | .short w _ => w.int
  | .word _ => .i64

/-- All loads in the order of their opcodes. -/
def all : List LoadOp :=
  ValType.all.map .full ++
  Width.all.flatMap (fun w => [.byte w true, .byte w false, .short w true, .short w false]) ++
  [.word true, .word false]

end LoadOp

/-- Stores, by the value they take and the bytes they write. -/
inductive StoreOp
  /-- A whole value of a type. -/
  | full (type : ValType)
  /-- The low byte of an integer. -/
  | byte (w : Width)
  /-- The low two bytes of an integer. -/
  | short (w : Width)
  /-- The low four bytes of a 64-bit integer. -/
  | word
  deriving DecidableEq

namespace StoreOp

/-- The number of bytes written. -/
def width : StoreOp → Nat
  | .full t => if t.isNarrow then 4 else 8
  | .byte _ => 1
  | .short _ => 2
  | .word => 4

/-- The type of the value taken. -/
def type : StoreOp → ValType
  | .full t => t
  | .byte w | .short w => w.int
  | .word => .i64

/-- All stores in the order of their opcodes. -/
def all : List StoreOp :=
  ValType.all.map .full ++ Width.all.flatMap (fun w => [.byte w, .short w]) ++ [.word]

end StoreOp

/-- An instruction that neither opens nor closes a block. -/
inductive Plain
  /-- Traps. -/
  | unreachable
  /-- Does nothing. -/
  | nop
  /-- Branches to an enclosing label. -/
  | br (depth : Nat)
  /-- Branches if the operand is not zero. -/
  | brIf (depth : Nat)
  /-- Leaves the function. -/
  | ret
  /-- Calls a function. -/
  | call (func : Nat)
  /-- Calls the function a table holds, if it has the given type. -/
  | callIndirect (type table : Nat)
  /-- Drops an operand. -/
  | drop
  /-- Keeps one of two operands. -/
  | select
  /-- Reads a local. -/
  | localGet (index : Nat)
  /-- Writes a local. -/
  | localSet (index : Nat)
  /-- Writes a local and keeps the operand. -/
  | localTee (index : Nat)
  /-- Reads a global. -/
  | globalGet (index : Nat)
  /-- Writes a global. -/
  | globalSet (index : Nat)
  /-- Reads memory. -/
  | load (op : LoadOp) (arg : MemArg)
  /-- Writes memory. -/
  | store (op : StoreOp) (arg : MemArg)
  /-- The size of a memory in pages. -/
  | memorySize (memory : Nat)
  /-- Grows a memory. -/
  | memoryGrow (memory : Nat)
  /-- Copies bytes within or between memories. -/
  | memoryCopy (dst src : Nat)
  /-- Fills bytes of a memory. -/
  | memoryFill (memory : Nat)
  /-- A constant. -/
  | const (value : Value)
  /-- A numeric operation with one operand. -/
  | unary (op : Unary)
  /-- A numeric operation with two operands. -/
  | binary (op : Binary)
  deriving DecidableEq

/-- An instruction of flat code. -/
inductive Instr
  /-- An instruction that stands for itself. -/
  | plain (op : Plain)
  /-- Opens a block that ends `stop` instructions further on. -/
  | block (args : BlockArgs) (stop : Nat)
  /-- Opens a loop that ends `stop` instructions further on. -/
  | loop (args : BlockArgs) (stop : Nat)
  /-- Opens a conditional, with the distances to its alternative (zero for none)
  and to its end. -/
  | cond (args : BlockArgs) (alt stop : Nat)
  /-- Ends the first arm of a conditional that ends `stop` instructions further
  on. -/
  | orElse (stop : Nat)
  /-- Closes a block. -/
  | endBlock
  /-- Branches by the operand, over as many labels as follow. -/
  | brTable (default count : Nat)
  /-- A label of the branch table before it. -/
  | brLabel (depth : Nat)
  deriving DecidableEq

/-- The constant expressions of initializers and segment offsets. -/
inductive Const
  /-- A value. -/
  | value (v : Value)
  /-- The value of a global that is already there. -/
  | globalGet (index : Nat)
  /-- The null reference. -/
  | refNull
  /-- A reference to a function. -/
  | refFunc (index : Nat)
  deriving DecidableEq

end WasmEngine
