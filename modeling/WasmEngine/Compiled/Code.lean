import WasmEngine.Instr
import WasmEngine.Type

/-!
# Compiled code

A compiled function keeps its operands in **slots** of its frame, fixed when it
is compiled: the parameters and locals come first, the operand at height `h` is
the slot `locals + h`. Its body is a tree of operations, each of which names the
slots it reads and writes. Blocks nest; a branch moves its values into place and
leaves as many blocks as it says.
-/

namespace WasmEngine

/-- What an operation tells the sequence it stands in. -/
inductive Flow
  /-- Go on with the next operation. -/
  | next
  /-- Leave so many more blocks. -/
  | branch (depth : Nat)
  /-- Leave the function. -/
  | ret
  deriving DecidableEq

namespace Flow

/-- What a block tells the sequence it stands in, when its own sequence ends
like this. -/
def leaveBlock : Flow → Flow
  | .branch 0 => .next
  | .branch (n + 1) => .branch n
  | f => f

end Flow

/-- A branch: values to move between slots, and where to go. -/
structure Jump where
  /-- The first slot to move from. -/
  src : Nat
  /-- The first slot to move to. -/
  dst : Nat
  /-- The number of values. -/
  len : Nat
  /-- Where to go. -/
  flow : Flow
  deriving DecidableEq

/-- An operation of compiled code. -/
inductive Code
  /-- Traps. -/
  | unreachable
  /-- Runs a sequence. -/
  | block (body : List Code)
  /-- Runs a sequence again for every branch to it. -/
  | loop (body : List Code)
  /-- Runs one of two sequences. -/
  | cond (slot : Nat) (yes no : List Code)
  /-- Branches. -/
  | jump (j : Jump)
  /-- Branches if a slot is not zero. -/
  | jumpIf (slot : Nat) (j : Jump)
  /-- Branches by a slot. -/
  | jumpTable (slot : Nat) (targets : List Jump) (default : Jump)
  /-- Calls a function whose frame starts at its first argument. -/
  | call (func args : Nat)
  /-- Calls the function that a table holds. -/
  | callIndirect (type : FuncType) (table slot args : Nat)
  /-- Overwrites a slot by another if a third is zero. -/
  | select (cond other dst : Nat)
  /-- Copies a slot. -/
  | copy (src dst : Nat)
  /-- Reads a global. -/
  | globalGet (index dst : Nat)
  /-- Writes a global. -/
  | globalSet (index src : Nat)
  /-- Writes a constant. -/
  | const (r : Raw) (dst : Nat)
  /-- Reads memory at the address in a slot. -/
  | load (op : LoadOp) (arg : MemArg) (slot : Nat)
  /-- Writes memory; address and value are in adjacent slots. -/
  | store (op : StoreOp) (arg : MemArg) (base : Nat)
  /-- The size of the memory. -/
  | memorySize (dst : Nat)
  /-- Grows the memory. -/
  | memoryGrow (slot : Nat)
  /-- Copies bytes; the operands are in adjacent slots. -/
  | memoryCopy (base : Nat)
  /-- Fills bytes; the operands are in adjacent slots. -/
  | memoryFill (base : Nat)
  /-- An operation on a slot. -/
  | unary (op : Unary) (slot : Nat)
  /-- An operation on two slots; the result replaces the first. -/
  | binary (op : Binary) (lhs rhs : Nat)

/-- A compiled function. -/
structure CompiledFunc where
  /-- The number of parameters. -/
  params : Nat
  /-- The number of parameters and locals. -/
  locals : Nat
  /-- The number of slots of its frame. -/
  frameSize : Nat
  /-- Its body. -/
  body : List Code

/-- A compiled module. -/
structure Compiled where
  /-- The functions that the module defines. -/
  funcs : Array CompiledFunc
  /-- The types of all functions, imported ones first. -/
  types : Array FuncType
  /-- The number of imported functions. -/
  imported : Nat

/-- The diagnostic form of a function, which tells how many operations stand at
its top level. -/
def CompiledFunc.debug (f : CompiledFunc) : String :=
  Text.record "CompiledFunc"
    [("params", toString f.params), ("locals", toString f.locals),
      ("frame_size", toString f.frameSize), ("ops", toString f.body.length)]

/-- The diagnostic form of a module. -/
def Compiled.debug (c : Compiled) : String :=
  Text.record "JitModule"
    [("funcs", Text.bracketed (c.funcs.toList.map CompiledFunc.debug)),
      ("imported", toString c.imported)]

end WasmEngine
