import WasmEngine.Error
import WasmEngine.Operator

/-!
# Lowering

Lowers function bodies and constant expressions to what the engine runs.
Operators and block types that the engine does not have are refused, the first
in the order of the text; a selection loses its type, and all else is kept.

The flat code of a body is written in one pass (`CodeBuilder`). Where a
construct opens, its distances are not known yet: it is put on a stack, and they
are filled in when its end is met. An alternative is put on the stack above its
conditional, and the end they share closes both. Distances are 32-bit numbers,
so that a construct that ends too far away is refused.
-/

namespace WasmEngine

/-- The value type of the engine, or a refusal. -/
def AnyType.lower (t : AnyType) : Except ParseError ValType :=
  match t.lower? with
  | some v => .ok v
  | none => .error (.invalidType t.debug)

/-- The signature of a block of the engine. -/
def BlockType.lower : BlockType → Except ParseError BlockArgs
  | .empty => .ok .empty
  | .value t => t.lower.map .value
  | .func i => .ok (.func i)

/-! ### Function bodies -/

/-- A construct that is open. -/
inductive Construct
  /-- A block. -/
  | block (args : BlockArgs)
  /-- A loop. -/
  | loop (args : BlockArgs)
  /-- The first arm of a conditional. -/
  | cond (args : BlockArgs)
  /-- The alternative of a conditional. -/
  | orElse
  deriving DecidableEq

/-- The instruction a construct starts with, given the distances to its
alternative and to its end. -/
def Construct.instr : Construct → Nat → Nat → Instr
  | .block args, _, stop => .block args stop
  | .loop args, _, stop => .loop args stop
  | .cond args, alt, stop => .cond args alt stop
  | .orElse, _, stop => .orElse stop

/-- Where a construct was opened. -/
structure Opened where
  /-- The position of its first instruction. -/
  pos : Nat
  /-- What was opened. -/
  construct : Construct
  deriving DecidableEq

/-- Flat code up to somewhere in a body. -/
structure CodeBuilder where
  /-- The instructions so far. -/
  code : Array Instr := #[]
  /-- The constructs that are open, the innermost first. -/
  opened : List Opened := []
  deriving DecidableEq

namespace CodeBuilder

variable (b : CodeBuilder)

/-- Adds an instruction. -/
def emit (i : Instr) : CodeBuilder := { b with code := b.code.push i }

/-- Opens a construct. -/
def enter (c : Construct) : CodeBuilder := ⟨b.code.push (c.instr 0 0), ⟨b.code.size, c⟩ :: b.opened⟩

/-- The distance from a position. -/
def distance (pos : Nat) : Except ParseError Nat :=
  if b.code.size - pos < 0x100000000 then .ok (b.code.size - pos)
  else .error (.tooLarge ("block at " ++ toString pos))

/-- Takes the conditional off the stack whose alternative is at `pos`. -/
def closeCond (pos : Nat) : Except ParseError CodeBuilder :=
  match b.opened with
  | [] => .error (.other ("else at " ++ toString pos ++ " without an if"))
  | ⟨start, construct⟩ :: outer => do
    let stop ← b.distance start
    match construct with
    | .cond args => return ⟨b.code.setIfInBounds start (.cond args (pos - start) stop), outer⟩
    | _ => .error (.other ("else at " ++ toString pos ++ " without an if"))

/-- Closes what is open innermost, or the body if nothing is. -/
def close : Except ParseError CodeBuilder :=
  match b.opened with
  | [] => return b.emit (.plain .ret)
  | ⟨pos, construct⟩ :: outer => do
    let stop ← b.distance pos
    let patched : CodeBuilder := ⟨b.code.setIfInBounds pos (construct.instr 0 stop), outer⟩
    match construct with
    | .orElse => return (← patched.closeCond pos).emit .endBlock
    | _ => return patched.emit .endBlock

/-- Takes in an operator. -/
def visit : Operator → Except ParseError CodeBuilder
  | .simple (.plain op) => return b.emit (.plain op)
  | .simple (.brTable labels default) =>
    return { b with
      code := b.code.push (.brTable default labels.length) ++ labels.map Instr.brLabel }
  | .simple (.selectAs _) => return b.emit (.plain .select)
  | .simple (.extended op) => .error (.unsupportedOperator op.name)
  | .opening (.block type) => return b.enter (.block (← type.lower))
  | .opening (.loop type) => return b.enter (.loop (← type.lower))
  | .opening o@(.tryTable _ _) => .error (.unsupportedOperator o.name)
  | .cond type => return b.enter (.cond (← type.lower))
  | .orElse => return b.enter .orElse
  | .endBlock => b.close

end CodeBuilder

/-- The flat code of a function body. -/
def Operator.lower (ops : List Operator) : Except ParseError (Array Instr) := do
  let b ← ops.foldlM CodeBuilder.visit {}
  match b.opened with
  | [] => return b.code
  | opened => .error (.other (toString opened.length ++ " unterminated blocks"))

/-! ### Constant expressions -/

namespace Const

/-- The constant of an operator. -/
def ofOperator (op : Operator) : Except ParseError Const :=
  match op with
  | .simple (.plain (.const v)) => .ok (.value v)
  | .simple (.plain (.globalGet i)) => .ok (.globalGet i)
  | .simple (.extended (.refNull _)) => .ok .refNull
  | .simple (.extended (.refFunc f)) => .ok (.refFunc f)
  | op => .error (.unsupportedOperator ("constant expression with " ++ op.name))

/-- The constant of an expression, which must be a single operator. -/
def ofOperators : List Operator → Except ParseError Const
  | [] => ofOperator .endBlock
  | [op] => ofOperator op
  | op :: extra :: _ => do
    let _ ← ofOperator op
    .error (.unsupportedOperator ("constant expression with " ++ extra.name))

end Const

end WasmEngine
