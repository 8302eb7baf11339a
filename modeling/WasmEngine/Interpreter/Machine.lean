import WasmEngine.Env

/-!
# The interpreter's machine

The interpreter runs flat code with three stacks. The **value stack** holds the
operands of all active frames and the **block stack** their open blocks, both
with the innermost on top, so that a frame remembers how high they were when it
was entered. The **call stack** holds the frames that wait for the current one.

A block remembers where it was opened, how far its end is, and how high the
value stack was below its parameters. Leaving it keeps as many values as it
leaves and drops what is between (`keepAbove`).
-/

namespace WasmEngine

/-- An open block. -/
structure Block where
  /-- Where it was opened. -/
  start : Nat
  /-- The distance to its end. -/
  stop : Nat
  /-- The height of the value stack below its parameters. -/
  base : Nat
  /-- The number of its parameters. -/
  params : Nat
  /-- The number of its results. -/
  results : Nat
  /-- Whether a branch to it goes back to its start. -/
  isLoop : Bool
  deriving DecidableEq

/-- An active function. -/
structure Frame where
  /-- The position of the next instruction. -/
  pc : Nat
  /-- The code of the function. -/
  code : Array Instr
  /-- The number of its results. -/
  results : Nat
  /-- Its parameters and locals. -/
  locals : Array Raw
  /-- The height of the block stack when it was entered. -/
  blockBase : Nat
  /-- The height of the value stack when it was entered, its arguments removed. -/
  valueBase : Nat

/-- The state of the interpreter. -/
structure Machine where
  /-- The operands, the top first. -/
  values : List Raw
  /-- The open blocks, the innermost first. -/
  blocks : List Block
  /-- The current frame. -/
  frame : Frame
  /-- The frames that wait, the innermost first. -/
  callers : List Frame

/-- A stack with all but the top `keep` of what is above `base` removed; a stack
that is not higher than both together stays as it is. -/
def keepAbove (base keep : Nat) (vs : List Raw) : List Raw :=
  if vs.length ≤ base + keep then vs else vs.take keep ++ vs.drop (vs.length - base)

namespace Frame

/-- The frame of a call with the arguments given; all other parameters and
locals are zero. -/
def enter (f : Func) (t : FuncType) (args : List Raw) (blockBase valueBase : Nat) : Frame where
  pc := 0
  code := f.code
  results := t.results.length
  locals := (args ++ List.replicate (t.params.length + f.locals.length - args.length) 0).toArray
  blockBase := blockBase
  valueBase := valueBase

end Frame

namespace Machine

variable (m : Machine)

/-- The machine at another position. -/
def goto (pc : Nat) : Machine := { m with frame := { m.frame with pc := pc } }

/-- The machine at the next position. -/
def next : Machine := m.goto (m.frame.pc + 1)

/-- The machine with other operands. -/
def withValues (vs : List Raw) : Machine := { m with values := vs }

/-- The machine with another operand on top. -/
def push (r : Raw) : Machine := { m with values := r :: m.values }

/-- The machine in a new block, unless its parameters are missing. -/
def openBlock? (start stop params results : Nat) (isLoop : Bool) : Option Machine :=
  if m.values.length < params then none
  else
    some { m with
      blocks := ⟨start, stop, m.values.length - params, params, results, isLoop⟩ :: m.blocks }

/-- The machine out of its innermost block. -/
def closeBlock? : Option Machine :=
  match m.blocks with
  | b :: bs => some { m with values := keepAbove b.base b.results m.values, blocks := bs }
  | [] => none

/-- The machine after a branch; `none` if the label is the function itself. A
branch to a loop keeps the loop open and goes on behind its start, any other
goes on behind the end of the block. -/
def branch? (depth : Nat) : Option Machine :=
  if depth < m.blocks.length - m.frame.blockBase then
    match m.blocks[depth]? with
    | some b =>
      if b.isLoop then
        some ({ m with values := keepAbove b.base b.params m.values
                       blocks := m.blocks.drop depth }.goto (b.start + 1))
      else
        some ({ m with values := keepAbove b.base b.results m.values
                       blocks := m.blocks.drop (depth + 1) }.goto (b.start + b.stop + 1))
    | none => none
  else none

/-- The operands and blocks that are left when the current frame returns. -/
def unwound : List Raw × List Block :=
  (keepAbove m.frame.valueBase m.frame.results m.values,
    m.blocks.drop (m.blocks.length - m.frame.blockBase))

/-- The machine in a new frame, with the current one waiting behind the call. -/
def call (f : Func) (t : FuncType) (args rest : List Raw) : Machine where
  values := rest
  blocks := m.blocks
  frame := Frame.enter f t args m.blocks.length rest.length
  callers := { m.frame with pc := m.frame.pc + 1 } :: m.callers

/-- The machine that an entry call starts with. -/
def start (f : Func) (t : FuncType) (args : List Value) : Machine where
  values := []
  blocks := []
  frame := Frame.enter f t (args.map Value.toRaw) 0 0
  callers := []

end Machine

end WasmEngine
