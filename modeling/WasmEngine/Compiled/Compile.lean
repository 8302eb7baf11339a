import WasmEngine.Compiled.Code
import WasmEngine.Module
import WasmEngine.Run

/-!
# Compilation

Compiles the flat code of a function by following how high the operand stack is.
The height is known at every instruction that can be reached, so each operand
gets a fixed slot; the code behind an operation that does not go on is skipped.

Compilation goes forward through the code: a block is compiled from behind its
start to its end, whatever distance it gives, and what follows from behind its
end. So it ends on all code, also on code whose distances make no sense. Where
they point behind the last instruction there is nothing to compile, and it is
aborted.
-/

namespace WasmEngine

/-- A label in scope. -/
structure Label where
  /-- The operand height below the parameters of its block. -/
  base : Nat
  /-- The number of values a branch to it carries. -/
  arity : Nat
  deriving DecidableEq

/-- The operand height, and the greatest so far. -/
structure Heights where
  /-- The height here. -/
  current : Nat := 0
  /-- The greatest height. -/
  greatest : Nat := 0
  deriving DecidableEq

namespace Heights

/-- Another height. -/
def set (h : Heights) (n : Nat) : Heights := ⟨n, max h.greatest n⟩

/-- More operands. -/
def push (h : Heights) (n : Nat) : Heights := h.set (h.current + n)

/-- Fewer operands. -/
def pop (h : Heights) (n : Nat) : Heights := { h with current := h.current - n }

end Heights

/-- The function that is being compiled. -/
structure Body where
  /-- The module it belongs to. -/
  mod : Module
  /-- Its code. -/
  code : Array Instr
  /-- The number of its parameters and locals. -/
  locals : Nat
  /-- The number of its results. -/
  results : Nat

/-- What an instruction becomes. -/
inductive Emit
  /-- An operation. -/
  | op (c : Code)
  /-- An operation that does not go on. -/
  | last (c : Code)
  /-- Nothing. -/
  | nothing

namespace Body

variable (b : Body)

/-- A complaint about the code. -/
def fault {α : Type} (f : Fault) : Except Halt α := .error (.error (.fault f))

/-- The slot of the operand at a height. -/
def slot (height : Nat) : Nat := b.locals + height

/-- Requires operands for the instruction at an index. -/
def require (index n : Nat) (h : Heights) : Except Halt Unit :=
  if h.current < n then fault (.operandUnderflow index) else .ok ()

/-- The number of parameters and results of a block. -/
def arity : BlockArgs → Except Halt (Nat × Nat)
  | .empty => .ok (0, 0)
  | .value _ => .ok (0, 1)
  | .func i =>
    match b.mod.types[i]? with
    | some t => .ok (t.params.length, t.results.length)
    | none => fault (.typeNotFound i)

/-- The label of a block whose parameters are on top, and the number of its
results. -/
def label (args : BlockArgs) (isLoop : Bool) (h : Heights) : Except Halt (Label × Nat) := do
  let (params, results) ← b.arity args
  if h.current < params then fault .blockParams
  else return (⟨h.current - params, if isLoop then params else results⟩, results)

/-- The branch that leaves the function. -/
def returnJump (h : Heights) : Except Halt Jump :=
  if h.current < b.results then fault .missingResults
  else .ok ⟨b.slot (h.current - b.results), 0, b.results, .ret⟩

/-- The branch to a label; outside of all blocks it leaves the function. -/
def jump (labels : List Label) (h : Heights) (depth : Nat) : Except Halt Jump :=
  match labels[depth]? with
  | none => b.returnJump h
  | some l =>
    if h.current < l.arity then fault .missingBranchValues
    else .ok ⟨b.slot (h.current - l.arity), b.slot l.base, l.arity, .branch depth⟩

/-- The branch for a label of a branch table. -/
def tableJump (labels : List Label) (h : Heights) : Instr → Except Halt Jump
  | .brLabel depth => b.jump labels h depth
  | _ => fault .brTableLabel

/-- Compiles a plain instruction. -/
def compilePlain (labels : List Label) (index : Nat) (h : Heights) :
    Plain → Except Halt (Emit × Heights)
  | .nop => return (.nothing, h)
  | .unreachable => return (.last .unreachable, h)
  | .br depth => return (.last (.jump (← b.jump labels h depth)), h)
  | .brIf depth => do
    require index 1 h
    let h := h.pop 1
    return (.op (.jumpIf (b.slot h.current) (← b.jump labels h depth)), h)
  | .ret => return (.last (.jump (← b.returnJump h)), h)
  | .call func => do
    match b.mod.funcType? func with
    | none => fault (.funcNotFound func)
    | some t =>
      require index t.params.length h
      let h := h.pop t.params.length
      return (.op (.call func (b.slot h.current)), h.push t.results.length)
  | .callIndirect type table => do
    match b.mod.types[type]? with
    | none => fault (.typeNotFound type)
    | some t =>
      require index 1 h
      let h := h.pop 1
      let selector := b.slot h.current
      require index t.params.length h
      let h := h.pop t.params.length
      return (.op (.callIndirect t table selector (b.slot h.current)), h.push t.results.length)
  | .drop => do
    require index 1 h
    return (.nothing, h.pop 1)
  | .select => do
    require index 3 h
    let h := h.pop 2
    return (.op (.select (b.slot (h.current + 1)) (b.slot h.current) (b.slot (h.current - 1))), h)
  | .localGet i => return (.op (.copy i (b.slot h.current)), h.push 1)
  | .localSet i => do
    require index 1 h
    let h := h.pop 1
    return (.op (.copy (b.slot h.current) i), h)
  | .localTee i => do
    require index 1 h
    return (.op (.copy (b.slot (h.current - 1)) i), h)
  | .globalGet i => return (.op (.globalGet i (b.slot h.current)), h.push 1)
  | .globalSet i => do
    require index 1 h
    let h := h.pop 1
    return (.op (.globalSet i (b.slot h.current)), h)
  | .load op arg => do
    require index 1 h
    return (.op (.load op arg (b.slot (h.current - 1))), h)
  | .store op arg => do
    require index 2 h
    let h := h.pop 2
    return (.op (.store op arg (b.slot h.current)), h)
  | .memorySize _ => return (.op (.memorySize (b.slot h.current)), h.push 1)
  | .memoryGrow _ => do
    require index 1 h
    return (.op (.memoryGrow (b.slot (h.current - 1))), h)
  | .memoryCopy _ _ => do
    require index 3 h
    let h := h.pop 3
    return (.op (.memoryCopy (b.slot h.current)), h)
  | .memoryFill _ => do
    require index 3 h
    let h := h.pop 3
    return (.op (.memoryFill (b.slot h.current)), h)
  | .const v => return (.op (.const v.toRaw (b.slot h.current)), h.push 1)
  | .unary op => do
    require index 1 h
    return (.op (.unary op (b.slot (h.current - 1))), h)
  | .binary op => do
    require index 2 h
    let h := h.pop 1
    return (.op (.binary op (b.slot (h.current - 1)) (b.slot h.current)), h)

/-- Compiles an instruction that opens no block. -/
def compileInstr (labels : List Label) (index : Nat) (h : Heights) :
    Instr → Except Halt (Emit × Heights)
  | .plain op => b.compilePlain labels index h op
  | .brTable default count => do
    require index 1 h
    let h := h.pop 1
    if b.code.size < index + 1 + count then fault (.brTableAt index)
    else
      let targets ← (b.code.extract (index + 1) (index + 1 + count)).toList.mapM
        (b.tableJump labels h)
      let default ← b.jump labels h default
      return (.last (.jumpTable (b.slot h.current) targets default), h)
  | .orElse stop => fault (.unexpected (Text.applied "Else" [toString stop]) index)
  | .brLabel depth => fault (.unexpected (Text.applied "BrLabel" [toString depth]) index)
  | _ => fault (.unexpected "EndBlockFrame" index)

/-- Compiles the instructions from one position up to another. -/
def compileSeq (labels : List Label) (pos stop : Nat) (h : Heights) :
    Except Halt (List Code × Heights) :=
  if pos < stop then
    if _ : pos < b.code.size then
      match b.code[pos] with
      | .block args len => do
        let (l, results) ← b.label args false h
        let (body, h) ← compileSeq (l :: labels) (pos + 1) (pos + len) h
        let (rest, h) ← compileSeq labels (pos + len + 1) stop (h.set (l.base + results))
        return (.block body :: rest, h)
      | .loop args len => do
        let (l, results) ← b.label args true h
        let (body, h) ← compileSeq (l :: labels) (pos + 1) (pos + len) h
        let (rest, h) ← compileSeq labels (pos + len + 1) stop (h.set (l.base + results))
        return (.loop body :: rest, h)
      | .cond args alt len => do
        require pos 1 h
        let h := h.pop 1
        let slot := b.slot h.current
        let height := h.current
        let (l, results) ← b.label args false h
        if alt = 0 then
          let (yes, h) ← compileSeq (l :: labels) (pos + 1) (pos + len) h
          let (rest, h) ← compileSeq labels (pos + len + 1) stop (h.set (l.base + results))
          return (.cond slot yes [] :: rest, h)
        else
          let (yes, h) ← compileSeq (l :: labels) (pos + 1) (pos + alt) h
          let (no, h) ← compileSeq (l :: labels) (pos + alt + 1) (pos + len)
            { h with current := height }
          let (rest, h) ← compileSeq labels (pos + len + 1) stop (h.set (l.base + results))
          return (.cond slot yes no :: rest, h)
      | i => do
        match ← b.compileInstr labels pos h i with
        | (.op c, h) =>
          let (rest, h) ← compileSeq labels (pos + 1) stop h
          return (c :: rest, h)
        | (.last c, h) => return ([c], h)
        | (.nothing, h) => compileSeq labels (pos + 1) stop h
    else .error .aborted
  else .ok ([], h)
termination_by b.code.size - pos

end Body

namespace Compiled

/-- Compiles a function of a module. -/
def compileFunc (m : Module) (f : Func) : Except Halt CompiledFunc := do
  match m.types[f.type]? with
  | none => Body.fault (.typeNotFound f.type)
  | some t =>
    let locals := t.params.length + f.locals.length
    let b : Body := ⟨m, f.code, locals, t.results.length⟩
    let (body, h) ← b.compileSeq [] 0 f.code.size {}
    return ⟨t.params.length, locals, locals + h.greatest, body⟩

/-- The type of a function, which it must have. -/
def funcType : Option FuncType × Nat → Except Halt FuncType
  | (some t, _) => .ok t
  | (none, func) => Body.fault (.funcNotFound func)

/-- Compiles all functions of a module. -/
def compile (m : Module) : Except Halt Compiled := do
  let types ← m.funcTypes.zipIdx.mapM funcType
  let funcs ← m.funcs.toList.mapM (compileFunc m)
  return ⟨funcs.toArray, types.toArray, m.importedCount⟩

end Compiled

end WasmEngine
