import WasmEngine.Interpreter.Machine

/-!
# One step of the interpreter

What each instruction does to the machine and the world. Operands are popped
before anything else can fail, and a step that fails leaves no machine behind.
-/

namespace WasmEngine

/-- What comes after a step. -/
inductive Progress
  /-- Another step. -/
  | running (m : Machine)
  /-- The entry frame has returned; all that is on the value stack, the bottom
  first. -/
  | finished (values : List Raw)

namespace Machine

variable {H : Type}

/-- The top operand and the others. -/
@[inline]
def pop (vs : List Raw) : Run (World H) (Raw × List Raw) :=
  match vs with
  | v :: vs => return (v, vs)
  | [] => Run.fault .valueUnderflow

/-- As many operands in the order they were pushed, and the others. -/
def popMany (n : Nat) (vs : List Raw) : Run (World H) (List Raw × List Raw) :=
  if vs.length < n then Run.fault .valueUnderflow else return ((vs.take n).reverse, vs.drop n)

/-- The number of parameters and results of a block. -/
def arity (env : Env H) : BlockArgs → Run (World H) (Nat × Nat)
  | .empty => return (0, 0)
  | .value _ => return (0, 1)
  | .func i => do
    let t ← Run.need (.typeNotFound i) env.mod.types[i]?
    return (t.params.length, t.results.length)

/-- Opens a block. -/
def enterBlock (env : Env H) (m : Machine) (args : BlockArgs) (start stop : Nat) (isLoop : Bool) :
    Run (World H) Machine := do
  let (params, results) ← arity env args
  Run.need .valueUnderflow (m.openBlock? start stop params results isLoop)

/-- Returns from the current frame. -/
def leaveFrame (m : Machine) : Run (World H) Progress := fun w =>
  let w := w.exits 1
  match m.callers with
  | [] => (.ok (.finished m.unwound.1.reverse), w)
  | caller :: callers => (.ok (.running ⟨m.unwound.1, m.unwound.2, caller, callers⟩), w)

/-- Branches to a label. -/
def branchTo (m : Machine) (depth : Nat) : Run (World H) Progress :=
  match m.branch? depth with
  | some m => return .running m
  | none => m.leaveFrame

/-- Calls a function with the operands on top. -/
def callFunc (env : Env H) (invoke : Nat → List Value → Run (World H) (List Value))
    (m : Machine) (func : Nat) : Run (World H) Progress := do
  if func < env.imported then
    let t ← Run.need (.funcNotFound func) (env.mod.funcType? func)
    let (args, rest) ← popMany t.params.length m.values
    let results ← env.callHost (env.callExport invoke) func (List.zipWith Value.ofRaw t.params args)
    return .running (m.withValues ((results.map Value.toRaw).reverse ++ rest)).next
  else
    let (f, t) ← Run.need (.funcNotFound func) (env.defined? func)
    let (args, rest) ← popMany t.params.length m.values
    World.enter
    return .running (m.call f t args rest)

/-- Calls the function at an entry of a table. -/
def callTable (env : Env H) (invoke : Nat → List Value → Run (World H) (List Value)) (m : Machine)
    (type table : Nat) : Run (World H) Progress := do
  let (index, rest) ← pop m.values
  let func ← World.tableFunc table index
  let expected ← Run.need (.typeNotFound type) env.mod.types[type]?
  let actual ← Run.need (.funcNotFound func) (env.mod.funcType? func)
  if actual = expected then callFunc env invoke (m.withValues rest) func
  else Run.trap (.callTypeMismatch expected actual)

/-- Opens a conditional, or goes past it. -/
def enterCond (env : Env H) (m : Machine) (args : BlockArgs) (alt stop : Nat) :
    Run (World H) Machine := do
  let pc := m.frame.pc
  let (c, rest) ← pop m.values
  let m := m.withValues rest
  if c.isTrue then enterBlock env m args pc stop false
  else if alt = 0 then return m.goto (pc + stop)
  else
    enterBlock env (m.goto (pc + alt)) args (pc + alt)
      ((stop + 0x100000000 - alt) % 0x100000000) false

/-- The label that an operand selects from the labels of a branch table. -/
def tableLabel (m : Machine) (default count : Nat) : Run (World H) (Nat × List Raw) := do
  let start := m.frame.pc + 1
  if m.frame.code.size < start + count then
    Run.fault (.brTableEnd (start + count) m.frame.code.size)
  else
    let (index, rest) ← pop m.values
    if index.low.toNat < count then
      match m.frame.code[start + index.low.toNat]? with
      | some (.brLabel d) => return (d, rest)
      | _ => Run.fault .brTableLabel
    else return (default, rest)

/-- What a plain instruction other than a call or a branch does; the position is
moved on afterwards. -/
def operate (env : Env H) (m : Machine) : Plain → Run (World H) Machine
  | .unreachable => Run.trap .unreachable
  | .drop => do
    let (_, rest) ← pop m.values
    return m.withValues rest
  | .select => do
    let (c, rest) ← pop m.values
    let (b, rest) ← pop rest
    if c.isTrue then return m.withValues rest
    else
      let (_, rest) ← pop rest
      return m.withValues (b :: rest)
  | .localGet i => do
    let r ← Run.need (.localNotFound i) m.frame.locals[i]?
    return m.push r
  | .localSet i => do
    let (r, rest) ← pop m.values
    if i < m.frame.locals.size then
      return { m with
        values := rest, frame := { m.frame with locals := m.frame.locals.setIfInBounds i r } }
    else Run.fault (.localNotFound i)
  | .localTee i => do
    let (r, _) ← pop m.values
    if i < m.frame.locals.size then
      return { m with frame := { m.frame with locals := m.frame.locals.setIfInBounds i r } }
    else Run.fault (.localNotFound i)
  | .globalGet i => do
    let r ← World.global i
    return m.push r
  | .globalSet i => do
    let (r, rest) ← pop m.values
    World.setGlobal i r
    return m.withValues rest
  | .load op arg => do
    let (base, rest) ← pop m.values
    let r ← World.load op arg base
    return m.withValues (r :: rest)
  | .store op arg => do
    let (r, rest) ← pop m.values
    let (base, rest) ← pop rest
    World.storeValue op arg base r
    return m.withValues rest
  | .memorySize _ => do
    let r ← World.memorySize
    return m.push r
  | .memoryGrow _ => do
    let (delta, rest) ← pop m.values
    let r ← World.memoryGrow delta
    return m.withValues (r :: rest)
  | .memoryCopy _ _ => do
    let (len, rest) ← pop m.values
    let (src, rest) ← pop rest
    let (dst, rest) ← pop rest
    World.memoryCopy dst src len
    return m.withValues rest
  | .memoryFill _ => do
    let (len, rest) ← pop m.values
    let (value, rest) ← pop rest
    let (dst, rest) ← pop rest
    World.memoryFill dst value len
    return m.withValues rest
  | .const v => return m.push v.toRaw
  | .unary op => do
    let (a, rest) ← pop m.values
    let r ← Run.ofTrap (op.eval env.policy a)
    return m.withValues (r :: rest)
  | .binary op => do
    let (b, rest) ← pop m.values
    let (a, rest) ← pop rest
    let r ← Run.ofTrap (op.eval env.policy a b)
    return m.withValues (r :: rest)
  | _ => return m

/-- One step of a plain instruction. -/
def stepPlain (env : Env H) (invoke : Nat → List Value → Run (World H) (List Value)) (m : Machine) :
    Plain → Run (World H) Progress
  | .call func => callFunc env invoke m func
  | .callIndirect type table => callTable env invoke m type table
  | .br depth => m.branchTo depth
  | .brIf depth => do
    let (c, rest) ← pop m.values
    if c.isTrue then (m.withValues rest).branchTo depth
    else return .running (m.withValues rest).next
  | .ret => m.leaveFrame
  | op => do
    let m ← operate env m op
    return .running m.next

/-- One step: the instruction at the current position. -/
def step (env : Env H) (invoke : Nat → List Value → Run (World H) (List Value)) (m : Machine) :
    Run (World H) Progress := do
  match ← Run.need (.pcOutOfBounds m.frame.pc) m.frame.code[m.frame.pc]? with
  | .plain op => stepPlain env invoke m op
  | .block args stop =>
    let m ← enterBlock env m args m.frame.pc stop false
    return .running m.next
  | .loop args stop =>
    let m ← enterBlock env m args m.frame.pc stop true
    return .running m.next
  | .cond args alt stop =>
    let m ← enterCond env m args alt stop
    return .running m.next
  | .orElse stop =>
    let m ← Run.need .blockUnderflow m.closeBlock?
    return .running (m.goto (m.frame.pc + stop)).next
  | .endBlock =>
    let m ← Run.need .blockUnderflow m.closeBlock?
    return .running m.next
  | .brTable default count =>
    let (depth, rest) ← m.tableLabel default count
    (m.withValues rest).branchTo depth
  | .brLabel _ => return .running m.next

end Machine

end WasmEngine
