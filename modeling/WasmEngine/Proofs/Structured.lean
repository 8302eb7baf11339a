import WasmEngine.Env
import WasmEngine.Proofs.Nested
import WasmEngine.Proofs.Bounded

/-!
# What nested code means

A reference semantics of function bodies that knows no positions and no offsets.
A block runs its body on its own parameters, with the operands below it out of
reach; a **branch** leaves as many constructs as it says, and the one it reaches
takes as many values as its label carries: a loop starts over with them, every
other construct ends with them. A branch out of the outermost construct leaves
the function (`WasmEngine.Structured.Outcome.results`).

The body of a called function is run in the same way, on locals of its own; the
calls that are made are written to a log with their arguments
(`WasmEngine.Logged`), so that two executions can be compared call by call.

What runs again is bounded: `WasmEngine.Structured.exec` follows the code
structurally and hands the body of a called function, and a loop that starts
over, to `again`; `WasmEngine.Structured.run` ties the knot with one less of the
bound. Nothing else takes from it. So this semantics needs no greater bound than
any way of executing the same code step by step, which is what
`WasmEngine.Run.Tracks` asks for.
-/

namespace WasmEngine

/-- A call that code makes: the function, and its arguments in order. -/
structure Call where
  /-- The function. -/
  func : Nat
  /-- The arguments, the first one first. -/
  args : List Raw
  deriving DecidableEq

/-- A world with the calls that were made so far, the latest first. -/
structure Logged (H : Type) where
  /-- The world. -/
  world : World H
  /-- The calls. -/
  calls : List Call := []

namespace Logged

variable {H α β : Type}

/-- Does something to the world. -/
def onWorld (x : Run (World H) α) : Run (Logged H) α := fun l =>
  match x l.world with
  | (r, w) => (r, { l with world := w })

theorem onWorld_eq {x : Run (World H) α} {w w' : World H} {r : Except Halt α} (calls : List Call)
    (h : x w = (r, w')) : onWorld x ⟨w, calls⟩ = (r, ⟨w', calls⟩) := by
  simp only [onWorld, h]

/-- Does something in a world with a log of its own, which is then thrown away. -/
def apart (x : Run (Logged H) α) : Run (World H) α := fun w =>
  match x ⟨w, []⟩ with
  | (r, l) => (r, l.world)

theorem apart_onWorld_bind (x : Run (World H) α) (f : α → Run (Logged H) β) :
    apart (onWorld x >>= f) = x >>= fun a => apart (f a) := by
  funext w
  simp only [apart, onWorld, Run.bind_apply]
  rcases x w with ⟨_ | a, w'⟩ <;> rfl

theorem apart_bind_pure (x : Run (Logged H) α) (f : α → β) :
    apart (x >>= fun a => Pure.pure (f a)) = apart x >>= fun a => Pure.pure (f a) := by
  funext w
  simp only [apart, Run.bind_apply]
  rcases x ⟨w, []⟩ with ⟨_ | a, l⟩ <;> rfl

theorem apart_bind_pure_apply (x : Run (Logged H) α) (f : α → β) (w : World H) :
    (apart x >>= fun a => Pure.pure (f a)) w = ((x ⟨w, []⟩).1.map f, (x ⟨w, []⟩).2.world) := by
  rw [Run.bind_apply, apart]
  rcases x ⟨w, []⟩ with ⟨_ | _, l⟩ <;> rfl

/-- Writes a call to the log. -/
def note (c : Call) : Run (Logged H) Unit := fun l => (.ok (), { l with calls := c :: l.calls })

/-- The log with units of call depth returned in its world. -/
def exits (n : Nat) (l : Logged H) : Logged H := { l with world := l.world.exits n }

end Logged

namespace Structured

/-- The locals of an active function, and the operands of the construct at hand,
the top first. -/
structure State where
  /-- The locals. -/
  locals : Array Raw
  /-- The operands. -/
  operands : List Raw

/-- How a piece of code ends. -/
inductive Outcome
  /-- At its end. -/
  | next (s : State)
  /-- By a branch that leaves so many more constructs. -/
  | branch (depth : Nat) (s : State)
  /-- By a return. -/
  | ret (s : State)

namespace Outcome

/-- What the body of a construct makes of the construct: a branch to its label
ends it with `arity` values, and at its end the operands below are back in
reach. -/
def leave (arity : Nat) (below : List Raw) : Outcome → Outcome
  | .next s => .next { s with operands := s.operands ++ below }
  | .branch 0 s => .next { s with operands := s.operands.take arity ++ below }
  | .branch (d + 1) s => .branch d s
  | .ret s => .ret s

/-- What the body of a loop makes of the loop: a branch to its label starts
over, with `params` values. -/
def orRestart {σ : Type} (params results : Nat) (below : List Raw)
    (restart : State → Run σ Outcome) : Outcome → Run σ Outcome
  | .branch 0 s => restart { s with operands := s.operands.take params ++ below }
  | o => return o.leave results below

/-- What follows is run only if the end is reached. -/
def andThen {σ : Type} (o : Outcome) (k : State → Run σ Outcome) : Run σ Outcome :=
  match o with
  | .next s => k s
  | o => return o

/-- The results of a function of so many results, the last one first, however
its body ended. -/
def results (count : Nat) : Outcome → List Raw
  | .next s | .branch _ s | .ret s => s.operands.take count

end Outcome

variable {H σ : Type}

/-- The top operand and the state without it. -/
def pop (s : State) : Run σ (Raw × State) :=
  match s.operands with
  | v :: vs => return (v, { s with operands := vs })
  | [] => Run.fault .valueUnderflow

/-- As many operands from the top, and the others. -/
def split (n : Nat) (vs : List Raw) : Run σ (List Raw × List Raw) :=
  if vs.length < n then Run.fault .valueUnderflow else return (vs.take n, vs.drop n)

/-- The number of parameters and results of a construct. -/
def arity (env : Env H) : BlockArgs → Run σ (Nat × Nat)
  | .empty => return (0, 0)
  | .value _ => return (0, 1)
  | .func i => do
    let t ← Run.need (.typeNotFound i) env.mod.types[i]?
    return (t.params.length, t.results.length)

/-- What an instruction does that neither branches nor calls. -/
def operate (env : Env H) (op : Plain) (s : State) : Run (World H) State :=
  match op, s.operands with
  | .nop, _ => return s
  | .unreachable, _ => Run.trap .unreachable
  | .drop, _ :: vs => return { s with operands := vs }
  | .select, c :: b :: a :: vs => return { s with operands := (if c.isTrue then a else b) :: vs }
  | .localGet i, vs => do
    let r ← Run.need (.localNotFound i) s.locals[i]?
    return { s with operands := r :: vs }
  | .localSet i, r :: vs =>
    if i < s.locals.size then return ⟨s.locals.setIfInBounds i r, vs⟩
    else Run.fault (.localNotFound i)
  | .localTee i, r :: vs =>
    if i < s.locals.size then return ⟨s.locals.setIfInBounds i r, r :: vs⟩
    else Run.fault (.localNotFound i)
  | .globalGet i, vs => do return { s with operands := (← World.global i) :: vs }
  | .globalSet i, r :: vs => do
    World.setGlobal i r
    return { s with operands := vs }
  | .load op arg, base :: vs => do return { s with operands := (← World.load op arg base) :: vs }
  | .store op arg, r :: base :: vs => do
    World.storeValue op arg base r
    return { s with operands := vs }
  | .memorySize _, vs => do return { s with operands := (← World.memorySize) :: vs }
  | .memoryGrow _, delta :: vs => do return { s with operands := (← World.memoryGrow delta) :: vs }
  | .memoryCopy _ _, len :: src :: dst :: vs => do
    World.memoryCopy dst src len
    return { s with operands := vs }
  | .memoryFill _, len :: value :: dst :: vs => do
    World.memoryFill dst value len
    return { s with operands := vs }
  | .const v, vs => return { s with operands := v.toRaw :: vs }
  | .unary op, a :: vs =>
    do return { s with operands := (← Run.ofTrap (op.eval env.policy a)) :: vs }
  | .binary op, b :: a :: vs =>
    do return { s with operands := (← Run.ofTrap (op.eval env.policy a b)) :: vs }
  | _, _ => Run.fault .valueUnderflow

/-! ### Calls

The bodies of the functions that the module defines are numbered as its
functions are. Both ways back into code are parameters: `invoke` for the calls
of host functions, `again` for the body of a called function. -/

section Calls

variable (env : Env H) (bodies : Nat → Nested)
  (invoke : Nat → List Value → Run (World H) (List Value))
  (again : Nested → State → Run (Logged H) Outcome)

/-- Runs the body of an active function of so many results on its locals. The
results come back with the last one first, and the unit of call depth is
returned. -/
def finish (count : Nat) (body : Nested) (locals : Array Raw) : Run (Logged H) (List Raw) := do
  let o ← (again body ⟨locals, []⟩).leaving (Logged.exits 1)
  return o.results count

/-- Takes a unit of call depth and runs the body of a function with the
arguments given. -/
def enter (func : Nat) (f : Func) (t : FuncType) (args : List Raw) : Run (Logged H) (List Raw) := do
  Logged.onWorld World.enter
  finish again t.results.length (bodies (func - env.imported))
    (args ++ List.replicate (t.params.length + f.locals.length - args.length) 0).toArray

/-- Calls a function with the operands on top. -/
def call (func : Nat) (s : State) : Run (Logged H) State := do
  if func < env.imported then
    let t ← Run.need (.funcNotFound func) (env.mod.funcType? func)
    let (args, rest) ← split t.params.length s.operands
    Logged.note ⟨func, args.reverse⟩
    let results ← Logged.onWorld
      (env.callHost (env.callExport invoke) func (List.zipWith Value.ofRaw t.params args.reverse))
    return { s with operands := (results.map Value.toRaw).reverse ++ rest }
  else
    let (f, t) ← Run.need (.funcNotFound func) (env.defined? func)
    let (args, rest) ← split t.params.length s.operands
    Logged.note ⟨func, args.reverse⟩
    let results ← enter env bodies again func f t args.reverse
    return { s with operands := results ++ rest }

/-- Calls the function at an entry of a table. -/
def callTable (type table : Nat) (s : State) : Run (Logged H) State := do
  let (index, s) ← pop s
  let func ← Logged.onWorld (World.tableFunc table index)
  let expected ← Run.need (.typeNotFound type) env.mod.types[type]?
  let actual ← Run.need (.funcNotFound func) (env.mod.funcType? func)
  if actual = expected then call env bodies invoke again func s
  else Run.trap (.callTypeMismatch expected actual)

/-- A plain instruction. -/
def plain (op : Plain) (s : State) : Run (Logged H) Outcome :=
  match op with
  | .br depth => return .branch depth s
  | .brIf depth => do
    let (c, s) ← pop s
    return if c.isTrue then .branch depth s else .next s
  | .ret => return .ret s
  | .call func => do return .next (← call env bodies invoke again func s)
  | .callIndirect type table => do return .next (← callTable env bodies invoke again type table s)
  | op => do return .next (← Logged.onWorld (operate env op s))

end Calls

/-! ### Code -/

/-- A construct without a way to start over: the body is run on the parameters. -/
def construct (env : Env H) (args : BlockArgs) (s : State) (body : State → Run (Logged H) Outcome) :
    Run (Logged H) Outcome := do
  let (params, results) ← arity env args
  let (ins, below) ← split params s.operands
  return (← body { s with operands := ins }).leave results below

/-- **What nested code does**, as far as nothing runs again. -/
def exec (env : Env H) (bodies : Nat → Nested)
    (invoke : Nat → List Value → Run (World H) (List Value))
    (again : Nested → State → Run (Logged H) Outcome) : Nested → State → Run (Logged H) Outcome
  | .done, s => return .next s
  | .plain op next, s => do
    (← plain env bodies invoke again op s).andThen (exec env bodies invoke again next)
  | .brTable labels default _, s => do
    let (c, s) ← pop s
    return .branch (labels[c.low.toNat]?.getD default) s
  | .block args body next, s => do
    (← construct env args s (exec env bodies invoke again body)).andThen
      (exec env bodies invoke again next)
  | .loop args body next, s => do
    let (params, results) ← arity env args
    let (ins, below) ← split params s.operands
    let o ← exec env bodies invoke again body { s with operands := ins }
    (← o.orRestart params results below (again (.loop args body .done))).andThen
      (exec env bodies invoke again next)
  | .cond args body next, s => do
    let (c, s) ← pop s
    if c.isTrue then
      (← construct env args s (exec env bodies invoke again body)).andThen
        (exec env bodies invoke again next)
    else exec env bodies invoke again next s
  | .condElse args body alt next, s => do
    let (c, s) ← pop s
    let arm := fun s =>
      if c.isTrue then exec env bodies invoke again body s else exec env bodies invoke again alt s
    (← construct env args s arm).andThen (exec env bodies invoke again next)

mutual

/-- **What nested code does**, within a bound. -/
def run (env : Env H) (bodies : Nat → Nested) : (bound : Nat) → Nested → State →
    Run (Logged H) Outcome
  | 0, _, _ => Run.halt .exhausted
  | n + 1, code, s => exec env bodies (invoke env bodies n) (run env bodies n) code s

/-- Calls a function of the module with arguments of the right types. -/
def invoke (env : Env H) (bodies : Nat → Nested) :
    (bound func : Nat) → (args : List Value) → Run (World H) (List Value)
  | 0, _, _ => Run.halt .exhausted
  | n + 1, func, args =>
    if func < env.imported then env.callHost (env.callExport (invoke env bodies n)) func args
    else do
      let (f, t) ← Run.need (.funcNotFound func) (env.defined? func)
      let rs ← Logged.apart (enter env bodies (run env bodies n) func f t (args.map Value.toRaw))
      return List.zipWith Value.ofRaw t.results rs.reverse

end

end Structured

end WasmEngine
