import WasmEngine.Compiled.Compile
import WasmEngine.Env

/-!
# Running compiled code

The frames of compiled functions lie in one row of slots. A call puts the frame
of the callee where the caller's arguments are, so that arguments are in place
from the start and results are left where the caller expects them. The row grows
when a frame needs more than there is, and never shrinks.

Runs are bounded: the bound is passed down to the parts of an operation and
decreases with every operation and every round of a loop.
-/

namespace WasmEngine

/-- The state of compiled code: the row of slots, and the world. -/
structure Activation (H : Type) where
  /-- The slots. -/
  slots : Array Raw
  /-- The world. -/
  world : World H

namespace Activation

variable {H α : Type}

/-- Does something to the world. -/
@[inline]
def onWorld (x : Run (World H) α) : Run (Activation H) α := fun a =>
  match a with
  | ⟨slots, w⟩ =>
    match x w with
    | (r, w) => (r, ⟨slots, w⟩)

/-- Reads a slot. -/
@[inline]
def get (i : Nat) : Run (Activation H) Raw := fun a =>
  match a.slots[i]? with
  | some r => (.ok r, a)
  | none => (.error .aborted, a)

/-- Writes a slot. -/
@[inline]
def set (i : Nat) (r : Raw) : Run (Activation H) Unit := fun a =>
  if i < a.slots.size then (.ok (), { a with slots := a.slots.setIfInBounds i r })
  else (.error .aborted, a)

/-- Values written to slots in a row. -/
def writeSlots (slots : Array Raw) (i : Nat) : List Raw → Array Raw
  | [] => slots
  | r :: rs => writeSlots (slots.setIfInBounds i r) (i + 1) rs

/-- Moves values between slots; they may overlap. -/
def move (src dst len : Nat) : Run (Activation H) Unit := fun a =>
  if len = 0 ∨ src = dst then (.ok (), a)
  else if src + len ≤ a.slots.size ∧ dst + len ≤ a.slots.size then
    (.ok (), { a with slots := writeSlots a.slots dst (a.slots.extract src (src + len)).toList })
  else (.error .aborted, a)

/-- Makes room for a frame, and sets its locals other than parameters to zero. -/
def openFrame (f : CompiledFunc) (fp : Nat) : Run (Activation H) Unit := fun a =>
  let slots := a.slots ++ Array.replicate (fp + f.frameSize - a.slots.size) 0
  (.ok (),
    { a with slots := writeSlots slots (fp + f.params) (List.replicate (f.locals - f.params) 0) })

/-- Takes a branch. -/
def take (fp : Nat) (j : Jump) : Run (Activation H) Flow := do
  move (fp + j.src) (fp + j.dst) j.len
  return j.flow

/-- The values of slots in a row, at the types given. -/
def arguments (i : Nat) : List ValType → Run (Activation H) (List Value)
  | [] => return []
  | t :: ts => do
    let r ← get i
    let vs ← arguments (i + 1) ts
    return Value.ofRaw t r :: vs

/-- Writes values to slots in a row. -/
def setResults (i : Nat) : List Value → Run (Activation H) Unit
  | [] => return ()
  | v :: vs => do
    set i v.toRaw
    setResults (i + 1) vs

end Activation

namespace Compiled

open Activation

variable {H : Type}

/-- What an operation without parts does, in the frame at `fp`. -/
def operate (policy : FloatPolicy) (fp : Nat) : Code → Run (Activation H) Unit
  | .unreachable => Run.trap .unreachable
  | .select cond other dst => do
    let c ← get (fp + cond)
    if c.isTrue then return ()
    else set (fp + dst) (← get (fp + other))
  | .copy src dst => do set (fp + dst) (← get (fp + src))
  | .globalGet i dst => do set (fp + dst) (← onWorld (World.global i))
  | .globalSet i src => do
    let r ← get (fp + src)
    onWorld (World.setGlobal i r)
  | .const r dst => set (fp + dst) r
  | .load op arg slot => do
    let base ← get (fp + slot)
    set (fp + slot) (← onWorld (World.load op arg base))
  | .store op arg base => do
    let addr ← get (fp + base)
    let r ← get (fp + base + 1)
    onWorld (World.storeValue op arg addr r)
  | .memorySize dst => do set (fp + dst) (← onWorld World.memorySize)
  | .memoryGrow slot => do
    let delta ← get (fp + slot)
    set (fp + slot) (← onWorld (World.memoryGrow delta))
  | .memoryCopy base => do
    let dst ← get (fp + base)
    let src ← get (fp + base + 1)
    let len ← get (fp + base + 2)
    onWorld (World.memoryCopy dst src len)
  | .memoryFill base => do
    let dst ← get (fp + base)
    let value ← get (fp + base + 1)
    let len ← get (fp + base + 2)
    onWorld (World.memoryFill dst value len)
  | .unary op slot => do
    let a ← get (fp + slot)
    set (fp + slot) (← Run.ofTrap (op.eval policy a))
  | .binary op lhs rhs => do
    let a ← get (fp + lhs)
    let b ← get (fp + rhs)
    set (fp + lhs) (← Run.ofTrap (op.eval policy a b))
  | _ => return ()

/-- What an operation does, in the frame at `fp`, with its parts given: `seq`
runs a sequence, `again` the operation itself and `call` a function. -/
def dispatch (env : Env H) (c : Compiled) (seq : List Code → Run (Activation H) Flow)
    (again : Unit → Run (Activation H) Flow) (call : (func slot : Nat) → Run (Activation H) Unit)
    (fp : Nat) : Code → Run (Activation H) Flow
  | .block body => do return (← seq body).leaveBlock
  | .loop body => do
    match ← seq body with
    | .branch 0 => again ()
    | flow => return flow.leaveBlock
  | .cond slot yes no => do
    let r ← get (fp + slot)
    return (← seq (if r.isTrue then yes else no)).leaveBlock
  | .jump j => take fp j
  | .jumpIf slot j => do
    let r ← get (fp + slot)
    if r.isTrue then take fp j else return .next
  | .jumpTable slot targets default => do
    let r ← get (fp + slot)
    take fp (targets[r.low.toNat]?.getD default)
  | .call func args => do
    call func (fp + args)
    return .next
  | .callIndirect expected table slot args => do
    let r ← get (fp + slot)
    let func ← onWorld (World.tableFunc table r)
    let actual ← Run.need (.funcNotFound func) c.types[func]?
    if actual = expected then
      call func (fp + args)
      return .next
    else Run.trap (.callTypeMismatch expected actual)
  | op => do
    operate env.policy fp op
    return .next

mutual

/-- Calls a function of the module with arguments of the right types. -/
def invoke (env : Env H) (c : Compiled) : (bound func : Nat) → (args : List Value) →
    Run (World H) (List Value)
  | 0, _, _ => Run.halt .exhausted
  | n + 1, func, args =>
    if func < c.imported then env.callHost (env.callExport (invoke env c n)) func args
    else do
      let t ← Run.need (.funcNotFound func) c.types[func]?
      World.enter
      fun w =>
        match execute env c n func 0 ⟨(args.map Value.toRaw).toArray, w⟩ with
        | (.ok (), a) =>
          if a.slots.size < t.results.length then
            (.error (.error (.fault (.lostResults func))), a.world.exits 1)
          else (.ok (List.zipWith Value.ofRaw t.results a.slots.toList), a.world.exits 1)
        | (.error h, a) => (.error h, a.world.exits 1)
termination_by structural bound => bound

/-- Runs a function of the module with its frame at `fp`, where its arguments
are. -/
def execute (env : Env H) (c : Compiled) : (bound func fp : Nat) → Run (Activation H) Unit
  | 0, _, _ => Run.halt .exhausted
  | n + 1, func, fp => do
    let f ← Run.need (.funcNotFound func)
      (if func < c.imported then none else c.funcs[func - c.imported]?)
    openFrame f fp
    let _ ← runSeq env c n fp f.body
termination_by structural bound => bound

/-- Calls a function of the module or of the host, with its arguments from a
slot on. -/
def callAt (env : Env H) (c : Compiled) : (bound func slot : Nat) → Run (Activation H) Unit
  | 0, _, _ => Run.halt .exhausted
  | n + 1, func, slot =>
    if func < c.imported then do
      let t ← Run.need (.funcNotFound func) c.types[func]?
      let args ← arguments slot t.params
      let results ← onWorld (env.callHost (env.callExport (invoke env c n)) func args)
      setResults slot results
    else do
      onWorld World.enter
      (execute env c n func slot).leaving fun a => { a with world := a.world.exits 1 }
termination_by structural bound => bound

/-- Runs operations in a row until one of them leaves the row. -/
def runSeq (env : Env H) (c : Compiled) : (bound fp : Nat) → List Code → Run (Activation H) Flow
  | 0, _, _ => Run.halt .exhausted
  | _ + 1, _, [] => Run.pure .next
  | n + 1, fp, op :: ops => fun a =>
    match runOp env c n fp op a with
    | (.ok .next, a) => runSeq env c n fp ops a
    | r => r
termination_by structural bound => bound

/-- Runs an operation. -/
def runOp (env : Env H) (c : Compiled) : (bound fp : Nat) → Code → Run (Activation H) Flow
  | 0, _, _ => Run.halt .exhausted
  | n + 1, fp, op =>
    dispatch env c (runSeq env c n fp) (fun _ => runOp env c n fp op) (callAt env c n) fp op
termination_by structural bound => bound

end

end Compiled

end WasmEngine
