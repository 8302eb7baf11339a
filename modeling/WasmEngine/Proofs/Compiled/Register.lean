import WasmEngine.Compiled
import WasmEngine.Proofs.Bounded

/-!
# The frame pointer in a register

Where the frame of the running function starts is an argument of everything that
runs in it. An engine has it in a register of its own instead: operations find
their slots from the register on, and a call sets the register to the frame of
the callee and sets it back when the callee is done, whatever has come of it. A
run with a register is written out here, next to the one without
(`WasmEngine.Context.execute`), and the two are the same: a call does to the
slots and the world what it does with the frame pointer as an argument, and has
the register as it was (`WasmEngine.Context.execute_eq`).
-/

namespace WasmEngine

open Run Activation

/-- The state of compiled code, with the frame pointer in a register. -/
structure Context (H : Type) where
  /-- Where the frame of the running function starts. -/
  fp : Nat
  /-- The slots and the world. -/
  activation : Activation H

namespace Context

variable {H α β : Type}

/-- Reads the register. -/
def register : Run (Context H) Nat := fun s => (.ok s.fp, s)

/-- Does something in the frame that the register has. -/
def here (x : (fp : Nat) → Run (Activation H) α) : Run (Context H) α := fun s =>
  match x s.fp s.activation with
  | (r, a) => (r, { s with activation := a })

/-- Runs with another frame in the register, and sets it back, whatever comes of
it. -/
def framed (fp : Nat) (x : Run (Context H) α) : Run (Context H) α := fun s =>
  match x { s with fp := fp } with
  | (r, s') => (r, { s' with fp := s.fp })

/-- What an operation does in the frame that the register has; `call` finds
arguments from a slot of the frame on. -/
def dispatch (env : Env H) (c : Compiled) (seq : List Code → Run (Context H) Flow)
    (again : Unit → Run (Context H) Flow) (call : (func args : Nat) → Run (Context H) Unit) : Code →
    Run (Context H) Flow
  | .block body => do return (← seq body).leaveBlock
  | .loop body => do
    match ← seq body with
    | .branch 0 => again ()
    | flow => return flow.leaveBlock
  | .cond slot yes no => do
    let r ← here fun fp => get (fp + slot)
    return (← seq (if r.isTrue then yes else no)).leaveBlock
  | .jump j => here fun fp => take fp j
  | .jumpIf slot j => do
    let r ← here fun fp => get (fp + slot)
    if r.isTrue then here fun fp => take fp j else return .next
  | .jumpTable slot targets default => do
    let r ← here fun fp => get (fp + slot)
    here fun fp => take fp (targets[r.low.toNat]?.getD default)
  | .call func args => do
    call func args
    return .next
  | .callIndirect expected table slot args => do
    let r ← here fun fp => get (fp + slot)
    let func ← here fun _ => onWorld (World.tableFunc table r)
    let actual ← Run.need (.funcNotFound func) c.types[func]?
    if actual = expected then
      call func args
      return .next
    else Run.trap (.callTypeMismatch expected actual)
  | op => do
    here fun fp => Compiled.operate env.policy fp op
    return .next

mutual

/-- Calls a function of the module with arguments of the right types, in slots
of its own. -/
def invoke (env : Env H) (c : Compiled) : (bound func : Nat) → (args : List Value) →
    Run (World H) (List Value)
  | 0, _, _ => Run.halt .exhausted
  | n + 1, func, args =>
    if func < c.imported then env.callHost (env.callExport (invoke env c n)) func args
    else do
      let t ← Run.need (.funcNotFound func) c.types[func]?
      World.enter
      fun w =>
        match execute env c n func 0 ⟨0, (args.map Value.toRaw).toArray, w⟩ with
        | (.ok (), s) =>
          if s.activation.slots.size < t.results.length then
            (.error (.error (.fault (.lostResults func))), s.activation.world.exits 1)
          else
            (.ok (List.zipWith Value.ofRaw t.results s.activation.slots.toList),
              s.activation.world.exits 1)
        | (.error h, s) => (.error h, s.activation.world.exits 1)
termination_by structural bound => bound

/-- Runs a function of the module with its frame at `fp`, whatever the register
has. -/
def execute (env : Env H) (c : Compiled) : (bound func fp : Nat) → Run (Context H) Unit
  | 0, _, _ => Run.halt .exhausted
  | n + 1, func, fp => do
    let f ← Run.need (.funcNotFound func)
      (if func < c.imported then none else c.funcs[func - c.imported]?)
    here fun _ => openFrame f fp
    let _ ← framed fp (runSeq env c n f.body)
termination_by structural bound => bound

/-- Calls a function of the module or of the host, with its arguments from a
slot of the frame on. -/
def callAt (env : Env H) (c : Compiled) : (bound func args : Nat) → Run (Context H) Unit
  | 0, _, _ => Run.halt .exhausted
  | n + 1, func, args => do
    let slot := (← register) + args
    if func < c.imported then
      let t ← Run.need (.funcNotFound func) c.types[func]?
      let args ← here fun _ => arguments slot t.params
      let results ← here fun _ => onWorld (env.callHost (env.callExport (invoke env c n)) func args)
      here fun _ => setResults slot results
    else
      here fun _ => onWorld World.enter
      (execute env c n func slot).leaving fun s =>
        { s with activation.world := s.activation.world.exits 1 }
termination_by structural bound => bound

/-- Runs operations in a row until one of them leaves the row. -/
def runSeq (env : Env H) (c : Compiled) : (bound : Nat) → List Code → Run (Context H) Flow
  | 0, _ => Run.halt .exhausted
  | _ + 1, [] => Run.pure .next
  | n + 1, op :: ops => fun s =>
    match runOp env c n op s with
    | (.ok .next, s) => runSeq env c n ops s
    | r => r
termination_by structural bound => bound

/-- Runs an operation. -/
def runOp (env : Env H) (c : Compiled) : (bound : Nat) → Code → Run (Context H) Flow
  | 0, _ => Run.halt .exhausted
  | n + 1, op => dispatch env c (runSeq env c n) (fun _ => runOp env c n op) (callAt env c n) op
termination_by structural bound => bound

end

/-! ### Runs in the frame of the register -/

theorem here_bind (x : Nat → Run (Activation H) α) (g : Nat → α → Run (Activation H) β) :
    (here fun fp => x fp >>= g fp) = here x >>= fun a => here fun fp => g fp a := by
  funext s
  rw [here, bind_apply, bind_apply, here]
  rcases x s.fp s.activation with ⟨_ | a, a'⟩
  · rfl
  · rfl

theorem here_pure (a : α) : (here fun _ => Pure.pure a : Run (Context H) α) = Pure.pure a := rfl

theorem here_need (e : Fault) (x : Option α) : (here fun _ => Run.need e x : Run (Context H) α) =
    Run.need e x := by
  cases x <;> rfl

theorem here_leaving (x : Nat → Run (Activation H) α) (f : Activation H → Activation H) :
    (here fun fp => (x fp).leaving f) = (here x).leaving fun s =>
    { s with activation := f s.activation } := rfl

/-- A run in another frame leaves the register alone. -/
theorem framed_here (fp : Nat) (x : Nat → Run (Activation H) α) :
    framed fp (here x) = here fun _ => x fp := rfl

theorem here_ite {p : Prop} [Decidable p] (x y : Nat → Run (Activation H) α) :
    (here fun fp => if p then x fp else y fp) = if p then here x else here y := by
  split <;> rfl

/-- An operation stays in the frame of the register if its parts do. -/
theorem dispatch_here (env : Env H) (c : Compiled) (seq : Nat → List Code → Run (Activation H) Flow)
    (again : Nat → Run (Activation H) Flow) (call : Nat → Nat → Run (Activation H) Unit)
    (op : Code) :
    dispatch env c (fun ops => here fun fp => seq fp ops) (fun _ => here again)
      (fun func args => here fun fp => call func (fp + args)) op =
      here fun fp => Compiled.dispatch env c (seq fp) (fun _ => again fp) call fp op := by
  cases op with
  | loop body =>
    simp only [dispatch, Compiled.dispatch, here_bind]
    refine congrArg _ (funext fun flow => ?_)
    rcases flow with _ | _ | _
    · rfl
    · next depth => cases depth <;> rfl
    · rfl
  | jump j => rfl
  | jumpIf slot j => simp only [dispatch, Compiled.dispatch, here_bind, here_ite, here_pure]
  | callIndirect expected table slot args =>
    simp only [dispatch, Compiled.dispatch, here_bind, here_ite, here_need, here_pure]
    rfl
  | _ => simp only [dispatch, Compiled.dispatch, here_bind, here_pure]

/-- **The register has the frame pointer that is an argument otherwise**, as far
as the bound `n` goes. -/
structure Faithful (env : Env H) (c : Compiled) (n : Nat) : Prop where
  invoke : ∀ func args, invoke env c n func args = Compiled.invoke env c n func args
  execute : ∀ func fp, execute env c n func fp = here fun _ => Compiled.execute env c n func fp
  callAt : ∀ func args, callAt env c n func args = here fun fp => Compiled.callAt env c
    n func (fp + args)
  runSeq : ∀ ops, runSeq env c n ops = here fun fp => Compiled.runSeq env c n fp ops
  runOp : ∀ op, runOp env c n op = here fun fp => Compiled.runOp env c n fp op

namespace Faithful

variable {env : Env H} {c : Compiled} {n : Nat}

theorem invoke_eq (h : Faithful env c n) : Context.invoke env c n = Compiled.invoke env c n :=
  funext fun func => funext (h.invoke func)

theorem invoke_succ (h : Faithful env c n) (func : Nat) (args : List Value) :
    Context.invoke env c (n + 1) func args = Compiled.invoke env c (n + 1) func args := by
  rw [Context.invoke, Compiled.invoke, h.invoke_eq, h.execute]
  split
  · rfl
  · refine congrArg _ (funext fun t => congrArg _ (funext fun _ => funext fun w => ?_))
    rw [here]
    rcases Compiled.execute env c n func 0 ⟨(args.map Value.toRaw).toArray, w⟩ with ⟨_ | _, a⟩
    · rfl
    · rfl

theorem execute_succ (h : Faithful env c n) (func fp : Nat) :
    Context.execute env c (n + 1) func fp = here fun _ => Compiled.execute env c
      (n + 1) func fp := by
  simp only [Context.execute, Compiled.execute, h.runSeq, framed_here, here_bind,
    here_need, here_pure]

theorem callAt_succ (h : Faithful env c n) (func args : Nat) :
    Context.callAt env c (n + 1) func args = here fun fp => Compiled.callAt env c (n + 1)
      func (fp + args) := by
  -- The slot is read off the register before anything runs.
  suffices hslot : Context.callAt env c (n + 1) func args =
      register >>= fun fp => here fun _ => Compiled.callAt env c (n + 1) func (fp + args) from hslot
  simp only [Context.callAt, Compiled.callAt, h.invoke_eq, h.execute, here_ite, here_bind,
    here_need, here_leaving]

theorem runSeq_succ (h : Faithful env c n) (ops : List Code) :
    Context.runSeq env c (n + 1) ops = here fun fp => Compiled.runSeq env c (n + 1) fp ops := by
  cases ops with
  | nil => rfl
  | cons op ops =>
    funext s
    simp only [Context.runSeq, h.runOp, h.runSeq, here, Compiled.runSeq]
    -- Whether the row goes on or is left, the register is still that of the frame.
    rcases Compiled.runOp env c n s.fp op s.activation with ⟨_ | _ | _ | _, a⟩
    · rfl
    · rfl
    · rfl
    · rfl

theorem runOp_succ (h : Faithful env c n) (op : Code) :
    Context.runOp env c (n + 1) op = here fun fp => Compiled.runOp env c (n + 1) fp op := by
  have hseq : Context.runSeq env c n = fun ops => here fun fp => Compiled.runSeq env c n fp
    ops := funext h.runSeq
  have hcall : Context.callAt env c n = fun func args => here fun fp => Compiled.callAt env c n
      func (fp + args) :=
    funext fun func => funext (h.callAt func)
  rw [Context.runOp, hseq, hcall, h.runOp]
  exact dispatch_here env c (fun fp => Compiled.runSeq env c n fp)
    (fun fp => Compiled.runOp env c n fp op) (Compiled.callAt env c n) op

end Faithful

theorem faithful (env : Env H) (c : Compiled) (n : Nat) : Faithful env c n := by
  induction n with
  | zero => exact ⟨fun _ _ => rfl, fun _ _ => rfl, fun _ _ => rfl, fun _ => rfl, fun _ => rfl⟩
  | succ n ih =>
    exact ⟨ih.invoke_succ, ih.execute_succ, ih.callAt_succ, ih.runSeq_succ, ih.runOp_succ⟩

/-- **A call has the register as it was**, whatever comes of it, and does to the
slots and the world what it does with the frame pointer as an argument. -/
theorem execute_eq (env : Env H) (c : Compiled) (n func fp : Nat) (s : Context H) :
    execute env c n func fp s =
      ((Compiled.execute env c n func fp s.activation).1,
        ⟨s.fp, (Compiled.execute env c n func fp s.activation).2⟩) := by
  rw [(faithful env c n).execute]
  rfl

end Context

end WasmEngine
