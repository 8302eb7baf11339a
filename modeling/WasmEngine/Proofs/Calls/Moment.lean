import WasmEngine.Instance
import WasmEngine.Proofs.Related

/-!
# The moments of a call

A call is followed through all that happens in it, whether it comes to an end or
not. A **moment** says how many calls are active, in which world, and what is
about to happen: a call is attempted, calls end, or code simply runs.

Moments are noted by the runs themselves. A run that **takes notes**
(`WasmEngine.Noted`) does what a run does, and lists the moments on its way. Both
ways of executing code are given as such runs, with the number of active calls for
an argument: it is *counted*, never read off the guard. The entry call is one, and
so is every function of the module, every host function and every call that a host
function makes, for as long as it runs. The interpreter keeps the frames that wait
in a list, so there the count is that of the caller and one for each frame;
compiled code nests as its calls do.

To take notes changes nothing. With the notes left out, these are the runs that
execute code (`WasmEngine.Runtime.run_noted`).
-/

namespace WasmEngine

open Run

variable {H σ α β : Type} {active : Nat}

/-- What is about to happen. -/
inductive Event
  /-- Nothing that concerns calls. -/
  | running
  /-- A call is attempted. -/
  | attempt
  /-- So many calls end at once. -/
  | leaving (n : Nat)
  deriving DecidableEq

/-- A moment: the number of active calls, what is about to happen, and the world. -/
structure Moment (H : Type) where
  active : Nat
  event : Event
  world : World H

/-- States with a world in them. -/
class HasWorld (σ : Type) (H : outParam Type) where
  /-- The world of a state. -/
  world : σ → World H
  /-- The state with another world. -/
  put : World H → σ → σ
  world_put : ∀ w s, world (put w s) = w
  put_world : ∀ s, put (world s) s = s
  put_put : ∀ w w' s, put w (put w' s) = put w s

open HasWorld (world)

instance : HasWorld (World H) H where
  world w := w
  put w _ := w
  world_put _ _ := rfl
  put_world _ := rfl
  put_put _ _ _ := rfl

instance : HasWorld (Activation H) H where
  world a := a.world
  put w a := ⟨a.slots, w⟩
  world_put _ _ := rfl
  put_world _ := rfl
  put_put _ _ _ := rfl

/-! ### Runs that take notes -/

/-- **A run that takes notes**: it gives the moments on its way along with its
outcome. -/
def Noted (H σ α : Type) : Type := σ → List (Moment H) × Except Halt α × σ

namespace Noted

/-- The run, with its notes left out. -/
def run (x : Noted H σ α) : Run σ α := fun s => (x s).2

/-- The moments that are noted. -/
def moments (x : Noted H σ α) (s : σ) : List (Moment H) := (x s).1

/-- A run that has nothing to note. -/
def silent (x : Run σ α) : Noted H σ α := fun s => ([], x s)

/-- One run after another, with the notes of both. -/
def bind (x : Noted H σ α) (f : α → Noted H σ β) : Noted H σ β := fun s =>
  match x s with
  | (l, .ok a, s) => (l ++ (f a s).1, (f a s).2)
  | (l, .error h, s) => (l, .error h, s)

instance : Monad (Noted H σ) where
  pure a := silent (Pure.pure a)
  bind := bind

theorem run_bind (x : Noted H σ α) (f : α → Noted H σ β) :
    (x >>= f).run = x.run >>= fun a => (f a).run := by
  funext s
  show (Noted.bind x f s).2 = _
  rw [bind_apply, Noted.bind, run]
  obtain ⟨l, h | a, s'⟩ := x s <;> rfl

@[simp]
theorem run_silent (x : Run σ α) : (silent x : Noted H σ α).run = x := rfl

variable {x : Noted H σ α} {f : α → Noted H σ β} {s s' : σ}

theorem moments_bind_ok {a : α} (h : x.run s = (.ok a, s')) :
    (x >>= f).moments s = x.moments s ++ (f a).moments s' := by
  have hs : x s = (x.moments s, .ok a, s') := Prod.ext rfl h
  show (Noted.bind x f s).1 = _
  rw [Noted.bind, hs]
  rfl

theorem moments_bind_error {e : Halt} (h : x.run s = (.error e, s')) :
    (x >>= f).moments s = x.moments s := by
  have hs : x s = (x.moments s, .error e, s') := Prod.ext rfl h
  show (Noted.bind x f s).1 = _
  rw [Noted.bind, hs]

theorem mem_moments_bind {μ : Moment H} (h : μ ∈ x.moments s) : μ ∈ (x >>= f).moments s := by
  rcases hx : x.run s with ⟨e | a, s'⟩
  · rwa [moments_bind_error hx]
  · rw [moments_bind_ok hx]
    exact List.mem_append_left _ h

/-- What a run ends in, error or value. -/
def catching (x : Noted H σ α) : Noted H σ (Except Error α) := fun s =>
  (x.moments s, x.run.catching s)

@[simp]
theorem run_catching (x : Noted H σ α) : x.catching.run = x.run.catching := rfl

variable [HasWorld σ H]

/-- Notes what is about to happen, with so many calls active. -/
def note (event : Event) (active : Nat) : Noted H σ Unit := fun s =>
  ([⟨active, event, world s⟩], .ok (), s)

/-- What is done to the world of a state. -/
def inWorld (x : Noted H (World H) α) : Noted H σ α := fun s =>
  (x.moments (world s), (x.run (world s)).1, HasWorld.put (x.run (world s)).2 s)

/-- **Attempts a call**, with so many active; if it is not refused, there is one
more. -/
def attempt (active : Nat) : Noted H σ Unit := do
  note .attempt active
  inWorld (silent World.enter)
  note .running (active + 1)

/-- The moment when so many calls end behind a run, if any do. What an exhausted run
leaves is no moment of the program. -/
def ending (active n : Nat) (w : World H) : Except Halt α → List (Moment H)
  | .error .exhausted => []
  | _ => if n = 0 then [] else [⟨active, .leaving n, w⟩]

theorem mem_ending {n : Nat} {w : World H} {r : Except Halt α} {μ : Moment H}
    (h : μ ∈ ending active n w r) :
    r ≠ .error .exhausted ∧ n ≠ 0 ∧ μ = ⟨active, .leaving n, w⟩ := by
  unfold ending at h
  split at h
  · cases h
  · next hr =>
    by_cases hn : n = 0
    · rw [if_pos hn] at h
      cases h
    · rw [if_neg hn] at h
      exact ⟨hr, hn, List.mem_singleton.mp h⟩

/-- **Ends calls** behind a run, as many as go with its outcome. -/
def returning (active : Nat) (n : Except Halt α → Nat) (x : Noted H σ α) : Noted H σ α := fun s =>
  match x s with
  | (l, r, s) => (l ++ ending active (n r) (world s) r, r,
    HasWorld.put ((world s).exits (n r)) s)

/-- A run that ends a call, if that goes with its outcome. -/
def leavingIf (active : Nat) (p : Except Halt α → Bool) (x : Run σ α) : Noted H σ α := fun s =>
  (if p (x s).1 then [⟨active, .leaving 1, world s⟩] else [], x s)

theorem run_note_bind (event : Event) (active : Nat) (x : Unit → Noted H σ α) :
    (note event active >>= x).run = (x ()).run := by
  rw [run_bind]
  rfl

theorem run_attempt (active : Nat) :
    (attempt active : Noted H σ Unit).run =
    (inWorld (silent World.enter) : Noted H σ Unit).run := by
  rw [attempt, run_note_bind, run_bind]
  funext s
  rw [bind_apply]
  rcases (inWorld (silent World.enter) : Noted H σ Unit).run s with ⟨h | _, s'⟩ <;> rfl

end Noted

open Noted

/-! ### Host functions -/

/-- Runs host code, with so many calls active. -/
def HostProg.noted (reenter : String → List Value → Noted H (World H) (List Value)) (active : Nat) :
    HostProg H → Noted H (World H) (List Value)
  | .finish r => do
    note .running active
    silent (.ofExcept r)
  | .look next => fun w => noted reenter active (next w) w
  | .setHost h next => do
    note .running active
    fun w => noted reenter active next { w with host := h }
  | .memory op next => do
    note .running active
    let r ← silent (Run.catching (World.onMemory fun m => m.apply op))
    noted reenter active (next r)
  | .call name args next => do
    note .running active
    let r ← (reenter name args).catching
    noted reenter active (next r)

theorem HostProg.run_noted {reenter : String → List Value → Noted H (World H) (List Value)}
    {reenter' : String → List Value → Run (World H) (List Value)}
    (h : ∀ name args, (reenter name args).run = reenter' name args) (active : Nat)
    (p : HostProg H) : (p.noted reenter active).run = p.run reenter' := by
  induction p with
  | finish r => exact run_note_bind _ _ _
  | look next ih => exact funext fun w => congrFun (ih w) w
  | setHost c next ih =>
    refine (run_note_bind _ _ _).trans (funext fun w => ?_)
    exact congrFun ih { w with host := c }
  | memory op next ih =>
    rw [run_memory, HostProg.noted, run_note_bind, run_bind]
    exact congrArg _ (funext ih)
  | call name args next ih =>
    rw [run_call, HostProg.noted, run_note_bind, run_bind, run_catching, h]
    exact congrArg _ (funext ih)

namespace Env

variable (env : Env H)

/-- Calls a host function, which may call exports with one more active. -/
def notedHost (reenter : Nat → String → List Value → Noted H (World H) (List Value))
    (active func : Nat) (args : List Value) : Noted H (World H) (List Value) := do
  let f ← silent (Run.need (.hostNotLinked func) env.hosts[func]?)
  attempt active
  let results ← returning (active + 1) (fun _ => 1)
    ((f.run args).noted (reenter (active + 1)) (active + 1))
  silent (if results.map Value.type = f.type.results then return results
    else Run.fault (.hostResults func results f.type.results))

/-- Calls an export on behalf of a host function. -/
def notedExport (invoke : Nat → Nat → List Value → Noted H (World H) (List Value)) (active : Nat)
    (name : String) (args : List Value) : Noted H (World H) (List Value) :=
  match env.mod.exportedFunc? name with
  | none => silent (Run.fail (.functionNotFound "env" name))
  | some func => do
    let t ← silent (Run.need (.funcWithoutType func) (env.mod.funcType? func))
    silent (Run.ofExcept (t.checkArguments args))
    invoke active func args

theorem run_notedHost {reenter : Nat → String → List Value → Noted H (World H) (List Value)}
    {reenter' : String → List Value → Run (World H) (List Value)}
    (h : ∀ a name args, (reenter a name args).run = reenter' name args) (active func : Nat)
    (args : List Value) :
    (env.notedHost reenter active func args).run = env.callHost reenter' func args := by
  simp only [notedHost, callHost, run_bind, run_silent, run_attempt]
  refine congrArg _ (funext fun f => ?_)
  rw [← HostProg.run_noted (h (active + 1)) (active + 1), World.guarded, Run.bind_assoc]
  rfl

theorem run_notedExport {invoke : Nat → Nat → List Value → Noted H (World H) (List Value)}
    {invoke' : Nat → List Value → Run (World H) (List Value)}
    (h : ∀ a func args, (invoke a func args).run = invoke' func args) (active : Nat) (name : String)
    (args : List Value) :
    (env.notedExport invoke active name args).run = env.callExport invoke' name args := by
  rw [notedExport, callExport]
  cases env.mod.exportedFunc? name with
  | none => rfl
  | some func => simp only [run_bind, run_silent, h]

end Env

/-! ### The interpreter -/

namespace Machine

variable (env : Env H) (invoke : Nat → Nat → List Value → Noted H (World H) (List Value))
  (active : Nat) (m : Machine)

/-- Calls a function with the operands on top. A function of the module gets a
frame, and what it does is done by the machine later on. -/
def notedCall (func : Nat) : Noted H (World H) Progress :=
  if func < env.imported then do
    let t ← silent (Run.need (.funcNotFound func) (env.mod.funcType? func))
    let (args, rest) ← silent (popMany t.params.length m.values)
    let results ← env.notedHost (env.notedExport invoke) active func
      (List.zipWith Value.ofRaw t.params args)
    return .running (m.withValues ((results.map Value.toRaw).reverse ++ rest)).next
  else do
    let (f, t) ← silent (Run.need (.funcNotFound func) (env.defined? func))
    let (args, rest) ← silent (popMany t.params.length m.values)
    attempt active
    return .running (m.call f t args rest)

/-- Calls the function at an entry of a table. -/
def notedTable (type table : Nat) : Noted H (World H) Progress := do
  let (index, rest) ← silent (pop m.values)
  let func ← silent (World.tableFunc table index)
  let expected ← silent (Run.need (.typeNotFound type) env.mod.types[type]?)
  let actual ← silent (Run.need (.funcNotFound func) (env.mod.funcType? func))
  if actual = expected then notedCall env invoke active (m.withValues rest) func
  else silent (Run.trap (.callTypeMismatch expected actual))

/-- The number of calls that end behind a step: those of all frames when it
fails. -/
def ended : Except Halt Progress → Nat
  | .ok _ => 0
  | .error _ => m.callers.length + 1

/-- Whether a step has left a frame. -/
def leaves : Except Halt Progress → Bool
  | .ok (.running m') => m'.callers.length < m.callers.length
  | .ok (.finished _) => true
  | .error _ => false

/-- One step. If it is no call and leaves a frame, then it ends a call. -/
def notedStep : Noted H (World H) Progress :=
  match m.frame.code[m.frame.pc]? with
  | some (.plain (.call func)) => notedCall env invoke active m func
  | some (.plain (.callIndirect type table)) => notedTable env invoke active m type table
  | _ => leavingIf active m.leaves (m.step env fun _ _ => Run.halt .exhausted)

section

variable (env : Env H) {invoke : Nat → Nat → List Value → Noted H (World H) (List Value)}
    {invoke' : Nat → List Value → Run (World H) (List Value)}
    (h : ∀ a func args, (invoke a func args).run = invoke' func args) (active : Nat) (m : Machine)
include h

theorem run_notedCall (func : Nat) : (notedCall env invoke active m func).run =
    callFunc env invoke' m func := by
  rw [notedCall, callFunc]
  split
  · simp only [run_bind, run_silent, env.run_notedHost (env.run_notedExport h)]
    rfl
  · simp only [run_bind, run_silent, run_attempt]
    rfl

theorem run_notedTable (type table : Nat) :
    (notedTable env invoke active m type table).run = callTable env invoke' m type table := by
  simp only [notedTable, callTable, run_bind, run_silent, apply_ite Noted.run, run_notedCall env h]

omit h in
/-- A step that is no call does not depend on what calls do. -/
theorem step_congr {invoke : Nat → List Value → Run (World H) (List Value)} {m : Machine}
    (hcall : ∀ func, m.frame.code[m.frame.pc]? ≠ some (.plain (.call func)))
    (htable : ∀ type table, m.frame.code[m.frame.pc]? ≠ some (.plain (.callIndirect type table))) :
    step env invoke m = step env invoke' m := by
  refine full_step (R := fun x y => x = y) ?_ (.refl env) (fun func hi => absurd hi (hcall func))
    fun type table hi => absurd hi (htable type table)
  exact {
    pure _ := rfl, fail _ := rfl, bind hx hf := by rw [hx, funext hf]
    see _ := rfl, setGlobal _ _ := rfl, storeValue _ _ _ _ := rfl, memoryGrow _ := rfl
    memoryCopy _ _ _ := rfl, memoryFill _ _ _ := rfl, returning _ h := by rw [h] }

theorem run_notedStep : (notedStep env invoke active m).run = step env invoke' m := by
  fun_cases notedStep env invoke active m with
  | case1 func hi =>
    rw [run_notedCall env h, step, hi]
    rfl
  | case2 type table hi =>
    rw [run_notedTable env h, step, hi]
    rfl
  | case3 hcall htable => exact step_congr env hcall htable

end

end Machine

namespace Interpreter

mutual

/-- **Calls a function of the module**, with so many calls active. -/
def noted (env : Env H) :
    (bound active func : Nat) → (args : List Value) → Noted H (World H) (List Value)
  | 0, _, _, _ => silent (Run.halt .exhausted)
  | n + 1, active, func, args =>
    if func < env.imported then env.notedHost (env.notedExport (noted env n)) active func args
    else do
      let t ← silent (Run.need (.funcNotFound func) (env.mod.funcType? func))
      let (f, t') ← silent (Run.need (.funcNotFound func) (env.defined? func))
      attempt active
      let values ← notedRun env n active (Machine.start f t' args)
      silent (if values.length = t.results.length then
          return List.zipWith Value.ofRaw t.results values
        else Run.fault (.resultCount t.results.length values.length))

/-- Runs a machine to its end, with so many calls active outside of it. When it
halts, the calls of all of its frames end. -/
def notedRun (env : Env H) : (bound outside : Nat) → Machine → Noted H (World H) (List Raw)
  | 0, _, _ => silent (Run.halt .exhausted)
  | n + 1, outside, m => do
    let active := outside + m.callers.length + 1
    note .running active
    match ← (m.notedStep env (noted env n) active).returning active m.ended with
    | .running m => notedRun env n outside m
    | .finished values => return values

end

theorem run_notedRun (env : Env H) (n : Nat) :
    (∀ active func args, (noted env n active func args).run = invoke env n func args) ∧
    ∀ outside m, (notedRun env n outside m).run = run env n m := by
  induction n with
  | zero => exact ⟨fun _ _ _ => rfl, fun _ _ => rfl⟩
  | succ n ih =>
    refine ⟨fun active func args => ?_, fun outside m => ?_⟩
    · rw [noted, invoke]
      split
      · exact env.run_notedHost (env.run_notedExport ih.1) _ _ _
      · simp only [run_bind, run_silent, run_attempt, ih.2]
        rfl
    · rw [run_succ, notedRun, run_note_bind, run_bind,
        ← m.run_notedStep env ih.1 (outside + m.callers.length + 1)]
      refine congrArg _ (funext fun p => ?_)
      cases p with
      | running m' => exact ih.2 outside m'
      | finished => rfl

end Interpreter

/-! ### Compiled code -/

namespace Compiled

open Activation

/-- What an operation does that has no parts. -/
def bare (env : Env H) (c : Compiled) (fp : Nat) (op : Code) : Run (Activation H) Flow :=
  dispatch env c (fun _ => Run.halt .exhausted) (fun _ => Run.halt .exhausted)
    (fun _ _ => Run.halt .exhausted) fp op

/-- What an operation does, with its parts given. -/
def notedDispatch (env : Env H) (c : Compiled) (seq : List Code → Noted H (Activation H) Flow)
    (again : Unit → Noted H (Activation H) Flow)
    (call : (func slot : Nat) → Noted H (Activation H) Unit) (fp : Nat) :
    Code → Noted H (Activation H) Flow
  | .block body => do return (← seq body).leaveBlock
  | .loop body => do
    match ← seq body with
    | .branch 0 => again ()
    | flow => return flow.leaveBlock
  | .cond slot yes no => do
    let r ← silent (get (fp + slot))
    return (← seq (if r.isTrue then yes else no)).leaveBlock
  | .call func args => do
    call func (fp + args)
    return .next
  | .callIndirect expected table slot args => do
    let r ← silent (get (fp + slot))
    let func ← silent (onWorld (World.tableFunc table r))
    let actual ← silent (Run.need (.funcNotFound func) c.types[func]?)
    if actual = expected then
      call func (fp + args)
      return .next
    else silent (Run.trap (.callTypeMismatch expected actual))
  | op => silent (bare env c fp op)

theorem run_notedDispatch {seq : List Code → Noted H (Activation H) Flow}
    {again : Unit → Noted H (Activation H) Flow}
    {call : (func slot : Nat) → Noted H (Activation H) Unit} (fp : Nat) (op : Code) :
    (notedDispatch env c seq again call fp op).run = dispatch env c (fun ops => (seq ops).run)
      (fun _ => (again ()).run) (fun f s => (call f s).run) fp op := by
  cases op with
  | loop body =>
    rw [notedDispatch, dispatch, run_bind]
    refine congrArg _ (funext fun flow => ?_)
    rcases flow with _ | (_ | _) | _ <;> rfl
  | block | cond | call => simp only [notedDispatch, dispatch, run_bind, run_silent]; rfl
  | callIndirect =>
    simp only [notedDispatch, dispatch, run_bind, run_silent, apply_ite Noted.run]
    rfl
  | _ => rfl

/-- What compiled code does to the world, from slots on. -/
def inside (slots : Array Raw) (x : Noted H (Activation H) α) : Noted H (World H) α := fun w =>
  match x ⟨slots, w⟩ with
  | (l, r, a) => (l, r, a.world)

mutual

/-- **Calls a function of the module**, with so many calls active. -/
def noted (env : Env H) (c : Compiled) :
    (bound active func : Nat) → (args : List Value) → Noted H (World H) (List Value)
  | 0, _, _, _ => silent (Run.halt .exhausted)
  | n + 1, active, func, args =>
    if func < c.imported then env.notedHost (env.notedExport (noted env c n)) active func args
    else do
      let t ← silent (Run.need (.funcNotFound func) c.types[func]?)
      attempt active
      inside (args.map Value.toRaw).toArray do
        returning (active + 1) (fun _ => 1) (notedExecute env c n (active + 1) func 0)
        silent (results func t)
termination_by structural bound => bound

/-- Runs a function of the module that has been entered. -/
def notedExecute (env : Env H) (c : Compiled) :
    (bound active func fp : Nat) → Noted H (Activation H) Unit
  | 0, _, _, _ => silent (Run.halt .exhausted)
  | n + 1, active, func, fp => do
    let f ← silent (Run.need (.funcNotFound func)
      (if func < c.imported then none else c.funcs[func - c.imported]?))
    silent (openFrame f fp)
    let _ ← notedSeq env c n active fp f.body
termination_by structural bound => bound

/-- Calls a function of the module or of the host. -/
def notedCallAt (env : Env H) (c : Compiled) :
    (bound active func slot : Nat) → Noted H (Activation H) Unit
  | 0, _, _, _ => silent (Run.halt .exhausted)
  | n + 1, active, func, slot =>
    if func < c.imported then do
      let t ← silent (Run.need (.funcNotFound func) c.types[func]?)
      let args ← silent (arguments slot t.params)
      let results ← inWorld (env.notedHost (env.notedExport (noted env c n)) active func args)
      silent (setResults slot results)
    else do
      attempt active
      returning (active + 1) (fun _ => 1) (notedExecute env c n (active + 1) func slot)
termination_by structural bound => bound

/-- Runs operations in a row until one of them leaves the row. -/
def notedSeq (env : Env H) (c : Compiled) :
    (bound active fp : Nat) → List Code → Noted H (Activation H) Flow
  | 0, _, _, _ => silent (Run.halt .exhausted)
  | _ + 1, active, _, [] => do
    note .running active
    return .next
  | n + 1, active, fp, op :: ops => do
    match ← notedOp env c n active fp op with
    | .next => notedSeq env c n active fp ops
    | flow => return flow
termination_by structural bound => bound

/-- Runs an operation. -/
def notedOp (env : Env H) (c : Compiled) :
    (bound active fp : Nat) → Code → Noted H (Activation H) Flow
  | 0, _, _, _ => silent (Run.halt .exhausted)
  | n + 1, active, fp, op => do
    note .running active
    notedDispatch env c (notedSeq env c n active fp) (fun _ => notedOp env c n active fp op)
      (notedCallAt env c n active) fp op
termination_by structural bound => bound

end

variable (env : Env H) (c : Compiled)

structure Erases (n : Nat) : Prop where
  invoke : ∀ active func args, (noted env c n active func args).run = invoke env c n func args
  execute : ∀ active func fp, (notedExecute env c n active func fp).run = execute env c n func fp
  callAt : ∀ active func slot, (notedCallAt env c n active func slot).run = callAt env c n func slot
  runSeq : ∀ active fp ops, (notedSeq env c n active fp ops).run = runSeq env c n fp ops
  runOp : ∀ active fp op, (notedOp env c n active fp op).run = runOp env c n fp op

theorem erases (n : Nat) : Erases env c n := by
  induction n with
  | zero =>
    exact ⟨fun _ _ _ => rfl, fun _ _ _ => rfl, fun _ _ _ => rfl, fun _ _ _ => rfl, fun _ _ _ => rfl⟩
  | succ n ih =>
    have hhost := env.run_notedHost (env.run_notedExport ih.invoke)
    refine ⟨fun active func args => ?_, fun active func fp => ?_, fun active func slot => ?_,
      fun active fp ops => ?_, fun active fp op => ?_⟩
    · rw [noted]
      split
      · next hfunc => rw [invoke, if_pos hfunc, hhost]
      · next hfunc =>
        rw [invoke_defined env c hfunc, ← ih.execute (active + 1)]
        simp only [run_bind, run_silent, run_attempt]
        refine congrArg _ (funext fun t => congrArg _ (funext fun _ => funext fun w => ?_))
        exact congrArg (fun r : Run (Activation H) _ => Prod.map id Activation.world (r _))
          (run_bind _ _)
    · simp only [notedExecute, execute, run_bind, run_silent, ih.runSeq]
      rfl
    · rw [notedCallAt, callAt]
      split
      · simp only [run_bind, run_silent]
        refine congrArg _ (funext fun t => congrArg _ (funext fun args => ?_))
        rw [← hhost active]
        rfl
      · rw [run_bind, run_attempt, ← ih.execute (active + 1)]
        rfl
    · cases ops with
      | nil =>
        rw [notedSeq, runSeq_nil, run_note_bind]
        rfl
      | cons op ops =>
        rw [notedSeq, runSeq_cons, run_bind, ih.runOp]
        refine congrArg _ (funext fun flow => ?_)
        cases flow with
        | next => exact ih.runSeq active fp ops
        | branch | ret => rfl
    · rw [notedOp, runOp_succ, run_note_bind, run_notedDispatch]
      simp only [ih.runSeq, ih.runOp, ih.callAt]

end Compiled

namespace Runtime

/-- **A call that takes notes**, however the module is executed. -/
def noted (r : Runtime) (env : Env H) (bound active func : Nat) (args : List Value) :
    Noted H (World H) (List Value) :=
  match r with
  | .interpreter => Interpreter.noted env bound active func args
  | .compiled c => Compiled.noted env c bound active func args

/-- **Taking notes changes nothing.** -/
theorem run_noted (r : Runtime) (env : Env H) (bound active func : Nat) (args : List Value) :
    (r.noted env bound active func args).run = r.invoke env bound func args := by
  cases r with
  | interpreter => exact (Interpreter.run_notedRun env bound).1 active func args
  | compiled c => exact (Compiled.erases env c bound).invoke active func args

/-- **The moments of a call**. -/
def During (r : Runtime) (env : Env H) (bound active func : Nat) (args : List Value) (w : World H)
    (μ : Moment H) : Prop :=
  μ ∈ (r.noted env bound active func args).moments w

end Runtime

end WasmEngine
