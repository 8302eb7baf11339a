import WasmEngine.Proofs.Closed

/-!
# What programs are made of

Programs are instructions, calls and returns. A relation of runs is **full** if
it contains what instructions do and is kept where units of call depth are
returned (`WasmEngine.World.Full`), and **whole** if it contains the start of a
call as well (`WasmEngine.World.Whole`).

With related host functions (`WasmEngine.Env.Relates`), whole programs are then
related under both ways of execution (`WasmEngine.Interpreter.Related.succ`,
`WasmEngine.Compiled.Related.succ`): what the functions that run programs do
with one more of their bounds, they do with parts that have less. The two
programs need not have the same bound.
-/

namespace WasmEngine

open Run

variable {G H : Type}

namespace World

/-- A run behind which units of call depth are returned, as many as go with its
outcome. -/
def returning {α : Type} (n : Except Halt α → Nat) (x : Run (World H) α) :
    Run (World H) α := fun w =>
  ((x w).1, (x w).2.exits (n (x w).1))

/-- A relation of runs that contains what instructions do to the world, and is
kept by the return of units of call depth. -/
structure Full (R : ∀ {α : Type}, Run (World G) α → Run (World H) α → Prop) :
    Prop extends Ample R where
  returning : ∀ {α : Type} {x : Run (World G) α} {y : Run (World H) α} (n : Except Halt α → Nat),
    R x y → R (returning n x) (returning n y)

/-- A relation of runs that contains all that is done to the world. -/
structure Whole (R : ∀ {α : Type}, Run (World G) α → Run (World H) α → Prop) :
    Prop extends Full R where
  enter : R enter enter

end World

variable {R : ∀ {α : Type}, Run (World G) α → Run (World H) α → Prop} {env : Env G} {env' : Env H}

/-! ### Between program and host -/

/-- **Host functions that are related**: they have the same type, and are
related as far as the exports are that they call. -/
structure HostFunction.Relates (R : ∀ {α : Type}, Run (World G) α → Run (World H) α → Prop)
    (f : HostFunction G) (g : HostFunction H) : Prop where
  /-- The types are the same. -/
  type : f.type = g.type
  /-- What the functions do is related. -/
  run : ∀ {reenter : String → List Value → Run (World G) (List Value)} {reenter' : String →
    List Value → Run (World H) (List Value)},
    (∀ name args, R (reenter name args) (reenter' name args)) →
    ∀ args, R ((f.run args).run reenter) ((g.run args).run reenter')

/-- Environments whose host functions are related, and that have the rest in
common. -/
structure Env.Relates (R : ∀ {α : Type}, Run (World G) α → Run (World H) α → Prop) (env : Env G)
    (env' : Env H) : Prop extends Env.Alike env env' where
  /-- Each host function is related to the other one. -/
  hosts : ∀ func : Nat, Option.Rel (HostFunction.Relates R) env.hosts[func]? env'.hosts[func]?

namespace Env

/-- An environment is related to itself if the programs of hosts are. -/
theorem relates_self {R : ∀ {α : Type}, Run (World H) α → Run (World H) α → Prop} (env : Env H)
    (h : ∀ (p : HostProg H) {reenter reenter' : String → List Value → Run (World H) (List Value)},
      (∀ name args, R (reenter name args) (reenter' name args)) →
      R (p.run reenter) (p.run reenter')) : env.Relates R env where
  toAlike := .refl env
  hosts func := by
    cases env.hosts[func]? with
    | none => exact .none
    | some f => exact .some ⟨rfl, fun hreenter args => h (f.run args) hreenter⟩

theorem Alike.imported (henv : env.Alike env') : env.imported = env'.imported := by
  rw [Env.imported, Env.imported, henv.mod]

theorem Alike.defined? (henv : env.Alike env') (func : Nat) :
    env.defined? func = env'.defined? func := by
  rw [Env.defined?, Env.defined?, henv.imported, henv.mod]

theorem Alike.callExport (henv : env.Alike env') (hR : Closed R)
    {invoke : Nat → List Value → Run (World G) (List Value)}
    {invoke' : Nat → List Value → Run (World H) (List Value)}
    (h : ∀ func args, R (invoke func args) (invoke' func args)) (name : String)
    (args : List Value) :
    R (env.callExport invoke name args) (env'.callExport invoke' name args) := by
  rw [Env.callExport, Env.callExport, henv.mod]
  cases env'.mod.exportedFunc? name with
  | none => exact hR.fail _
  | some func => exact hR.bind (hR.need _ _) fun t => hR.bind (hR.ofExcept _) fun _ => h func args

theorem Relates.callHost (henv : env.Relates R env') (hR : World.Whole R)
    {reenter : String → List Value → Run (World G) (List Value)}
    {reenter' : String → List Value → Run (World H) (List Value)}
    (h : ∀ name args, R (reenter name args) (reenter' name args)) (func : Nat) (args : List Value) :
    R (env.callHost reenter func args) (env'.callHost reenter' func args) := by
  rw [Env.callHost, Env.callHost]
  have hhost := henv.hosts func
  generalize env.hosts[func]? = f at hhost ⊢
  generalize env'.hosts[func]? = g at hhost ⊢
  cases hhost with
  | none => exact hR.fail _
  | @some f g hf =>
    rw [need_some, need_some, Run.pure_bind, Run.pure_bind, hf.type]
    refine hR.bind ?_ fun results => Closed.ite (hR.pure _) (hR.fail _)
    exact hR.bind hR.enter fun _ => hR.returning (fun _ => 1) (hf.run h args)

end Env

/-! ### The interpreter -/

namespace Machine

variable (m : Machine)

section Full

variable (hR : World.Full R)
include hR

theorem full_leaveFrame : R (leaveFrame m) (leaveFrame m) := by
  obtain ⟨values, blocks, frame, callers⟩ := m
  cases callers with
  | nil | cons => exact hR.returning (fun _ => 1) (hR.pure _)

theorem full_branchTo (depth : Nat) : R (branchTo m depth) (branchTo m depth) := by
  rw [branchTo, branchTo]
  cases m.branch? depth with
  | none => exact full_leaveFrame m hR
  | some m' => exact hR.pure _

variable (henv : env.Alike env') {m} {invoke : Nat → List Value → Run (World G) (List Value)}
  {invoke' : Nat → List Value → Run (World H) (List Value)}
include henv

theorem full_stepPlain {op : Plain}
    (hcall : ∀ func, op = .call func → R (callFunc env invoke m func)
      (callFunc env' invoke' m func))
    (htable : ∀ type table, op = .callIndirect type table → R (callTable env invoke m type table)
      (callTable env' invoke' m type table)) :
    R (stepPlain env invoke m op) (stepPlain env' invoke' m op) := by
  have hoperate := hR.bind (ample_operate m hR.toAmple henv op) fun m =>
    hR.pure (Progress.running m.next)
  cases op with
  | call func => exact hcall func rfl
  | callIndirect type table => exact htable type table rfl
  | br depth => exact full_branchTo m hR depth
  | brIf depth =>
    exact hR.bind (closed_pop hR.toClosed _) fun _ => Closed.ite
      (full_branchTo _ hR depth) (hR.pure _)
  | ret => exact full_leaveFrame m hR
  | _ => exact hoperate

/-- Steps are related if the calls are that they make. -/
theorem full_step
    (hcall : ∀ func, m.frame.code[m.frame.pc]? = some (.plain (.call func)) →
      R (callFunc env invoke m func) (callFunc env' invoke' m func))
    (htable : ∀ type table, m.frame.code[m.frame.pc]? = some (.plain (.callIndirect type table)) →
      R (callTable env invoke m type table) (callTable env' invoke' m type table)) :
      R (step env invoke m) (step env' invoke' m) := by
  have hclosed : Closed R := hR.toClosed
  rw [step, step]
  cases hi : m.frame.code[m.frame.pc]? with
  | none => exact hR.fail _
  | some i =>
    rw [need_some, need_some, Run.pure_bind, Run.pure_bind]
    cases i with
    | plain op =>
      refine full_stepPlain hR henv ?_ ?_
      · rintro func rfl
        exact hcall func hi
      · rintro type table rfl
        exact htable type table hi
    | block args stop | loop args stop =>
      exact hR.bind (closed_enterBlock m hclosed henv args _ stop _) fun _ => hR.pure _
    | cond args alt stop =>
      exact hR.bind (closed_enterCond m hclosed henv args alt stop) fun _ => hR.pure _
    | orElse | endBlock => exact hR.bind (hR.need _ _) fun _ => hR.pure _
    | brTable default count =>
      exact hR.bind (closed_tableLabel m hclosed default count) fun _ => full_branchTo _ hR _
    | brLabel => exact hR.pure _

end Full

variable (hR : World.Whole R) (henv : env.Relates R env')
  {invoke : Nat → List Value → Run (World G) (List Value)}
  {invoke' : Nat → List Value → Run (World H) (List Value)}
  (hinvoke : ∀ func args, R (invoke func args) (invoke' func args))
include hR henv hinvoke

theorem whole_callFunc (func : Nat) :
    R (callFunc env invoke m func) (callFunc env' invoke' m func) := by
  rw [callFunc, callFunc, henv.imported, henv.mod, henv.defined?]
  refine Closed.ite ?_ ?_
  · refine hR.bind (hR.need _ _) fun t => hR.bind (closed_popMany hR.toClosed _ _) fun _ => ?_
    exact hR.bind (henv.callHost hR (henv.callExport hR.toClosed hinvoke) func _) fun _ => hR.pure _
  · refine hR.bind (hR.need _ _) fun _ => hR.bind (closed_popMany hR.toClosed _ _) fun _ => ?_
    exact hR.bind hR.enter fun _ => hR.pure _

theorem whole_callTable (type table : Nat) :
    R (callTable env invoke m type table) (callTable env' invoke' m type table) := by
  rw [callTable, callTable, henv.mod]
  refine hR.bind (closed_pop hR.toClosed _) fun _ => hR.bind (hR.see _) fun func => ?_
  refine hR.bind (hR.need _ _) fun _ => hR.bind (hR.need _ _) fun _ => ?_
  exact Closed.ite (whole_callFunc _ hR henv hinvoke func) (hR.fail _)

/-- **Steps are related** if calls from the host are. -/
theorem whole_step : R (step env invoke m) (step env' invoke' m) :=
  full_step hR.toFull henv.toAlike (fun func _ => whole_callFunc m hR henv hinvoke func)
      fun type table _ =>
    whole_callTable m hR henv hinvoke type table

end Machine

namespace Interpreter

/-- The two functions that interpret code are related, at two bounds. -/
structure Related (R : ∀ {α : Type}, Run (World G) α → Run (World H) α → Prop) (env : Env G)
    (env' : Env H) (n n' : Nat) : Prop where
  /-- Calls from outside. -/
  invoke : ∀ func args, R (invoke env n func args) (invoke env' n' func args)
  /-- Machines. -/
  run : ∀ m, R (run env n m) (run env' n' m)

/-- A run is a step, behind which all units of call depth are returned if it
halts, and the rest of the run. -/
theorem run_succ (env : Env H) (n : Nat) (m : Machine) :
    run env (n + 1) m = World.returning
      (fun r => match r with | .ok _ => 0 | .error _ => m.callers.length + 1)
      (m.step env (invoke env n)) >>= fun p => match p with
        | .running m => run env n m
        | .finished values => Pure.pure values := by
  funext w
  simp only [run, bind_apply, World.returning]
  rcases m.step env (invoke env n) w with ⟨e | m' | values, w'⟩ <;> rfl

namespace Related

variable (hR : World.Whole R) (henv : env.Relates R env') {n n' : Nat}
include hR henv

/-- **Interpreted code is related** at greater bounds. -/
theorem succ (h : Related R env env' n n') : Related R env env' (n + 1) (n' + 1) where
  invoke func args := by
    rw [Interpreter.invoke, Interpreter.invoke, henv.imported, henv.mod, henv.defined?]
    refine Closed.ite (henv.callHost hR (henv.callExport hR.toClosed h.invoke) func args) ?_
    refine hR.bind (hR.need _ _) fun t => hR.bind (hR.need _ _) fun p =>
      hR.bind hR.enter fun _ => ?_
    exact hR.bind (h.run _) fun _ => Closed.ite (hR.pure _) (hR.fail _)
  run m := by
    rw [run_succ, run_succ]
    refine hR.bind (hR.returning _ (Machine.whole_step m hR henv h.invoke)) fun p => ?_
    cases p with
    | running m' => exact h.run m'
    | finished values => exact hR.pure _

theorem of_zero {d : Nat} (h : Related R env env' 0 d) (n : Nat) :
    Related R env env' n (n + d) := by
  induction n with
  | zero => rwa [Nat.zero_add]
  | succ n ih => exact Nat.add_right_comm n d 1 ▸ ih.succ hR henv

end Related

end Interpreter

/-! ### Compiled code -/

namespace Compiled

/-- The results of a function of the module, read from the slots where it leaves
them. -/
def results (func : Nat) (t : FuncType) : Run (Activation H) (List Value) := fun a =>
  (if a.slots.size < t.results.length then .error (.error (.fault (.lostResults func)))
    else .ok (List.zipWith Value.ofRaw t.results a.slots.toList), a)

variable (env : Env H) (c : Compiled)

/-- What a call of a function of the module does to the world is what the
function does to the world of its state. -/
theorem invoke_defined {func : Nat} (h : ¬func < c.imported) (n : Nat) (args : List Value) :
    invoke env c (n + 1) func args = Run.need (.funcNotFound func) c.types[func]? >>= fun t =>
    World.enter >>= fun _ w =>
      Prod.map id Activation.world
        (((execute env c n func 0).leaving (fun a => ⟨a.slots, a.world.exits 1⟩) >>=
          fun _ => results func t) ⟨(args.map Value.toRaw).toArray, w⟩) := by
  rw [invoke, if_neg h]
  refine congrArg (Bind.bind _)
    (funext fun t => congrArg (Bind.bind _) (funext fun _ => funext fun w => ?_))
  rw [bind_apply, Run.leaving]
  rcases execute env c n func 0 ⟨(args.map Value.toRaw).toArray, w⟩ with ⟨e | _, a⟩
  · rfl
  · exact (apply_ite (fun r => (r, a.world.exits 1)) _ _ _).symm

theorem runSeq_nil (n fp : Nat) :
    runSeq env c (n + 1) fp [] = (Pure.pure .next : Run (Activation H) Flow) := by
  rw [runSeq]
  rfl

theorem runSeq_cons (n fp : Nat) (op : Code) (ops : List Code) :
    runSeq env c (n + 1) fp (op :: ops) = runOp env c n fp op >>= fun flow => match flow with
      | .next => runSeq env c n fp ops
      | flow => Pure.pure flow := by
  funext a
  simp only [runSeq, bind_apply]
  rcases runOp env c n fp op a with ⟨_ | _ | _ | _, a'⟩ <;> rfl

theorem runOp_succ (n fp : Nat) (op : Code) :
    runOp env c (n + 1) fp op =
      dispatch env c (runSeq env c n fp) (fun _ => runOp env c n fp op) (callAt env c n) fp op := by
  rw [runOp]

end Compiled

variable {L : ∀ {α : Type}, Run (Activation G) α → Run (Activation H) α → Prop}

/-- A relation of runs that contains all that is done to slots, and to the world. -/
structure Activation.Whole (R : ∀ {α : Type}, Run (World G) α → Run (World H) α → Prop)
    (L : ∀ {α : Type}, Run (Activation G) α → Run (Activation H) α → Prop) :
    Prop extends Activation.Ample (fun _ => True) R L where
  openFrame : ∀ f fp, L (openFrame f fp) (openFrame f fp)
  results : ∀ func t, L (Compiled.results func t) (Compiled.results func t)
  leaving : ∀ {α : Type} {x : Run (Activation G) α} {y : Run (Activation H) α}, L x y →
    L (x.leaving fun a => { a with world := a.world.exits 1 })
      (y.leaving fun a => { a with world := a.world.exits 1 })
  inside :
    ∀ {α : Type} {x : Run (Activation G) α} {y : Run (Activation H) α} (slots : Array Raw), L x y →
    R (fun w => Prod.map id Activation.world (x ⟨slots, w⟩))
      (fun w => Prod.map id Activation.world (y ⟨slots, w⟩))

namespace Compiled

/-- The five functions that run compiled code are related, at two bounds. -/
structure Related (R : ∀ {α : Type}, Run (World G) α → Run (World H) α → Prop)
    (L : ∀ {α : Type}, Run (Activation G) α → Run (Activation H) α → Prop) (env : Env G)
    (env' : Env H) (c : Compiled) (n n' : Nat) : Prop where
  /-- Calls from outside. -/
  invoke : ∀ func args, R (invoke env c n func args) (invoke env' c n' func args)
  /-- Functions. -/
  execute : ∀ func fp, L (execute env c n func fp) (execute env' c n' func fp)
  /-- Calls. -/
  callAt : ∀ func slot, L (callAt env c n func slot) (callAt env' c n' func slot)
  /-- Sequences. -/
  runSeq : ∀ fp ops, L (runSeq env c n fp ops) (runSeq env' c n' fp ops)
  /-- Operations. -/
  runOp : ∀ fp op, L (runOp env c n fp op) (runOp env' c n' fp op)

namespace Related

variable (hR : World.Whole R) (hL : Activation.Whole R L) (henv : env.Relates R env')
  {c : Compiled} {n n' : Nat}
include hR hL henv

/-- **Compiled code is related** at greater bounds. -/
theorem succ (h : Related R L env env' c n n') : Related R L env env' c (n + 1) (n' + 1) where
  invoke func args := by
    by_cases hfunc : func < c.imported
    · rw [Compiled.invoke, Compiled.invoke, if_pos hfunc, if_pos hfunc]
      exact henv.callHost hR (henv.callExport hR.toClosed h.invoke) func args
    · rw [invoke_defined _ _ hfunc, invoke_defined _ _ hfunc]
      refine hR.bind (hR.need _ _) fun t => hR.bind hR.enter fun _ => hL.inside _ ?_
      exact hL.bind (hL.leaving (h.execute func 0)) fun _ => hL.results func t
  execute func fp := by
    rw [Compiled.execute, Compiled.execute]
    refine hL.bind (hL.need _ _) fun f => hL.bind (hL.openFrame f fp) fun _ => ?_
    exact hL.bind (h.runSeq fp f.body) fun _ => hL.pure _
  callAt func slot := by
    rw [Compiled.callAt, Compiled.callAt]
    refine Closed.ite ?_ (hL.bind (hL.world hR.enter) fun _ => hL.leaving (h.execute func slot))
    refine hL.bind (hL.need _ _) fun t => hL.bind (Activation.ample_arguments hL.toAmple fun _ _ =>
      trivial) fun args => ?_
    refine hL.bind (hL.world (henv.callHost hR (henv.callExport hR.toClosed h.invoke) func args))
      fun _ => ?_
    exact Activation.ample_setResults hL.toAmple fun _ _ => trivial
  runSeq fp ops := by
    cases ops with
    | nil =>
      rw [runSeq_nil, runSeq_nil]
      exact hL.pure _
    | cons op ops =>
      rw [runSeq_cons, runSeq_cons]
      refine hL.bind (h.runOp fp op) fun flow => ?_
      cases flow with
      | next => exact h.runSeq fp ops
      | branch | ret => exact hL.pure _
  runOp fp op := by
    rw [runOp_succ, runOp_succ]
    exact Activation.ample_dispatch hL.toAmple hR.toAmple _ _ _ henv.toAlike (fun _ _ => trivial)
      (h.runSeq fp) (h.runOp fp op)
      fun func args => h.callAt func (fp + args)

theorem of_zero {d : Nat} (h : Related R L env env' c 0 d) (n : Nat) :
    Related R L env env' c n (n + d) := by
  induction n with
  | zero => rwa [Nat.zero_add]
  | succ n ih => exact Nat.add_right_comm n d 1 ▸ ih.succ hR hL henv

end Related

end Compiled

/-! ### Runs below others -/

theorem Run.Below.closed {σ : Type} : Closed (Below (σ := σ)) where
  pure _ := .refl _
  fail _ := .refl _
  bind := .bind

theorem World.whole_below : World.Whole (Below (σ := World H)) where
  toClosed := Below.closed
  see _ := .refl _
  setGlobal _ _ := .refl _
  storeValue _ _ _ _ := .refl _
  memoryGrow _ := .refl _
  memoryCopy _ _ _ := .refl _
  memoryFill _ _ _ := .refl _
  returning {_ x _} n h w hw := by
    have hx : Settled (x w) := hw
    simp only [World.returning, h w hx]
  enter := .refl _

/-- What a host function does is below what it does with exports above. -/
theorem Env.relates_below (env : Env H) : env.Relates Below env :=
  env.relates_self fun p _ _ h => HostProg.run_below h p

theorem Env.callHost_below (env : Env H)
    {reenter reenter' : String → List Value → Run (World H) (List Value)}
    (h : ∀ name args, Below (reenter name args) (reenter' name args)) (func : Nat)
    (args : List Value) :
    Below (env.callHost reenter func args) (env.callHost reenter' func args) :=
  env.relates_below.callHost World.whole_below h func args

theorem Env.callExport_below (env : Env H)
    {invoke invoke' : Nat → List Value → Run (World H) (List Value)}
    (h : ∀ func args, Below (invoke func args) (invoke' func args)) (name : String)
    (args : List Value) :
    Below (env.callExport invoke name args) (env.callExport invoke' name args) :=
  (Alike.refl env).callExport Below.closed h name args

end WasmEngine
