import WasmEngine.Proofs.Instance.Course
import WasmEngine.Proofs.Interpreter.Shown
import WasmEngine.Proofs.Mirrors

/-!
# Recorded host calls

To see which host functions are called, in which order, with which arguments and
at which depth, they are **recorded**: the context of the host gets a trace, and
each function writes its call to it before it does what it did anyway
(`WasmEngine.HostFunction.recorded`). Nothing else changes: the course of
an instance with recorded functions is the course that it has without a record,
with traces added to the contexts (`WasmEngine.Instance.Course.untraced`).
-/

namespace WasmEngine

open Run

/-! ### Traces of host calls -/

/-- A call of a host function. -/
structure HostCall where
  /-- The names that the function is offered under. -/
  name : String × String
  /-- Its arguments. -/
  args : List Value
  /-- The call depth that it sees. -/
  depth : Nat

/-- A context with the host calls that were made, in order. -/
abbrev Traced (H : Type) := H × List HostCall

variable {H : Type}

/-- A host program that leaves the trace alone. -/
def HostProg.traced : HostProg H → HostProg (Traced H)
  | .finish r => .finish r
  | .look next => .look fun w => traced (next ⟨w.store, w.guard, w.host.1⟩)
  | .setHost h next => .look fun w => .setHost (h, w.host.2) (traced next)
  | .memory op next => .memory op fun r => traced (next r)
  | .call name args next => .call name args fun r => traced (next r)

/-- A host function that writes its calls to the trace. -/
def HostFunction.recorded (name : String × String) (f : HostFunction H) :
    HostFunction (Traced H) where
  type := f.type
  run args := .look fun w => .setHost (w.host.1, w.host.2 ++ [⟨name, args, w.guard.depth⟩])
    (f.run args).traced

/-- The functions of a registry, recorded. -/
def Registry.recorded (r : Registry H) : Registry (Traced H) where
  entries := r.entries.map fun e => (e.1, e.2.recorded e.1)

/-! ### Recorded functions show the functions -/

theorem HostProg.traced_shows {reenter : String → List Value → Run (World (Traced H)) (List Value)}
    {reenter' : String → List Value → Run (World H) (List Value)}
    (h : ∀ name args, Shows (World.shown Prod.fst) (reenter name args) (reenter' name args))
    (p : HostProg H) : Shows (World.shown Prod.fst) (p.traced.run reenter) (p.run reenter') := by
  induction p with
  | finish r => exact (Shows.closed _).ofExcept r
  | look next ih => exact fun w => ih _ w
  | setHost h next ih => exact fun w => ih { w with host := (h, w.host.2) }
  | memory op next ih =>
    rw [traced, run_memory, run_memory]
    exact (World.onMemory_shows (World.view_shown _) _).catching.bind ih
  | call name args next ih =>
    rw [traced, run_call, run_call]
    exact (h name args).catching.bind ih

theorem HostFunction.recorded_shows (name : String × String) (f : HostFunction H) :
    HostFunction.Relates (Shows (World.shown Prod.fst)) (f.recorded name) f where
  type := rfl
  run h args := fun w => (f.run args).traced_shows h ⟨w.store, w.guard, w.host.1,
    w.host.2 ++ [⟨name, args, w.guard.depth⟩]⟩

theorem Registry.get?_recorded (r : Registry H) (space name : String) :
    r.recorded.get? space name = (r.get? space name).map (HostFunction.recorded (space, name)) := by
  obtain ⟨es⟩ := r
  simp only [recorded, get?]
  induction es with
  | nil => rfl
  | cons e es ih =>
    rw [List.map_cons, List.lookup_cons, List.lookup_cons]
    by_cases hname : (space, name) = e.1
    · rw [hname, beq_self_eq_true]
      rfl
    · rw [beq_false_of_ne hname]
      exact ih

theorem Registry.resolveImport_recorded (r : Registry H) (types : Array FuncType) (i : Import) :
    r.recorded.resolveImport types i = (r.resolveImport types i).map
      (HostFunction.recorded (i.moduleName, i.name)) := by
  obtain ⟨space, name, kind⟩ := i
  simp only [resolveImport, get?_recorded]
  rcases r.get? space name with _ | f
  · rfl
  · cases kind with
    | func t =>
      simp only [Option.map_some, HostFunction.recorded]
      split <;> rfl
    | table | memory | global => rfl

/-- Recorded functions are linked where the functions are. -/
theorem Registry.resolve_recorded (r : Registry H) (m : Module) :
    (∃ e, r.recorded.resolve m = .error e ∧ r.resolve m = .error e) ∨
      ∃ fs fs', r.recorded.resolve m = .ok fs ∧ r.resolve m = .ok fs' ∧
        List.Forall₂ (HostFunction.Relates (Shows (World.shown Prod.fst))) fs fs' := by
  simp only [resolve]
  induction m.imports with
  | nil => exact Or.inr ⟨[], [], rfl, rfl, .nil⟩
  | cons i is ih =>
    simp only [List.mapM_cons, resolveImport_recorded]
    rcases r.resolveImport m.types i with e | f
    · exact Or.inl ⟨e, rfl, rfl⟩
    · obtain ⟨e, he, he'⟩ | ⟨fs, fs', hfs, hfs', hall⟩ := ih
      · exact Or.inl ⟨e, by rw [he]; rfl, by rw [he']; rfl⟩
      · exact Or.inr ⟨_ :: fs, f :: fs', by rw [hfs]; rfl, by rw [hfs']; rfl,
          .cons (f.recorded_shows _) hall⟩

theorem rel_getElem?_of_forall₂ {α β : Type} {R : α → β → Prop} {xs : List α} {ys : List β}
    (h : List.Forall₂ R xs ys) (k : Nat) : Option.Rel R xs[k]? ys[k]? := by
  induction h generalizing k with
  | nil => exact .none
  | cons hxy _ ih =>
    cases k with
    | zero => exact .some hxy
    | succ k => exact ih k

namespace Instance

/-- An operation with recorded functions. -/
def Operation.recorded : Operation H → Operation (Traced H)
  | .setMemory byteLimit => .setMemory byteLimit
  | .setRegistry r => .setRegistry r.recorded
  | .setUp options => .setUp options
  | .invoke name args => .invoke name args
  | .call space name args => .call space name args
  | .callForValue space name args => .callForValue space name args
  | .callTyped name args results => .callTyped name args results
  | .memory op => .memory op

/-- An effect without the trace. -/
def Effect.untraced : Effect (Traced H) → Effect H
  | .ends r store host => .ends r store host.1
  | .goesOn => .goesOn

/-! ### Recording instances -/

/-- The instance with recorded functions. -/
def record (i : Instance H) (hosts : Array (HostFunction (Traced H))) : Instance (Traced H) :=
  { i with registry := i.registry.recorded, hosts }

/-- **An interpreting instance with recorded functions**, and the instance
without a record. -/
def Records (i : Instance (Traced H)) (j : Instance H) : Prop :=
  ∃ hosts, i = j.record hosts ∧
    (∀ func : Nat, Option.Rel (HostFunction.Relates (Shows (World.shown Prod.fst)))
      hosts[func]? j.hosts[func]?) ∧
    j.strategy = .interpreter ∧ ∀ r, j.runtime = some r → r = .interpreter

/-- The two after something that both of them do: the results are equal, and so
are the contexts of the host but for the trace. -/
abbrev Recalls {α : Type} : Except Halt α × Instance (Traced H) × Traced H →
    Except Halt α × Instance H × H → Prop :=
  Matches (fun a x b y => a = b ∧ x.2.1 = y.2 ∧ Records x.1 y.1)
    fun x y => x.2.1 = y.2 ∧ Records x.1 y.1

variable {i : Instance (Traced H)} {j : Instance H}

namespace Records

theorem mod (hij : Records i j) : i.mod = j.mod := by
  obtain ⟨hosts, rfl, -⟩ := hij
  rfl

theorem store (hij : Records i j) : i.store = j.store := by
  obtain ⟨hosts, rfl, -⟩ := hij
  rfl

theorem setReady (hij : Records i j) (ready : Bool → Bool) :
    Records { i with ready := ready i.ready } { j with ready := ready j.ready } := by
  obtain ⟨hosts, rfl, hshows⟩ := hij
  exact ⟨hosts, rfl, hshows⟩

end Records

theorem records_fresh (m : Module) (p : FloatPolicy) (o : Options) :
    Records (H := H) (fresh m .interpreter p o) (fresh m .interpreter p o) := by
  refine ⟨#[], rfl, fun _ => .none, rfl, ?_⟩
  rintro r ⟨⟩

theorem applyOptions_recalls (hij : Records i j) (options : Option Options) (h : Traced H) :
    Recalls (applyOptions options (i, h)) (applyOptions options (j, h.1)) := by
  obtain ⟨hosts, rfl, hshows⟩ := hij
  simp only [applyOptions, record]
  cases (options.getD j.options).validate with
  | error | ok => exact ⟨rfl, rfl, hosts, rfl, hshows⟩

theorem link_recalls (hij : Records i j) (h : Traced H) :
    Recalls (link (i, h)) (link (j, h.1)) := by
  obtain ⟨hosts, rfl, hshows, hinterpreter⟩ := hij
  simp only [link, record]
  rcases j.store.memory with _ | mem
  · exact ⟨rfl, rfl, hosts, rfl, hshows, hinterpreter⟩
  · dsimp only
    obtain ⟨e, he, he'⟩ | ⟨fs, fs', hfs, hfs', hall⟩ := j.registry.resolve_recorded j.mod
    · rw [he, he']
      exact ⟨rfl, rfl, hosts, rfl, hshows, hinterpreter⟩
    · rw [hfs, hfs']
      refine ⟨rfl, rfl, fs.toArray, rfl, fun func => ?_, hinterpreter⟩
      rw [List.getElem?_toArray, List.getElem?_toArray]
      exact rel_getElem?_of_forall₂ hall func

theorem prepare_recalls (hij : Records i j) (h : Traced H) :
    Recalls (prepare (i, h)) (prepare (j, h.1)) := by
  obtain ⟨hosts, rfl, hshows, hstrategy, hruntime⟩ := hij
  have hprepare : Runtime.prepare j.strategy j.mod = .ok .interpreter := by
    rw [hstrategy]
    rfl
  rcases hr : j.runtime with _ | r
  · simp only [prepare, record, hr, hprepare]
    refine ⟨rfl, rfl, hosts, rfl, hshows, hstrategy, ?_⟩
    rintro r ⟨⟩
    rfl
  · simp only [prepare, record, hr]
    exact ⟨rfl, rfl, hosts, by simp only [record, hr], hshows, hstrategy, hruntime⟩

theorem instantiate_recalls (hij : Records i j) (h : Traced H) :
    Recalls (instantiate (i, h)) (instantiate (j, h.1)) := by
  obtain ⟨hosts, rfl, hshows⟩ := hij
  simp only [instantiate, record]
  rcases j.store.instantiate j.mod j.options with ⟨e | _, store⟩
  · exact ⟨rfl, rfl, hosts, rfl, hshows⟩
  · exact ⟨rfl, rfl, hosts, rfl, hshows⟩

theorem build_recalls (hij : Records i j) (options : Option Options) (h : Traced H) :
    Recalls (build options (i, h)) (build options (j, h.1)) := by
  refine (applyOptions_recalls hij options h).bind ?_
  rintro _ ⟨i₁, h₁⟩ _ ⟨j₁, _⟩ ⟨-, rfl, hij₁⟩
  refine (link_recalls hij₁ h₁).bind ?_
  rintro _ ⟨i₂, h₂⟩ _ ⟨j₂, _⟩ ⟨-, rfl, hij₂⟩
  refine (prepare_recalls hij₂ h₂).bind ?_
  rintro _ ⟨i₃, h₃⟩ _ ⟨j₃, _⟩ ⟨-, rfl, hij₃⟩
  exact instantiate_recalls hij₃ h₃

/-! ### Operations on recording instances -/

/-- Plans with and without a record. -/
inductive Plan.Records : Plan (Traced H) → Plan H → Prop
  /-- There is nothing to run. -/
  | done {r i j} {h : Traced H} (hij : Instance.Records i j) : Records (.done r i h) (.done r j h.1)
  /-- A function is called. -/
  | call {i j func args answer ready} {h : Traced H} (hij : Instance.Records i j) :
    Records (.call i h func args answer ready) (.call j h.1 func args answer ready)

theorem planCall_records (hij : Records i j) (space name : String) (args : List Value)
    (answer : List Value → Except Error Answer) (refuse : Nat → Option Error) (h : Traced H) :
    (planCall i h space name args answer refuse).Records
      (planCall j h.1 space name args answer refuse) := by
  have hlookup : i.lookup space name args = j.lookup space name args := by
    obtain ⟨hosts, rfl, -⟩ := hij
    rfl
  simp only [planCall, hlookup]
  rcases j.lookup space name args with e | ⟨func, results⟩
  · exact .done hij
  · dsimp only
    rcases refuse results with _ | e
    · exact .call hij
    · exact .done hij

theorem plan_records (hij : Records i j) (op : Operation H) (h : Traced H) :
    (op.recorded.plan i h).Records (op.plan j h.1) := by
  cases op with
  | setMemory byteLimit =>
    obtain ⟨hosts, rfl, hshows⟩ := hij
    exact .done ⟨hosts, rfl, hshows⟩
  | setRegistry r =>
    obtain ⟨hosts, rfl, -, hinterpreter⟩ := hij
    exact .done ⟨#[], rfl, fun _ => .none, hinterpreter⟩
  | setUp options =>
    have hbuild := build_recalls hij options h
    simp only [Operation.recorded, Operation.plan]
    generalize build options (i, h) = x at hbuild ⊢
    generalize build options (j, h.1) = y at hbuild ⊢
    obtain ⟨e | _, i', h'⟩ := x <;> obtain ⟨e' | _, j', g'⟩ := y
    · obtain ⟨rfl, rfl, hij'⟩ := hbuild
      exact .done hij'
    · exact hbuild.elim
    · exact hbuild.elim
    · obtain ⟨-, rfl, hij'⟩ := hbuild
      have hmod : i'.mod = j'.mod := hij'.mod
      simp only [hmod]
      rcases j'.mod.start with _ | func
      · exact .done hij'
      · exact .call hij'
  | invoke | call | callForValue | callTyped =>
    rw [Operation.recorded, Operation.plan, Operation.plan]
    exact planCall_records hij _ _ _ _ _ h
  | memory op =>
    obtain ⟨hosts, rfl, hshows⟩ := hij
    simp only [Operation.recorded, Operation.plan, onMemory, record]
    rcases (j.store.onMemory fun mem => mem.apply op) with ⟨e | reply, store⟩
    · exact .done ⟨hosts, rfl, hshows⟩
    · exact .done ⟨hosts, rfl, hshows⟩

/-- A call with recorded functions does what it does without a record. -/
theorem run_recalls (hij : Records i j) (bound func : Nat) (args : List Value) (h : Traced H) :
    Recalls (run bound func args (i, h)) (run bound func args (j, h.1)) := by
  obtain ⟨hosts, rfl, hshows, hstrategy, hruntime⟩ := hij
  rcases hr : j.runtime with _ | r
  · have hleft : run bound func args (j.record hosts, h) =
      (.error (.error .notInitialized), j.record hosts, h) := by
      simp only [run, record, hr]
    have hright : run bound func args (j, h.1) = (.error (.error .notInitialized), j, h.1) := by
      simp only [run, hr]
    rw [hleft, hright]
    exact ⟨rfl, rfl, hosts, rfl, hshows, hstrategy, hruntime⟩
  · obtain rfl := hruntime r hr
    have henv : Env.Relates (Shows (World.shown Prod.fst)) ⟨j.mod, j.policy, hosts⟩
      ⟨j.mod, j.policy, j.hosts⟩ := ⟨⟨rfl, rfl⟩, hshows⟩
    have hleft : run bound func args (j.record hosts, h) = (j.record hosts).ran
        (Interpreter.invoke ⟨j.mod, j.policy, hosts⟩ bound func args ⟨j.store, j.guard, h⟩) :=
      run_eq_ran (i := j.record hosts) hr bound func args h
    have hright : run bound func args (j, h.1) = j.ran
        (Interpreter.invoke ⟨j.mod, j.policy, j.hosts⟩ bound func args
          (World.shown Prod.fst ⟨j.store, j.guard, h⟩)) :=
      run_eq_ran hr bound func args h.1
    rw [hleft, hright, Interpreter.invoke_shows (World.view_shown _) (World.enter_shows _)
      henv bound func args]
    rcases Interpreter.invoke ⟨j.mod, j.policy, hosts⟩ bound func args
      ⟨j.store, j.guard, h⟩ with ⟨e | vs, w⟩
    · exact ⟨rfl, rfl, hosts, rfl, hshows, hstrategy, hruntime⟩
    · exact ⟨rfl, rfl, hosts, rfl, hshows, hstrategy, hruntime⟩

/-- **An operation with recorded functions does what it does without a record**,
at every bound. -/
theorem act_recalls (hij : Records i j) (op : Operation H) (bound : Nat) (h : Traced H) :
    Recalls (op.recorded.act bound (i, h)) (op.act bound (j, h.1)) := by
  rw [act_eq_plan, act_eq_plan]
  have hplan := plan_records hij op h
  generalize op.recorded.plan i h = p at hplan ⊢
  generalize op.plan j h.1 = q at hplan ⊢
  cases hplan with
  | @done r i j h hij =>
    rcases r with e | a
    · exact ⟨rfl, rfl, hij⟩
    · exact ⟨rfl, rfl, hij⟩
  | @call i j func args answer ready h hij =>
    have hrun := run_recalls hij bound func args h
    simp only [Plan.run]
    generalize run bound func args (i, h) = x at hrun ⊢
    generalize run bound func args (j, h.1) = y at hrun ⊢
    obtain ⟨e | vs, i', h'⟩ := x <;> obtain ⟨e' | vs', j', g'⟩ := y
    · obtain ⟨rfl, rfl, hij'⟩ := hrun
      exact ⟨rfl, rfl, hij'.setReady ready⟩
    · exact hrun.elim
    · exact hrun.elim
    · obtain ⟨rfl, rfl, hij'⟩ := hrun
      simp only [called]
      rcases answer vs with e | a
      · exact ⟨rfl, rfl, hij'⟩
      · exact ⟨rfl, rfl, hij'⟩

/-! ### Courses of recording instances -/

/-- Operations with recorded functions, each with an empty trace to start with. -/
def recordedOps (os : List (H × Operation H)) : List (Traced H × Operation (Traced H)) :=
  os.map fun o => ((o.1, []), o.2.recorded)

/-- **A record changes nothing but the trace.** -/
theorem Course.untraced {os : List (H × Operation H)} {es : List (Effect (Traced H))}
    (hij : Records i j) (h : Course i (recordedOps os) es) :
    Course j os (es.map Effect.untraced) := by
  induction os generalizing i j es with
  | nil =>
    cases h
    exact .nil
  | cons o os ih =>
    obtain ⟨g, op⟩ := o
    cases h with
    | @ends _ _ _ _ r i' h' es hop rest =>
      obtain ⟨hs, n, hn⟩ := hop
      have hact := act_recalls hij op n (g, [])
      dsimp only at hn hact
      rw [hn] at hact
      rcases hact' : op.act n (j, g) with ⟨r', j', g'⟩
      rw [hact'] at hact
      -- Whatever the outcome is, the two instances and the two contexts of the host go together.
      obtain ⟨rfl, rfl, hij'⟩ : r = r' ∧ h'.1 = g' ∧ Records i' j' := by
        rcases r with e | a <;> rcases r' with e' | a'
        · exact ⟨congrArg Except.error hact.1, hact.2⟩
        · exact hact.elim
        · exact hact.elim
        · exact ⟨congrArg Except.ok hact.1, hact.2⟩
      rw [List.map_cons, Effect.untraced, hij'.store]
      exact .ends ⟨hs, n, hact'⟩ (ih hij' rest)
    | goesOn hop =>
      refine .goesOn fun n => ?_
      rw [← (act_recalls hij op n (g, [])).settled_iff]
      exact hop n

end Instance

end WasmEngine
