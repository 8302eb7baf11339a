import WasmEngine.Proofs.Instance.Ready

/-!
# Checked modules run without faults

What comes out of running the functions of a module that was decoded, once
an instance of it is ready: results of the declared types, or one of a few kinds
of errors. A program may trap, a host function may return an error, and the
results of a host function may not be of its type. Nothing else comes out
(`WasmEngine.Instance.calls_sound`): no operand, label, local, global, table,
type or function is ever missing, and compiled code never reaches outside of its
slots.

A host function can return any error, so the errors that it returns have to be
traced to it: `WasmEngine.Env.Returns` says which errors a host program can
return, given what the instance answers to its calls. These answers are again
such as running code gives, so a fault that a host program returns is one of its
own making.
-/

namespace WasmEngine

open Run

variable {H : Type}

/-! ### Errors -/

namespace Env

mutual

/-- **The errors that may come out of running code.** -/
inductive Permits (env : Env H) : Error → Prop
  /-- A trap. -/
  | trap (t : Trap) : Permits env (.trap t)
  /-- Results of a host function that are not of its type. -/
  | hostResults {func f rs} (hf : env.hosts[func]? = some f)
    (hne : List.map Value.type rs ≠ f.type.results) :
    Permits env (.fault (.hostResults func rs f.type.results))
  /-- An error that a host function returns. -/
  | host {func : Nat} {f args e} (hf : env.hosts[func]? = some f) (h : Returns env (f.run args) e) :
    Permits env e

/-- **The errors that a host program may return.** -/
inductive Returns (env : Env H) : HostProg H → Error → Prop
  /-- It returns an error. -/
  | finish {e} : Returns env (.finish (.error e)) e
  /-- It returns the error after a look at the world. -/
  | look {next w e} (h : Returns env (next w) e) : Returns env (.look next) e
  /-- It returns the error after it has replaced its context. -/
  | setHost {host next e} (h : Returns env next e) : Returns env (.setHost host next) e
  /-- It returns the error after a memory has answered it. -/
  | memory {op next mem e} (h : Returns env (next (Memory.apply mem op).1) e) :
    Returns env (.memory op next) e
  /-- It returns the error after a call has been answered. -/
  | call {name args next r e} (hr : Answers env name args r) (h : Returns env (next r) e) :
    Returns env (.call name args next) e

/-- **The answers to the call of an export**: results, an error that running
code gives, or a refusal. -/
inductive Answers (env : Env H) : String → List Value → Except Error (List Value) → Prop
  /-- Results. -/
  | results {name args vs} : Answers env name args (.ok vs)
  /-- An error of the call. -/
  | failed {name args e} (h : Permits env e) : Answers env name args (.error e)
  /-- There is no such export. -/
  | unknown {name args} (h : env.mod.exportedFunc? name = none) :
    Answers env name args (.error (.functionNotFound "env" name))
  /-- The arguments do not fit. -/
  | mismatched {name args e func t} (hfunc : env.mod.exportedFunc? name = some func)
    (ht : env.mod.funcType? func = some t)
    (he : t.checkArguments args = .error e) : Answers env name args (.error e)

end

variable {env : Env H}

theorem answers_of_refuses {name : String} {args : List Value} {e : Error}
    (h : env.Refuses env.Permits name args e) : env.Answers name args (.error e) := by
  rcases h with h | ⟨hnone, rfl⟩ | ⟨func, t, hfunc, ht, he⟩
  · exact .failed h
  · exact .unknown hnone
  · exact .mismatched hfunc ht he

/-! ### The contract of a state that has what the module needs -/

theorem global_meets {i : Nat} {g : GlobalType} (hg : env.mod.globalTypes[i]? = some g) :
    Meets (fun w : World H => w.store.Supplies env.mod) env.Permits (fun _ => True)
      (World.global i) := by
  have hi := (List.getElem?_eq_some_iff.1 hg).1
  refine World.seeStore_meets (P := Store.Supplies env.mod) (fun _ _ _ _ => trivial)
    fun s e hs he => ?_
  rw [← hs.globals] at hi
  simp [Store.global, hi] at he

theorem setGlobal_meets {i : Nat} {g : GlobalType}
    (hg : env.mod.globalTypes[i]? = some g) (r : Raw) :
    Meets (fun w : World H => w.store.Supplies env.mod) env.Permits (fun _ => True)
      (World.setGlobal i r) := by
  have hi := (List.getElem?_eq_some_iff.1 hg).1
  refine World.onStore_meets (P := Store.Supplies env.mod) (fun s hs => ?_) (fun _ _ _ _ => trivial)
    fun s e hs he => ?_
  · exact hs.of_shape (s.shape_setGlobal i r)
  · rw [← hs.globals] at hi
    simp [Store.setGlobal, hi] at he

theorem tableFunc_meets : ∀ {i}, i < env.mod.tableCount →
    ∀ r, Meets (fun w : World H => w.store.Supplies env.mod) env.Permits
      (fun func => env.mod.funcType? func = none → env.Permits (.fault (.funcNotFound func)))
        (World.tableFunc i r) := by
  intro i hi r
  refine World.seeStore_meets (P := Store.Supplies env.mod) (fun s func hs hfunc hnone => ?_)
    fun s e hs he => ?_
  · -- An entry is a function with a type.
    rw [Store.tableFunc] at hfunc
    split at hfunc
    · cases hfunc
    · next entries htable =>
      split at hfunc
      · next f hentry =>
        obtain rfl := Except.ok.inj hfunc
        obtain ⟨t, ht⟩ := hs.entries htable (Array.mem_of_getElem? hentry)
        rw [ht] at hnone
        cases hnone
      · cases hfunc
      · cases hfunc
  · rw [← hs.tables] at hi
    simp only [Store.tableFunc, Array.getElem?_eq_getElem hi] at he
    split at he
    · cases he
    · obtain rfl := Except.error.inj he
      exact .trap _
    · obtain rfl := Except.error.inj he
      exact .trap _

theorem seeMemory_meets {α : Type} {f : Memory → Except Error α} {E : Error → Prop} {Q : α → Prop}
    (hQ : ∀ m a, f m = .ok a → Q a) (hf : ∀ m e, f m = .error e → E e) :
    Meets (fun w : World H => w.store.Supplies env.mod) E Q
      (World.seeStore fun s => s.seeMemory f) := by
  refine World.seeStore_meets (P := Store.Supplies env.mod)
    (fun _ _ _ ha => Store.seeMemory_ok hQ ha) fun s e hs he => ?_
  obtain ⟨mem, hmem⟩ := Option.isSome_iff_exists.1 hs.memory
  rw [Store.seeMemory, hmem] at he
  exact hf mem e he

theorem onMemory_meets {α : Type} {f : Memory → Except Error α × Memory}
    {E : Error → Prop} {Q : α → Prop} (hQ : ∀ m a, (f m).1 = .ok a → Q a)
    (hf : ∀ m e, (f m).1 = .error e → E e) :
    Meets (fun w : World H => w.store.Supplies env.mod) E Q (World.onMemory f) := by
  refine World.onStore_meets (P := Store.Supplies env.mod) (fun s hs => ?_)
    (fun _ _ _ ha => Store.onMemory_ok hQ ha) fun s e hs he => ?_
  · exact hs.of_shape (s.shape_onMemory f)
  · obtain ⟨gs, ts, _ | mem⟩ := s
    · cases hs.memory
    · exact hf mem e he

/-- Host programs return what they may return. -/
theorem reports_returns (env : Env H) :
    HostProg.Reports env.Answers (fun op r => ∃ mem, (Memory.apply mem op).1 = r) env.Returns where
  finish := .finish
  look := .look
  setHost := .setHost
  memory := by
    rintro op next r e ⟨mem, rfl⟩ h
    exact .memory h
  call := .call

/-- **The code of a module relies on nothing that a state which supplies it does
not have.** -/
theorem contract (hm : env.mod.Valid) (hlinked : env.Linked) :
    Contract env (fun _ _ => True) (Store.Supplies env.mod) env.Permits where
  values := env.policy.upholds_true
  trap := .trap
  exported hfunc hnone := by
    obtain ⟨t, ht⟩ := hm.exports hfunc
    rw [ht] at hnone
    cases hnone
  global := global_meets
  setGlobal hg r _ := setGlobal_meets hg r
  table := tableFunc_meets
  seeMemory := seeMemory_meets
  onMemory := onMemory_meets
  host {func t reenter} hfunc ht hreenter args := by
    obtain ⟨f, hf, rfl⟩ := hlinked hfunc ht
    refine hlinked.callHost_meets (P := Store.Supplies env.mod) hfunc ht .trap
      (fun rs hne => .hostResults hf hne) fun g hg => ?_
    refine (HostProg.run_meets env.reports_returns (fun _ _ hw => hw) (fun op => ?_)
      (fun name args => ?_) (g.run args)).mono (fun e he => .host hg he) fun _ => id
    · exact onMemory_meets (fun mem r hr => ⟨mem, hr⟩) fun mem e he => ⟨mem, he⟩
    · exact (hreenter name args).mono (fun e he => answers_of_refuses he) fun _ _ => .results

end Env

namespace Instance

variable {m : Module} {s : Strategy} {i : Instance H} {h : H}

/-- A function that is called on an instance that has all it needs gives results
of the declared types, or a permitted error. -/
theorem run_allows (hm : m.Valid) (hi : i.Sound m s) (hserves : i.Serves m) {func : Nat}
    {t : FuncType} {args : List Value} (ht : m.funcType? func = some t)
    (hargs : args.map Value.type = t.params) (bound : Nat) :
    Allows (fun _ => True) (Env.Permits ⟨m, i.policy, i.hosts⟩)
      (fun vs => vs.map Value.type = t.results) (run bound func args (i, h)) := by
  obtain ⟨r, hr⟩ := Option.isSome_iff_exists.1 hserves.prepared
  have hlinked : Env.Linked (⟨m, i.policy, i.hosts⟩ : Env H) := hserves.linked
  obtain ⟨scope, sources, hchecked⟩ := hm.checked
  have hrenders := Runtime.renders_of_prepare hchecked.bodies hm.imports (hi.prepared r hr)
  have hallows := Runtime.invoke_meets (Env.contract hm hlinked) hchecked.bodies hlinked
    hrenders ht hargs bound
    ⟨i.store, i.guard, h⟩ hserves.supplied
  rw [run_eq_ran hr, hi.mod]
  generalize r.invoke ⟨m, i.policy, i.hosts⟩ bound func args ⟨i.store, i.guard, h⟩ = x at hallows ⊢
  obtain ⟨(e | _ | _) | vs, w⟩ := x
  · exact ⟨trivial, hallows.2⟩
  · exact hallows
  · trivial
  · exact ⟨trivial, hallows.2⟩

theorem lookup_eq {space name : String} {args : List Value} {func : Nat} {t : FuncType}
    (hready : i.ready = true) (hfunc : i.mod.exportedFunc? name = some func)
    (ht : i.mod.funcType? func = some t) (hargs : t.checkArguments args = .ok ()) :
    i.lookup space name args = .ok (func, t.results.length) := by
  simp only [lookup, hready, hfunc, ht, hargs]
  rfl

theorem ready_run (bound func : Nat) (args : List Value) :
    (run bound func args (i, h)).2.1.ready = i.ready := by
  rcases hr : i.runtime with _ | r
  · simp only [run, hr]
  · rw [run_eq_ran hr]
    rcases r.invoke ⟨i.mod, i.policy, i.hosts⟩ bound func args
      ⟨i.store, i.guard, h⟩ with ⟨e | vs, w⟩ <;> rfl

/-- The last stage of a set-up. -/
theorem setUp_eq (bound : Nat) (options : Option Options) : (setUp bound options : Act H Unit) =
    build options >>= fun _ => start bound := by
  simp only [setUp, build, bind_assoc]

/-- The start function is the last thing that can keep an instance from being
ready. -/
theorem ready_start (hready : i.ready = true) {bound : Nat}
    (hok : (start bound (i, h)).1 = .ok ()) : (start bound (i, h)).2.1.ready = true := by
  simp only [start] at hok ⊢
  generalize i.mod.start = func? at hok ⊢
  obtain _ | func := func?
  · exact hready
  · have hrun := ready_run (i := i) (h := h) bound func []
    dsimp only at hok ⊢
    generalize run bound func [] (i, h) = x at hok hrun ⊢
    obtain ⟨e | vs, i', h'⟩ := x
    · cases hok
    · exact hrun.trans hready

/-- **An instance of a module runs without faults.** -/
structure RunsSound (m : Module) (i : Instance H) : Prop where
  /-- A set-up that succeeds leaves it ready. -/
  ready : ∀ bound options h, (setUp bound options (i, h)).1 = .ok () →
    (setUp bound options (i, h)).2.1.ready = true
  /-- While it is ready, every exported function has a type. Arguments that pass
  the check of that type are accepted, and the run of the function, however
  long, comes to results of the declared types or to a permitted error. -/
  calls : ∀ space name func args, i.ready = true → m.exportedFunc? name = some func →
    ∃ t, m.funcType? func = some t ∧ (t.checkArguments args = .ok () →
      i.lookup space name args = .ok (func, t.results.length) ∧
        ∀ bound h, Allows (fun _ => True) (Env.Permits ⟨m, i.policy, i.hosts⟩)
          (fun vs => vs.map Value.type = t.results) (run bound func args (i, h)))
  /-- The same holds of the start function when the rest of a set-up is done. -/
  starts : ∀ options h i' h' func, build options (i, h) = (.ok (), i', h') →
    m.start = some func → ∀ bound, setUp bound options (i, h) = start bound (i', h') ∧
      Allows (fun _ => True) (Env.Permits ⟨m, i'.policy, i'.hosts⟩) (fun vs => vs = [])
        (run bound func [] (i', h'))

/-- **Valid modules run without faults**, whatever has been done to the instance. -/
theorem sound_of_valid (hm : m.Valid) (s : Strategy) (p : FloatPolicy) (o : Options)
    (past : List (Occasion H)) : RunsSound m ((fresh m s p o).through past) := by
  have hi := sound_through hm (sound_fresh m s p o) past
  refine ⟨fun bound options h hok => ?_, fun space name func args hready hfunc => ?_, ?_⟩
  · have hstage := build_stage (h := h) hm hi options
    rw [setUp_eq, bind_apply] at hok ⊢
    generalize build options (_, h) = x at hok hstage ⊢
    obtain ⟨e | _, i', h'⟩ := x
    · cases hok
    · exact ready_start (hstage.2 rfl) hok
  · obtain ⟨t, ht⟩ := hm.exports hfunc
    refine ⟨t, ht, fun hargs => ⟨?_, fun bound h => ?_⟩⟩
    · rw [← hi.mod] at hfunc ht
      exact lookup_eq hready hfunc ht hargs
    · exact run_allows hm hi (hi.ready hready) ht (FuncType.types_of_checkArguments hargs) bound
  · intro options h i' h' func hbuild hstart bound
    have hstage := build_stage (h := h) hm hi options
    rw [hbuild] at hstage
    refine ⟨?_, ?_⟩
    · rw [setUp_eq, bind_ok hbuild]
    · have hallows := run_allows (h := h') hm hstage.1 (hstage.1.ready (hstage.2 rfl))
        (hm.start hstart) (rfl : ([] : List Value).map Value.type = []) bound
      exact hallows.mono (fun _ => id) fun vs hvs => List.map_eq_nil_iff.1 hvs

/-- **Checked modules run without faults.** Any instance of a module that can be
decoded does, whatever has been done to it. -/
theorem calls_sound {bs : List UInt8} (hm : Module.decode bs = .ok m) (s : Strategy)
    (p : FloatPolicy) (o : Options) (past : List (Occasion H)) :
    RunsSound m ((fresh m s p o).through past) :=
  sound_of_valid (Module.valid_of_decode hm) s p o past

/-- The binary of a module with a table of one function: its start function sets
a global, and `go` calls the function in the table, which adds the global to its
argument. -/
def adderBytes : List UInt8 := [
  0x00, 0x61, 0x73, 0x6d, 0x01, 0x00, 0x00, 0x00,
  0x01, 0x09, 0x02, 0x60, 0x00, 0x00, 0x60, 0x01, 0x7f, 0x01, 0x7f,
  0x03, 0x04, 0x03, 0x00, 0x01, 0x01,
  0x04, 0x04, 0x01, 0x70, 0x00, 0x01,
  0x06, 0x06, 0x01, 0x7f, 0x01, 0x41, 0x00, 0x0b,
  0x07, 0x06, 0x01, 0x02, 0x67, 0x6f, 0x00, 0x01,
  0x08, 0x01, 0x00,
  0x09, 0x07, 0x01, 0x00, 0x41, 0x00, 0x0b, 0x01, 0x02,
  0x0a, 0x1a, 0x03, 0x06, 0x00, 0x41, 0x01, 0x24, 0x00, 0x0b,
    0x09, 0x00, 0x20, 0x00, 0x41, 0x00, 0x11, 0x01, 0x00, 0x0b,
    0x07, 0x00, 0x20, 0x00, 0x23, 0x00, 0x6a, 0x0b]

/-- The module. -/
def adder : Module where
  version := some 1
  start := some 0
  types := #[⟨[], []⟩, ⟨[.i32], [.i32]⟩]
  tables := [⟨1, none⟩]
  globals := [⟨⟨true, .i32⟩, .value (.i32 0)⟩]
  exports := [⟨"go", .func, 1⟩]
  elements := [⟨.active 0 (.value (.i32 0)), [some 2], (53, 59)⟩]
  funcs := #[⟨0, [], #[.plain (.const (.i32 1)), .plain (.globalSet 0), .plain .ret]⟩,
    ⟨1, [], #[.plain (.localGet 0), .plain (.const (.i32 0)), .plain (.callIndirect 1 0),
      .plain .ret]⟩,
    ⟨1, [], #[.plain (.localGet 0), .plain (.globalGet 0), .plain (.binary (.int .w32 .add)),
      .plain .ret]⟩]

theorem decode_adder : Module.decode adderBytes = .ok adder := rfl

/-- The compiled module, set up. -/
def compiledAdder : Instance Unit :=
  (fresh adder .compiled .soft {}).through [⟨(), 0, .setMemory 0⟩, ⟨(), 9, .setUp none⟩]

theorem compiledAdder_ready : compiledAdder.ready = true := by
  decide +kernel

/-- Its function is called. -/
theorem adder_calls_sound :
    Module.decode adderBytes = .ok adder ∧ compiledAdder.ready = true ∧
      adder.exportedFunc? "go" = some 1 ∧
      FuncType.checkArguments ⟨[.i32], [.i32]⟩ [.i32 4] = .ok () ∧
      compiledAdder.lookup "env" "go" [.i32 4] = .ok (1, 1) ∧ ∀ bound h,
      Allows (fun _ => True) (Env.Permits ⟨adder, compiledAdder.policy, compiledAdder.hosts⟩)
        (fun vs => vs.map Value.type = [.i32]) (run bound 1 [.i32 4] (compiledAdder, h)) := by
  obtain ⟨t, ht, hcall⟩ :=
    (calls_sound decode_adder .compiled .soft {} _).calls "env" "go" 1 [.i32 4]
      compiledAdder_ready rfl
  obtain rfl : ⟨[.i32], [.i32]⟩ = t := Option.some.inj ht
  exact ⟨decode_adder, compiledAdder_ready, rfl, rfl, hcall rfl⟩

end Instance

end WasmEngine
