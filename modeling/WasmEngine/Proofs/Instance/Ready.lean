import WasmEngine.Proofs.Instance.Course
import WasmEngine.Proofs.Store.Supply

/-!
# What an instance that is ready can rely on

An instance becomes ready when it is set up, and stays so until it is given
another memory or other functions or is set up again. All the while its imports
are linked to functions of the declared types
(`WasmEngine.Registry.linked_of_resolve`), its module is prepared, and its state
has all that the module needs. This holds after every history
(`WasmEngine.Instance.sound_through`), however its operations ended: what counts
in the state is its shape, which no code can change.
-/

namespace WasmEngine

open Run

variable {H : Type}

/-! ### Linking -/

variable {m : Module} {fs : List (HostFunction H)}

/-- The functions behind the imports are of the declared types, one for each
imported function. -/
theorem Registry.types_of_resolve {r : Registry H} (h : r.resolve m = .ok fs) :
    List.Forall₂ (fun t f => m.types[t]? = some f.type) m.importedTypes fs := by
  have hall : ∀ {imports : List Import} {fs : List (HostFunction H)},
      List.Forall₂ (fun i f => r.resolveImport m.types i = .ok f) imports fs →
      List.Forall₂ (fun t f => m.types[t]? = some f.type)
        (Module.importedTypes { imports }) fs := by
    intro imports fs h
    induction h with
    | nil => exact .nil
    | @cons i f imports fs hi _ ih =>
      obtain ⟨moduleName, name, kind⟩ := i
      simp only [resolveImport] at hi
      split at hi
      · simp at hi
      · cases kind with
        | func t =>
          dsimp only at hi
          split at hi
          · next htype =>
            obtain rfl := Except.ok.inj hi
            exact .cons htype ih
          · simp at hi
        | table | memory | global => simp at hi
  exact hall (mapM_eq_ok.1 h)

/-- **Imports that are resolved are functions of the declared types.** -/
theorem Registry.linked_of_resolve {r : Registry H} (h : r.resolve m = .ok fs)
    (policy : FloatPolicy) : Env.Linked (⟨m, policy, fs.toArray⟩ : Env H) := by
  intro func t hfunc ht
  have hlt : func < m.importedCount := hfunc
  simp only [Module.funcType?, Module.typeIndex?, hlt, if_true, Option.bind_eq_bind,
    Option.bind_eq_some_iff] at ht
  obtain ⟨k, hk, ht⟩ := ht
  obtain ⟨f, hf, hftype⟩ := getElem?_of_forall₂ (types_of_resolve h) hk
  refine ⟨f, ?_, Option.some.inj (hftype.symm.trans ht)⟩
  rw [← hf]
  exact List.getElem?_toArray

/-- Nothing but functions can be linked. -/
theorem Registry.onlyFunctions_of_resolve {r : Registry H} (h : r.resolve m = .ok fs) :
    m.OnlyFunctions := by
  intro i hi
  obtain ⟨k, hk⟩ := List.mem_iff_getElem?.1 hi
  obtain ⟨f, -, hf⟩ := getElem?_of_forall₂ (mapM_eq_ok.1 h) hk
  simp only [resolveImport] at hf
  split at hf
  · cases hf
  · split at hf
    · next t ht => exact ⟨t, ht⟩
    · cases hf

/-- Code keeps the shape of the state, under every strategy. -/
theorem Runtime.shape_invoke (r : Runtime) (env : Env H) (bound func : Nat) (args : List Value) :
    Keeps (fun w : World H => w.store.shape) (r.invoke env bound func args) := by
  cases r with
  | interpreter =>
    exact Interpreter.invoke_keeps (fun _ _ => rfl) World.steady_shape env bound func args
  | compiled c =>
    exact Compiled.invoke_keeps (fun _ _ => rfl) World.steady_shape env c bound func args

namespace Instance

/-- What an instance needs in order to call functions. -/
structure Callable (m : Module) (i : Instance H) : Prop where
  /-- The module is prepared. -/
  prepared : i.runtime.isSome
  /-- The imports are linked. -/
  linked : Env.Linked (⟨m, i.policy, i.hosts⟩ : Env H)

/-- What an instance has once its imports are linked. -/
structure Joined (m : Module) (i : Instance H) : Prop where
  /-- Its options have been accepted. -/
  depth : i.options.maxCallDepth ≤ Options.highestCallDepth
  /-- The imports are linked. -/
  linked : Env.Linked (⟨m, i.policy, i.hosts⟩ : Env H)
  /-- There is one function for each of them. -/
  hosts : i.hosts.size = m.importedCount

/-- **What an instance that is ready has**: it can call functions, and its state
has what the module needs. -/
structure Serves (m : Module) (i : Instance H) : Prop extends i.Callable m, i.Joined m where
  /-- The state has what the module needs. -/
  supplied : i.store.Supplies m
  /-- The state has the declared sizes. -/
  sized : i.store.Sized m

/-- **What is true of an instance at all times.** -/
structure Sound (m : Module) (s : Strategy) (i : Instance H) : Prop where
  /-- It is of the module. -/
  mod : i.mod = m
  /-- It has the strategy. -/
  strategy : i.strategy = s
  /-- The module is prepared as the strategy says. -/
  prepared : ∀ r, i.runtime = some r → Runtime.prepare s m = .ok r
  /-- If it is ready, then with all it needs. -/
  ready : i.ready = true → i.Serves m

variable {m : Module} {s : Strategy} {i i' : Instance H} {h h' : H}

/-- What a look-up that succeeds says. -/
theorem of_lookup {space name : String} {args : List Value} {func results : Nat}
    (h : i.lookup space name args = .ok (func, results)) :
    i.ready = true ∧ ∃ t, i.mod.funcType? func = some t ∧ args.map Value.type = t.params := by
  simp only [lookup] at h
  have hready : i.ready = true := by
    by_contra hnot
    rw [Bool.not_eq_true] at hnot
    simp only [hnot, Bool.not_false, if_true] at h
    cases h
  simp only [hready, Bool.not_true, Bool.false_eq_true, if_false] at h
  split at h
  · cases h
  · split at h
    · cases h
    · next t ht =>
      obtain ⟨_, hargs, h⟩ := bind_eq_ok.1 h
      obtain ⟨rfl, -⟩ : _ = func ∧ _ = results := Prod.mk.inj (Except.ok.inj h)
      exact ⟨hready, t, ht, FuncType.types_of_checkArguments hargs⟩

/-! ### Setting up -/

theorem sound_fresh (m : Module) (s : Strategy) (p : FloatPolicy) (o : Options) : Sound m s
    (fresh m s p o : Instance H) := by
  refine ⟨rfl, rfl, ?_, ?_⟩
  · rintro r ⟨⟩
  · rintro ⟨⟩

/-- An instance that is not ready has nothing to show but its module. -/
theorem Sound.unready (hi : i.Sound m s) (hmod : i'.mod = i.mod)
    (hstrategy : i'.strategy = i.strategy) (hruntime : i'.runtime = i.runtime)
    (hready : i'.ready = false) : i'.Sound m s :=
  ⟨hmod.trans hi.mod, hstrategy.trans hi.strategy, fun r hr => hi.prepared r (hruntime ▸ hr),
    fun h => absurd h (by simp [hready])⟩

/-- A state of the same shape is as good. -/
theorem Serves.put (hi : i.Serves m) {store : Store} (hstore : store.shape = i.store.shape)
    (guard : Guard) (ready : Bool) : { i with store, guard, ready }.Serves m :=
  ⟨⟨hi.prepared, hi.linked⟩, hi.depth, hi.hosts, hi.supplied.of_shape hstore,
    hi.sized.of_shape hstore⟩

@[inherit_doc Serves.put]
theorem Sound.put (hi : i.Sound m s) {store : Store}
    (hstore : store.shape = i.store.shape) (guard : Guard) : { i with store, guard }.Sound m s :=
  ⟨hi.mod, hi.strategy, hi.prepared, fun h => (hi.ready h).put hstore guard i.ready⟩

/-- What a stage of the set-up leaves: a sound instance, with more than that if
the stage succeeds. -/
def Stage (m : Module) (s : Strategy) (R : Instance H → Prop)
    (x : Except Halt Unit × Instance H × H) : Prop :=
  x.2.1.Sound m s ∧ (x.1 = .ok () → R x.2.1)

theorem Stage.bind {R Q : Instance H → Prop} {x y : Act H Unit} (hx : Stage m s R (x (i, h)))
    (hy : ∀ i h, i.Sound m s → R i → Stage m s Q (y (i, h))) :
    Stage m s Q ((x >>= fun _ => y) (i, h)) := by
  rw [bind_apply]
  generalize x (i, h) = r at hx ⊢
  obtain ⟨e | _, i', h'⟩ := r
  · exact ⟨hx.1, fun h => absurd h (by simp)⟩
  · exact hy i' h' hx.1 (hx.2 rfl)

theorem applyOptions_stage (hi : i.Sound m s) (options : Option Options) :
    Stage m s (fun i => i.ready = false ∧ i.options.maxCallDepth ≤ Options.highestCallDepth)
      (applyOptions options (i, h)) := by
  simp only [applyOptions]
  rcases ho : (options.getD i.options).validate with e | o
  · exact ⟨hi.unready rfl rfl rfl rfl, fun h => absurd h (by simp)⟩
  · refine ⟨hi.unready rfl rfl rfl rfl, fun _ => ⟨rfl, ?_⟩⟩
    rw [Options.validate] at ho
    split at ho
    · cases ho
    · next hle =>
      obtain rfl := Except.ok.inj ho
      exact Nat.le_of_not_lt hle

theorem link_stage (hi : i.Sound m s) (hready : i.ready = false)
    (hdepth : i.options.maxCallDepth ≤ Options.highestCallDepth) :
    Stage m s (fun i => i.ready = false ∧ i.Joined m ∧ m.OnlyFunctions) (link (i, h)) := by
  simp only [link]
  rcases i.store.memory with _ | mem
  · exact ⟨hi, fun h => absurd h (by simp)⟩
  · dsimp only
    rcases hfs : i.registry.resolve i.mod with e | fs
    · exact ⟨hi, fun h => absurd h (by simp)⟩
    · rw [hi.mod] at hfs
      refine ⟨hi.unready rfl rfl rfl hready, fun _ => ⟨hready, ⟨hdepth, ?_, ?_⟩, ?_⟩⟩
      · exact Registry.linked_of_resolve hfs i.policy
      · exact (Registry.types_of_resolve hfs).length_eq.symm
      · exact Registry.onlyFunctions_of_resolve hfs

theorem prepare_stage (hi : i.Sound m s) (hready : i.ready = false) (hjoined : i.Joined m) :
    Stage m s (fun i => i.ready = false ∧ i.runtime.isSome ∧ i.Joined m) (prepare (i, h)) := by
  simp only [prepare]
  rcases hr : i.runtime with _ | r
  · dsimp only
    rcases hprepare : Runtime.prepare i.strategy i.mod with e | r
    · exact ⟨hi, fun h => absurd h (by simp)⟩
    · refine ⟨⟨hi.mod, hi.strategy, ?_, fun h => absurd h (by simp [hready])⟩,
        fun _ => ⟨hready, rfl, ?_⟩⟩
      · rintro _ ⟨⟩
        rwa [hi.strategy, hi.mod] at hprepare
      · exact ⟨hjoined.depth, hjoined.linked, hjoined.hosts⟩
  · refine ⟨hi, fun _ => ⟨hready, ?_, hjoined⟩⟩
    simp [hr]

theorem instantiate_stage (hm : m.Valid) (hi : i.Sound m s) (hready : i.ready = false)
    (hprepared : i.runtime.isSome) (hjoined : i.Joined m) (honly : m.OnlyFunctions) :
    Stage m s (fun i => i.ready = true) (instantiate (i, h)) := by
  simp only [instantiate]
  rcases hstore : i.store.instantiate i.mod i.options with ⟨e | _, store⟩
  · exact ⟨hi.unready rfl rfl rfl hready, fun h => absurd h (by simp)⟩
  · rw [hi.mod] at hstore
    refine ⟨⟨hi.mod, hi.strategy, hi.prepared, fun _ => ?_⟩, fun _ => rfl⟩
    exact ⟨⟨hprepared, hjoined.linked⟩, hjoined.depth, hjoined.hosts,
      Store.instantiate_supplies honly hm.elements hstore, Store.instantiate_sized hstore⟩

/-- **An instance that has been set up is ready**, with all it needs. -/
theorem build_stage (hm : m.Valid) (hi : i.Sound m s) (options : Option Options) :
    Stage m s (fun i => i.ready = true) (build options (i, h)) := by
  refine (applyOptions_stage hi options).bind ?_
  rintro i₁ h₁ hi₁ ⟨hready₁, hdepth⟩
  refine (link_stage hi₁ hready₁ hdepth).bind ?_
  rintro i₂ h₂ hi₂ ⟨hready₂, hjoined₂, honly⟩
  refine (prepare_stage hi₂ hready₂ hjoined₂).bind ?_
  rintro i₃ h₃ hi₃ ⟨hready₃, hprepared, hjoined₃⟩
  exact instantiate_stage hm hi₃ hready₃ hprepared hjoined₃ honly

/-! ### Operations -/

theorem sound_ran (hi : i.Sound m s) {x : Except Halt (List Value) × World H}
    (hx : x.2.store.shape = i.store.shape) : (i.ran x).2.1.Sound m s := by
  obtain ⟨e | vs, w⟩ := x
  · exact hi.put hx _
  · exact hi.put hx _

/-- A call leaves the instance sound, whatever it comes to. -/
theorem sound_run (hi : i.Sound m s) (bound func : Nat) (args : List Value) :
    (run bound func args (i, h)).2.1.Sound m s := by
  rcases hr : i.runtime with _ | r
  · simp only [run, hr]
    exact hi
  · rw [run_eq_ran hr]
    exact sound_ran hi (r.shape_invoke _ bound func args _)

/-- What a plan does to a sound instance. -/
inductive Plan.Sound (m : Module) (s : Strategy) : Plan H → Prop
  /-- There is nothing to run. -/
  | done {r i h} (hi : Instance.Sound m s i) : Sound m s (.done r i h)
  /-- A function of the module is called with arguments of its types, on
  an instance that is ready. -/
  | call {i h func t args answer ready} (hi : Instance.Sound m s i) (hready : ∀ b, ready b = true →
    b = true) (hnow : i.ready = true)
    (ht : m.funcType? func = some t) (hargs : args.map Value.type = t.params) :
    Sound m s (.call i h func args answer ready)

theorem sound_planCall (hi : i.Sound m s) (space name : String) (args : List Value)
    (answer : List Value → Except Error Answer) (refuse : Nat → Option Error) :
    (planCall i h space name args answer refuse).Sound m s := by
  rw [planCall]
  rcases hlookup : i.lookup space name args with e | ⟨func, results⟩
  · exact .done hi
  · dsimp only
    rcases refuse results with _ | e
    · obtain ⟨hnow, t, ht, hargs⟩ := of_lookup hlookup
      exact .call hi (fun _ h => h) hnow (hi.mod ▸ ht) hargs
    · exact .done hi

theorem sound_plan (hm : m.Valid) (hi : i.Sound m s) (op : Operation H) :
    (op.plan i h).Sound m s := by
  cases op with
  | setMemory | setRegistry => exact .done (hi.unready rfl rfl rfl rfl)
  | setUp options =>
    have hbuild := build_stage (h := h) hm hi options
    simp only [Operation.plan]
    generalize build options (i, h) = x at hbuild ⊢
    obtain ⟨e | _, i', h'⟩ := x
    · exact .done hbuild.1
    · dsimp only
      rcases hstart : i'.mod.start with _ | func
      · exact .done hbuild.1
      · rw [hbuild.1.mod] at hstart
        refine .call hbuild.1 ?_ (hbuild.2 rfl) (hm.start hstart) rfl
        rintro b ⟨⟩
  | invoke | call | callForValue | callTyped =>
    rw [Operation.plan]
    exact sound_planCall hi _ _ _ _ _
  | memory op =>
    have hstore := i.store.shape_onMemory fun mem => mem.apply op
    simp only [Operation.plan, onMemory]
    generalize (i.store.onMemory fun mem => mem.apply op) = x at hstore ⊢
    obtain ⟨e | reply, store⟩ := x
    · exact .done (hi.put hstore i.guard)
    · exact .done (hi.put hstore i.guard)

/-- An operation leaves the instance sound, whatever it comes to. -/
theorem sound_act (hm : m.Valid) (hi : i.Sound m s) (op : Operation H) (bound : Nat) :
    (op.act bound (i, h)).2.1.Sound m s := by
  rw [act_eq_plan]
  have hplan := sound_plan (h := h) hm hi op
  generalize op.plan i h = p at hplan ⊢
  cases hplan with
  | done hi => exact hi
  | @call i h func t args answer ready hi hready =>
    have hrun := sound_run (h := h) hi bound func args
    simp only [Plan.run]
    generalize run bound func args (i, h) = x at hrun ⊢
    obtain ⟨e | vs, i', h'⟩ := x
    · exact ⟨hrun.mod, hrun.strategy, hrun.prepared,
        fun h => (hrun.ready (hready _ h)).put rfl i'.guard _⟩
    · exact hrun

/-- **Every history leaves the instance sound.** -/
theorem sound_through (hm : m.Valid) (hi : i.Sound m s) (past : List (Occasion H)) :
    (i.through past).Sound m s := by
  induction past generalizing i with
  | nil => exact hi
  | cons o os ih => exact ih (sound_act hm hi o.operation o.bound)

end Instance

end WasmEngine
