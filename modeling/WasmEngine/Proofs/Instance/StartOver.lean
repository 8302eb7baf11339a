import WasmEngine.Proofs.Instance.Operation
import WasmEngine.Proofs.Mirrors
import WasmEngine.Proofs.Store

/-!
# Setting up an instance starts it over

Whatever an instance went through, setting it up again leads to the same
instance, and to the same outcome if it fails
(`WasmEngine.Instance.setUp_starts_over`). What it may depend on are the
**settings** (`WasmEngine.Instance.Settings`): the functions that the host
offers, the byte limit of the memory and the options. An operation sets them by
itself (`WasmEngine.Instance.Settings.after`), or not at all: code that runs in
between, a failed set-up and what is written into the memory from outside leave
them as they are.

One thing is kept on purpose: the prepared module. It does not matter, since it
depends on the module and the strategy only (`WasmEngine.Instance.Bound`).
-/

namespace WasmEngine.Instance

open Run

variable {H : Type}

/-! ### Settings -/

/-- What setting up an instance may depend on. -/
structure Settings (H : Type) where
  /-- The functions that the host offers. -/
  registry : Registry H
  /-- The byte limit of the memory, once there is one. -/
  limit : Option Nat
  /-- The limits in effect. -/
  options : Options

/-- The settings of a new instance. -/
def Settings.initial (options : Options) : Settings H := ⟨{}, none, options⟩

/-- The settings that an operation leaves. -/
def Settings.after (s : Settings H) : Operation H → Settings H
  | .setMemory byteLimit => { s with limit := some byteLimit }
  | .setRegistry r => { s with registry := r }
  | .setUp options =>
    match (options.getD s.options).validate with
    | .ok o => { s with options := o }
    | .error _ => s
  | _ => s

/-- The settings at the end of a history. -/
def Settings.through (s : Settings H) : List (Occasion H) → Settings H
  | [] => s
  | o :: os => through (s.after o.operation) os

/-- **An instance of a module, a strategy and a float policy** with given
settings. If the module is prepared, then as the strategy says. -/
structure Bound (m : Module) (s : Strategy) (p : FloatPolicy) (settings : Settings H)
    (i : Instance H) : Prop where
  mod_eq : i.mod = m
  strategy_eq : i.strategy = s
  policy_eq : i.policy = p
  registry_eq : i.registry = settings.registry
  limit_eq : i.store.limit = settings.limit
  options_eq : i.options = settings.options
  prepared : ∀ r, i.runtime = some r → Runtime.prepare s m = .ok r

/-! ### Operations and settings -/

section Step

variable {m : Module} {s : Strategy} {p : FloatPolicy} {settings : Settings H} {i : Instance H}

theorem bound_fresh (m : Module) (s : Strategy) (p : FloatPolicy) (o : Options) :
    Bound (H := H) m s p (.initial o) (fresh m s p o) :=
  ⟨rfl, rfl, rfl, rfl, rfl, rfl, fun _ h => absurd h (by simp [fresh])⟩

/-- Running code changes the store and the guard. -/
theorem run_eq (bound func : Nat) (args : List Value) (i : Instance H) (h : H) :
    ∃ store guard, (run bound func args (i, h)).2.1 = { i with store, guard } ∧
    store.limit = i.store.limit := by
  obtain ⟨mod, strategy, policy, options, registry, hosts, _ | r, store, guard, ready⟩ := i
  · exact ⟨store, guard, rfl, rfl⟩
  · have hlimit :
      ((r.invoke ⟨mod, policy, hosts⟩ bound func args) ⟨store, guard, h⟩).2.store.limit =
      store.limit := by
      cases r with
      | interpreter =>
        exact Interpreter.invoke_keeps (fun _ _ => rfl) World.steady_limit _ bound func args _
      | compiled c =>
        exact Compiled.invoke_keeps (fun _ _ => rfl) World.steady_limit _ c bound func args _
    simp only [run]
    generalize r.invoke ⟨mod, policy, hosts⟩ bound func args ⟨store, guard, h⟩ = x at hlimit ⊢
    obtain ⟨e | vs, w⟩ := x
    · exact ⟨w.store, w.guard.reset options.maxCallDepth, rfl, hlimit⟩
    · exact ⟨w.store, w.guard, rfl, hlimit⟩

theorem Bound.store (hi : Bound m s p settings i) {store : Store} {guard : Guard} {ready : Bool}
    (h : store.limit = i.store.limit) : Bound m s p settings { i with store, guard, ready } :=
  { hi with limit_eq := h.trans hi.limit_eq }

theorem Bound.run (bound func : Nat) (args : List Value) :
    Preserves (fun x : Instance H × H => Bound m s p settings x.1) (run bound func args) := by
  rintro ⟨i, h⟩ hi
  obtain ⟨store, guard, heq, hlimit⟩ := run_eq bound func args i h
  have hstore : Bound m s p settings { i with store, guard } := hi.store hlimit
  exact heq ▸ hstore

theorem Bound.applyOptions (hi : Bound m s p settings i) (options : Option Options) (h : H) :
    Bound m s p (settings.after (.setUp options)) (applyOptions options (i, h)).2.1 := by
  have hoptions : options.getD i.options = options.getD settings.options := by rw [hi.options_eq]
  simp only [Instance.applyOptions, Settings.after]
  rw [hoptions]
  cases (options.getD settings.options).validate with
  | error e => exact { hi with }
  | ok o => exact { hi with options_eq := rfl }

theorem Bound.link : Preserves (fun x : Instance H × H => Bound m s p settings x.1) link := by
  rintro ⟨i, h⟩ hi
  simp only [Instance.link]
  split
  · exact hi
  · split
    · exact { hi with }
    · exact hi

theorem Bound.prepare : Preserves (fun x : Instance H × H => Bound m s p settings x.1) prepare := by
  rintro ⟨i, h⟩ hi
  simp only [Instance.prepare]
  split
  · exact hi
  · split
    · next r hr =>
      refine { hi with prepared := fun r' hr' => ?_ }
      rw [← hi.strategy_eq, ← hi.mod_eq, hr, Option.some.inj hr']
    · exact hi

theorem Bound.instantiate :
    Preserves (fun x : Instance H × H => Bound m s p settings x.1) instantiate := by
  rintro ⟨i, h⟩ hi
  have hlimit := i.store.limit_instantiate i.mod i.options
  simp only [Instance.instantiate]
  generalize i.store.instantiate i.mod i.options = r at hlimit ⊢
  obtain ⟨e | _, store⟩ := r
  · exact hi.store hlimit
  · exact hi.store hlimit

theorem Bound.start (bound : Nat) : Preserves (fun x : Instance H × H => Bound m s p settings x.1)
    (start bound) := by
  rintro ⟨i, h⟩ hi
  simp only [Instance.start]
  cases i.mod.start with
  | none => exact hi
  | some func =>
    have hrun := Bound.run bound func [] (i, h) hi
    dsimp only at hrun ⊢
    generalize Instance.run bound func [] (i, h) = r at hrun ⊢
    obtain ⟨e | vs, i', h'⟩ := r
    · exact hrun.store rfl
    · exact hrun

theorem Bound.setUp (hi : Bound m s p settings i) (bound : Nat) (options : Option Options) (h : H) :
    Bound m s p (settings.after (.setUp options)) (setUp bound options (i, h)).2.1 := by
  have hoptions := hi.applyOptions options h
  rw [Instance.setUp, bind_apply]
  generalize Instance.applyOptions options (i, h) = r at hoptions ⊢
  obtain ⟨e | _, i', h'⟩ := r
  · exact hoptions
  · have hrest :
      Preserves (fun x : Instance H × H => Bound m s p (settings.after (.setUp options)) x.1)
        (do Instance.link; Instance.prepare; Instance.instantiate; Instance.start bound) :=
      Bound.link.bind fun _ => Bound.prepare.bind fun _ => Bound.instantiate.bind
        fun _ => Bound.start bound
    exact hrest (i', h') hoptions

/-- A look-up comes first in every call, and then code runs or not. -/
theorem Bound.invoke (bound : Nat) (name : String) (args : List Value) :
    Preserves (fun x : Instance H × H => Bound m s p settings x.1) (invoke bound name args) := by
  rintro ⟨i, h⟩ hi
  simp only [Instance.invoke]
  split
  · exact Bound.run bound _ args (i, h) hi
  · exact hi

theorem Bound.call (bound : Nat) (space name : String) (args : List Value) :
    Preserves (fun x : Instance H × H => Bound m s p settings x.1)
      (call bound space name args) := by
  rintro ⟨i, h⟩ hi
  simp only [Instance.call]
  split
  · next func _ _ =>
    have hrun := Bound.run bound func args (i, h) hi
    generalize Instance.run bound func args (i, h) = r at hrun ⊢
    obtain ⟨e | vs, x⟩ := r <;> exact hrun
  · exact hi

theorem Bound.callForValue (bound : Nat) (space name : String) (args : List Value) :
    Preserves (fun x : Instance H × H => Bound m s p settings x.1)
      (callForValue bound space name args) := by
  rintro ⟨i, h⟩ hi
  simp only [Instance.callForValue]
  split
  · next func results _ =>
    split
    · exact hi
    · have hrun := Bound.run bound func args (i, h) hi
      generalize Instance.run bound func args (i, h) = r at hrun ⊢
      obtain ⟨e | vs, x⟩ := r <;> exact hrun
  · exact hi

/-- **What an operation does to the settings** is what it says. -/
theorem Bound.act (hi : Bound m s p settings i) (bound : Nat) (op : Operation H) (h : H) :
    Bound m s p (settings.after op) (op.act bound (i, h)).2.1 := by
  cases op with
  | setMemory byteLimit => exact { hi with limit_eq := rfl }
  | setRegistry r => exact { hi with registry_eq := rfl }
  | setUp options =>
    have hset := hi.setUp bound options h
    rw [Operation.act, bind_apply]
    generalize Instance.setUp bound options (i, h) = r at hset ⊢
    obtain ⟨e | _, x⟩ := r <;> exact hset
  | invoke name args => exact (Bound.invoke bound name args).bind (fun _ _ => id) (i, h) hi
  | call space name args => exact (Bound.call bound space name args).bind (fun _ _ => id) (i, h) hi
  | callForValue space name args =>
    exact (Bound.callForValue bound space name args).bind (fun _ _ => id) (i, h) hi
  | callTyped name args results =>
    refine Preserves.bind ((Bound.invoke bound name args).bind fun vs => ?_)
      (fun _ _ => id) (i, h) hi
    rintro x hx
    cases expectResults results vs <;> exact hx
  | memory op =>
    have hlimit : (i.store.onMemory fun mem => mem.apply op).2.limit = i.store.limit :=
      i.store.limit_onMemory fun mem => mem.byteLimit_apply op
    simp only [Operation.act, Instance.onMemory, Settings.after]
    generalize (i.store.onMemory fun mem => mem.apply op) = r at hlimit ⊢
    obtain ⟨e | _, store⟩ := r
    · exact hi.store hlimit
    · exact hi.store hlimit

theorem Bound.through (hi : Bound m s p settings i) (past : List (Occasion H)) :
    Bound m s p (settings.through past) (i.through past) := by
  induction past generalizing i settings with
  | nil => exact hi
  | cons o os ih => exact ih (hi.act o.bound o.operation o.host)

end Step

/-! ### Setting up -/

/-- Two instances that are alike up to what setting up replaces. -/
structure Alike (i j : Instance H) : Prop where
  mod_eq : i.mod = j.mod
  strategy_eq : i.strategy = j.strategy
  policy_eq : i.policy = j.policy
  registry_eq : i.registry = j.registry
  limit_eq : i.store.limit = j.store.limit
  left_prepared : ∀ r, i.runtime = some r → Runtime.prepare i.strategy i.mod = .ok r
  right_prepared : ∀ r, j.runtime = some r → Runtime.prepare j.strategy j.mod = .ok r

/-- The same options are in effect in both. -/
structure Limited (i j : Instance H) : Prop extends Alike i j where
  options_eq : i.options = j.options
  guard_eq : i.guard = j.guard
  ready_eq : i.ready = j.ready

/-- Both are linked to the same functions. -/
structure Linked (i j : Instance H) : Prop extends Limited i j where
  hosts_eq : i.hosts = j.hosts

/-- Both are prepared. -/
structure Prepared (i j : Instance H) : Prop extends Linked i j where
  runtime_eq : i.runtime = j.runtime

section SetUp

variable {i j : Instance H} (h : H)

/-- Results that agree on the context of the host, and on instances as far as a
relation says. -/
abbrev Agree (R : Instance H → Instance H → Prop) : Except Halt Unit × Instance H × H →
    Except Halt Unit × Instance H × H → Prop :=
  Matches (fun _ x _ y => x.2 = y.2 ∧ R x.1 y.1) fun x y => x.2 = y.2

theorem applyOptions_agree {options options' : Option Options} (hij : Alike i j)
    (ho : options.getD i.options = options'.getD j.options) :
    Agree Limited (applyOptions options (i, h)) (applyOptions options' (j, h)) := by
  simp only [applyOptions, ho]
  cases (options'.getD j.options).validate with
  | error e => exact ⟨rfl, rfl⟩
  | ok o => exact ⟨rfl, { hij with options_eq := rfl, guard_eq := rfl, ready_eq := rfl }⟩

theorem link_agree (hij : Limited i j) : Agree Linked (link (i, h)) (link (j, h)) := by
  have hlimit := hij.limit_eq
  have hresolve : i.registry.resolve i.mod =
    j.registry.resolve j.mod := by rw [hij.registry_eq, hij.mod_eq]
  simp only [Store.limit] at hlimit
  simp only [link]
  rw [hresolve]
  rcases hi : i.store.memory with _ | mem <;> rcases hj :
    j.store.memory with _ | mem' <;> rw [hi, hj] at hlimit
  · exact ⟨rfl, rfl⟩
  · cases hlimit
  · cases hlimit
  · cases j.registry.resolve j.mod with
    | error e => exact ⟨rfl, rfl⟩
    | ok fs => exact ⟨rfl, { hij with hosts_eq := rfl }⟩

/-- A module that was prepared before is prepared as it would be now. -/
theorem prepare_agree (hij : Linked i j) : Agree Prepared (prepare (i, h)) (prepare (j, h)) := by
  have hsame : Runtime.prepare i.strategy i.mod = Runtime.prepare j.strategy
    j.mod := by rw [hij.strategy_eq, hij.mod_eq]
  simp only [prepare]
  rcases hi : i.runtime with _ | r <;> rcases hj : j.runtime with _ | r'
  · rw [hsame]
    cases hp : Runtime.prepare j.strategy j.mod with
    | error e => exact ⟨rfl, rfl⟩
    | ok r =>
      refine ⟨rfl, { hij with
        left_prepared := fun r' hr' => ?_, right_prepared := fun r' hr' => ?_, runtime_eq := rfl }⟩
      · rw [← Option.some.inj hr', ← hp, ← hsame]
      · rw [← Option.some.inj hr', ← hp]
  · have hp := hij.right_prepared r' hj
    rw [hsame, hp]
    refine ⟨rfl, { hij with left_prepared := fun r'' hr'' => ?_, runtime_eq := hj.symm }⟩
    rw [← Option.some.inj hr'', ← hp, ← hsame]
  · have hp := hij.left_prepared r hi
    rw [← hsame, hp]
    refine ⟨rfl, { hij with right_prepared := fun r'' hr'' => ?_, runtime_eq := hi }⟩
    rw [← Option.some.inj hr'', ← hp, ← hsame]
  · have hr : r = r' := by
      have hleft := hij.left_prepared r hi
      rw [hsame, hij.right_prepared r' hj] at hleft
      exact (Except.ok.inj hleft).symm
    exact ⟨rfl, { hij with runtime_eq := by rw [hi, hj, hr] }⟩

theorem instantiate_agree (hij : Prepared i j) :
    Agree Eq (instantiate (i, h)) (instantiate (j, h)) := by
  obtain ⟨hreply, hstore⟩ := Store.instantiate_eq_of_limit_eq hij.limit_eq j.mod j.options
  have hsame : i.store.instantiate i.mod i.options = i.store.instantiate j.mod
    j.options := by rw [hij.mod_eq, hij.options_eq]
  simp only [instantiate]
  rw [hsame]
  generalize i.store.instantiate j.mod j.options = r at hreply hstore ⊢
  generalize j.store.instantiate j.mod j.options = r' at hreply hstore ⊢
  obtain ⟨e | _, s⟩ := r <;> obtain ⟨e' | _, s'⟩ := r'
  · exact ⟨congrArg _ (Except.error.inj hreply), rfl⟩
  · cases hreply
  · cases hreply
  · -- Nothing is left in which they could differ.
    refine ⟨rfl, ?_⟩
    cases i
    cases j
    have := hstore rfl
    obtain ⟨⟨⟨⟨hmod, hstrategy, hpolicy, hregistry, -, -, -⟩, hoptions, hguard, -⟩, hhosts⟩,
      hruntime⟩ := hij
    simp only at *
    subst_vars
    rfl

/-- **Setting up two instances of the same settings**: they agree, and in
the end they are equal. -/
theorem setUp_agree {options options' : Option Options} (hij : Alike i j)
    (ho : options.getD i.options = options'.getD j.options) (bound : Nat) :
    Agree Eq (setUp bound options (i, h)) (setUp bound options' (j, h)) := by
  refine (applyOptions_agree h hij ho).bind fun _ x _ y hxy => ?_
  obtain ⟨i₁, h₁⟩ := x
  obtain ⟨j₁, _⟩ := y
  obtain ⟨rfl, hlimited⟩ := hxy
  refine (link_agree h₁ hlimited).bind fun _ x _ y hxy => ?_
  obtain ⟨i₂, h₂⟩ := x
  obtain ⟨j₂, _⟩ := y
  obtain ⟨rfl, hlinked⟩ := hxy
  refine (prepare_agree h₂ hlinked).bind fun _ x _ y hxy => ?_
  obtain ⟨i₃, h₃⟩ := x
  obtain ⟨j₃, _⟩ := y
  obtain ⟨rfl, hprepared⟩ := hxy
  refine (instantiate_agree h₃ hprepared).bind fun _ x _ y hxy => ?_
  obtain ⟨i₄, h₄⟩ := x
  obtain ⟨j₄, _⟩ := y
  obtain ⟨rfl, rfl⟩ := hxy
  generalize start bound (i₄, h₄) = r
  obtain ⟨e | _, i₅, h₅⟩ := r
  · exact ⟨rfl, rfl⟩
  · exact ⟨rfl, rfl⟩

end SetUp

/-- **Setting up starts over.** Take two instances of a module, a strategy and a
float policy, with any histories of their own, that have been given the same
functions and memories of the same byte limit, and set both up with the same
options in effect. Both succeed or both fail with the same error, and leave the
same context of the host. If they succeed, the instances are equal: in globals,
tables, memory and guard and all else, so that they answer alike whatever is
done later. -/
theorem setUp_starts_over (m : Module) (s : Strategy) (p : FloatPolicy) (o o' : Options)
    (past past' : List (Occasion H)) (options options' : Option Options)
    (hregistry : ((Settings.initial o).through past).registry =
      ((Settings.initial o').through past').registry)
    (hlimit : ((Settings.initial o).through past).limit =
      ((Settings.initial o').through past').limit)
    (hoptions : options.getD ((Settings.initial o).through past).options =
      options'.getD ((Settings.initial o').through past').options) (bound : Nat) (h : H) :
    let r := setUp bound options ((fresh m s p o).through past, h)
    let r' := setUp bound options' ((fresh m s p o').through past', h)
    r.1 = r'.1 ∧ r.2.2 = r'.2.2 ∧
      (r.1 = .ok () → r.2.1 = r'.2.1 ∧ ∀ later, r.2.1.answers later = r'.2.1.answers later) := by
  have hi := (bound_fresh (H := H) m s p o).through past
  have hj := (bound_fresh (H := H) m s p o').through past'
  have halike : Alike ((fresh m s p o).through past) ((fresh m s p o').through past') := by
    refine ⟨by rw [hi.mod_eq, hj.mod_eq], by rw [hi.strategy_eq, hj.strategy_eq],
      by rw [hi.policy_eq, hj.policy_eq], by rw [hi.registry_eq, hj.registry_eq, hregistry], by
        rw [hi.limit_eq, hj.limit_eq, hlimit], ?_, ?_⟩
    · rw [hi.strategy_eq, hi.mod_eq]
      exact hi.prepared
    · rw [hj.strategy_eq, hj.mod_eq]
      exact hj.prepared
  rw [← hi.options_eq, ← hj.options_eq] at hoptions
  have hagree := setUp_agree h halike hoptions bound
  intro r r'
  generalize hr : setUp bound options ((fresh m s p o).through past, h) = x at hagree
  generalize hr' : setUp bound options' ((fresh m s p o').through past', h) = y at hagree
  simp only [r, r', hr, hr']
  obtain ⟨e | _, i, h₁⟩ := x <;> obtain ⟨e' | _, j, h₂⟩ := y
  · refine ⟨congrArg Except.error hagree.1, hagree.2, ?_⟩
    rintro ⟨⟩
  · exact hagree.elim
  · exact hagree.elim
  · obtain ⟨hhost, heq⟩ := hagree
    exact ⟨rfl, hhost, fun _ => ⟨heq, fun later => congrArg (answers · later) heq⟩⟩

/-- A module with a page of memory and a counter: a call of `bump` adds one to
the counter and traps. -/
def counter : Module where
  types := #[⟨[], []⟩]
  funcs :=
    #[⟨0, [], #[.plain (.globalGet 0), .plain (.const (.i32 1)), .plain (.binary (.int .w32 .add)),
      .plain (.globalSet 0), .plain .unreachable, .plain .ret]⟩]
  exports := [⟨"bump", .func, 0⟩]
  globals := [⟨⟨true, .i32⟩, .value (.i32 0)⟩]
  memories := [⟨1, some 2⟩]

/-- One counter was bumped, had its memory written to and was refused a ceiling
that is too high, the other is new. -/
theorem counter_starts_over :
    let past : List (Occasion Unit) :=
      [⟨(), 9, .setMemory 65536⟩, ⟨(), 9, .setUp none⟩, ⟨(), 9, .invoke "bump" []⟩,
      ⟨(), 9, .memory (.poke 3 7)⟩, ⟨(), 9, .setUp (some ⟨1000, 1⟩)⟩]
    let past' : List (Occasion Unit) := [⟨(), 0, .setMemory 65536⟩]
    ((Settings.initial {}).through past).registry =
    ((Settings.initial ⟨7, 1⟩).through past').registry ∧
      ((Settings.initial {}).through past).limit = ((Settings.initial ⟨7, 1⟩).through past').limit ∧
      (some ⟨7, 1⟩ : Option Options).getD ((Settings.initial {}).through past).options =
        none.getD ((Settings.initial ⟨7, 1⟩).through past').options ∧
      let r := setUp 9 (some ⟨7, 1⟩) ((fresh counter .interpreter .soft {}).through past, ())
      let r' := setUp 9 none ((fresh counter .interpreter .soft ⟨7, 1⟩).through past', ())
      r.1 = r'.1 ∧ r.2.2 = r'.2.2 ∧
        (r.1 = .ok () → r.2.1 = r'.2.1 ∧ ∀ later, r.2.1.answers later = r'.2.1.answers later) :=
  ⟨rfl, rfl, rfl, setUp_starts_over counter .interpreter .soft {} ⟨7, 1⟩ _ _ (some ⟨7, 1⟩)
    none rfl rfl rfl 9 ()⟩

end WasmEngine.Instance
