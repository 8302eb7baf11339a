import WasmEngine.Proofs.Calls.Typed
import WasmEngine.Proofs.Instance.Soundness
import WasmEngine.Proofs.Numeric.Narrow

/-!
# 32-bit values are zero-extended at all times

All that an instance holds between operations are globals, and all that it holds
besides while it runs code are the operands and locals of the functions that are
active. If a condition on values is upheld where values are made, it holds of
all of these at all times: globals start out with values of their types
(`WasmEngine.Store.Carries.instantiate`), operations keep that
(`WasmEngine.Instance.carries_through`), and so do the states of every call on
the way (`WasmEngine.Site.Reaches.typed`).

That the high half of every 32-bit value is zero is such a condition
(`WasmEngine.Instance.narrow_zero_extended`).
-/

namespace WasmEngine

open Run

variable {H : Type} {V : ValType → Raw → Prop} {m : Module}

/-! ### Building the state -/

namespace Store

variable {p : FloatPolicy} {s : Store}

/-- A constant is of the type of the global that it initialises. -/
theorem Carries.constant (hp : p.Upholds V) (h : s.Carries V m) {g : Global}
    (hg : g.IsInitialised m.globalTypes) {r : Raw} (hr : s.constant g.init = .ok r) :
    V g.type.type r := by
  obtain ⟨hvalue, hglobal⟩ := hg
  cases hinit : g.init with
  | value v =>
    rw [hinit] at hr
    obtain rfl := Except.ok.inj hr
    rw [← hvalue v hinit]
    exact hp.value v
  | globalGet i =>
    rw [hinit] at hr
    obtain ⟨t, ht, htype⟩ := hglobal i hinit
    rw [← htype]
    exact h.global ht hr
  | refNull | refFunc =>
    rw [hinit] at hr
    cases hr

/-- Globals are added one by one, each behind those that are there. -/
theorem Carries.addGlobals (hp : p.Upholds V) (honly : m.OnlyFunctions)
    (hm : ∀ g ∈ m.globals, g.IsInitialised m.globalTypes) (before : List Global) {gs : List Global}
    (hgs : before ++ gs = m.globals) (hsize : s.globals.size = before.length) (h : s.Carries V m) :
    (s.addGlobals gs).2.Carries V m := by
  induction gs generalizing s before with
  | nil => exact h
  | cons g gs ih =>
    rw [Store.addGlobals]
    rcases hconst : s.constant g.init with e | r
    · exact h
    · have hr : V g.type.type r := h.constant hp (hm g (hgs ▸ by simp)) hconst
      refine ih (before ++ [g]) (by simpa using hgs) (by simp [hsize]) ?_
      intro i t r' ht hr'
      rw [Array.getElem?_push] at hr'
      split at hr'
      · next hi =>
        -- the new global is at the index of its declaration
        rw [hi, hsize, honly.globalTypes, ← hgs] at ht
        obtain rfl : g.type = t := by simpa using ht
        exact Option.some.inj hr' ▸ hr
      · exact h i t r' ht hr'

/-- **The state that is built for a module has globals of their types**, be it
complete or not. -/
theorem Carries.instantiate (hp : p.Upholds V) (honly : m.OnlyFunctions)
    (hm : ∀ g ∈ m.globals, g.IsInitialised m.globalTypes) (h : s.Carries V m) (o : Options) :
    (s.instantiate m o).2.Carries V m := by
  refine instantiate_preserves (P := Carries V m) ?_ (fun s' _ => ?_) (fun _ _ hs => hs)
    (fun s' e _ hs => ?_) fun s' d _ hs => ?_
  · rw [globals_resetMemory]
    exact h
  · refine addGlobals hp honly hm [] rfl rfl ?_
    intro i t r _ hr
    simp at hr
  · rw [addElement]
    split
    · split
      · exact hs
      · split
        · exact hs
        · split <;> exact hs
    · exact hs
  · rw [addData]
    split
    · split
      · exact hs
      · split
        · exact hs
        · exact hs.onMemory _
    · exact hs

end Store

namespace Instance

variable {s : Strategy} {i : Instance H} {h : H}

/-! ### Between operations -/

/-- The globals of an instance meet a condition on their types, which its policy
upholds. -/
structure Carries (V : ValType → Raw → Prop) (m : Module) (i : Instance H) : Prop where
  /-- What computes values upholds the condition. -/
  values : i.policy.Upholds V
  /-- The globals meet it. -/
  store : i.store.Carries V m

theorem carries_fresh {p : FloatPolicy} (hp : p.Upholds V) (m : Module)
    (s : Strategy) (o : Options) : (fresh m s p o : Instance H).Carries V m := by
  refine ⟨hp, ?_⟩
  intro i g r _ hr
  simp [fresh] at hr

/-- A step after another, where the second may rely on what the first leaves if
it succeeds. -/
theorem carries_bind {R : Instance H → Prop} {x y : Act H Unit} (hx : (x (i, h)).2.1.Carries V m)
    (hR : (x (i, h)).1 = .ok () → R (x (i, h)).2.1)
    (hy : ∀ i h, i.Carries V m → R i → (y (i, h)).2.1.Carries V m) :
    ((x >>= fun _ => y) (i, h)).2.1.Carries V m := by
  rw [bind_apply]
  generalize x (i, h) = r at hx hR ⊢
  obtain ⟨e | _, i', h'⟩ := r
  · exact hx
  · exact hy i' h' hx (hR rfl)

/-- A set-up gets to the globals only if nothing but functions is imported. -/
theorem carries_build (hm : m.Valid) (hi : i.Sound m s) (hc : i.Carries V m)
    (options : Option Options) : (build options (i, h)).2.1.Carries V m := by
  refine carries_bind (R := fun i => i.mod = m) ?_ (fun _ => ?_) fun i₁ h₁ hc₁ hmod₁ => ?_
  · simp only [applyOptions]
    split <;> exact ⟨hc.values, hc.store⟩
  · exact (applyOptions_stage hi options).1.mod
  refine carries_bind (R := fun i => i.mod = m ∧ m.OnlyFunctions) ?_ ?_ fun i₂ h₂ hc₂ hlinked => ?_
  · simp only [link]
    split
    · exact hc₁
    · split
      · exact ⟨hc₁.values, hc₁.store⟩
      · exact hc₁
  · simp only [link, hmod₁]
    split
    · rintro ⟨⟩
    · split
      · next hfs => exact fun _ => ⟨rfl, Registry.onlyFunctions_of_resolve hfs⟩
      · rintro ⟨⟩
  obtain ⟨hmod₂, honly⟩ := hlinked
  refine carries_bind (R := fun i => i.mod = m) ?_ (fun _ => ?_) fun i₃ h₃ hc₃ hmod₃ => ?_
  · simp only [prepare]
    split
    · exact hc₂
    · split
      · exact ⟨hc₂.values, hc₂.store⟩
      · exact hc₂
  · simp only [prepare]
    split
    · exact hmod₂
    · split <;> exact hmod₂
  · have hstore := hc₃.store.instantiate hc₃.values honly hm.globals i₃.options
    simp only [instantiate, hmod₃]
    generalize i₃.store.instantiate m i₃.options = r at hstore ⊢
    obtain ⟨e | _, store⟩ := r
    · exact ⟨hc₃.values, hstore⟩
    · exact ⟨hc₃.values, hstore⟩

/-- The instance that a plan starts from meets the condition. -/
def Plan.Carries (V : ValType → Raw → Prop) (m : Module) : Plan H → Prop
  | .done _ i _ | .call i _ _ _ _ _ => i.Carries V m

theorem carries_planCall (hc : i.Carries V m) (space name : String) (args : List Value)
    (answer : List Value → Except Error Answer) (refuse : Nat → Option Error) :
    (planCall i h space name args answer refuse).Carries V m := by
  rw [planCall]
  split
  · exact hc
  · split <;> exact hc

theorem carries_plan (hm : m.Valid) (hi : i.Sound m s) (hc : i.Carries V m) (op : Operation H) :
    (op.plan i h).Carries V m := by
  cases op with
  | setMemory | setRegistry => exact ⟨hc.values, hc.store⟩
  | setUp options =>
    have hbuild := carries_build (h := h) hm hi hc options
    simp only [Operation.plan]
    generalize build options (i, h) = x at hbuild ⊢
    obtain ⟨e | _, i', h'⟩ := x
    · exact hbuild
    · dsimp only
      split <;> exact hbuild
  | invoke | call | callForValue | callTyped =>
    rw [Operation.plan]
    exact carries_planCall hc _ _ _ _ _
  | memory op =>
    have hstore := hc.store.onMemory fun mem => mem.apply op
    simp only [Operation.plan, onMemory]
    generalize (i.store.onMemory fun mem => mem.apply op) = x at hstore ⊢
    obtain ⟨e | reply, store⟩ := x
    · exact ⟨hc.values, hstore⟩
    · exact ⟨hc.values, hstore⟩

/-! ### While code runs -/

/-- **The code that an operation runs**, from the site where it starts. -/
inductive Starts (i : Instance H) (h : H) (op : Operation H) : Env H → Runtime → Site H → Prop
  /-- A function is called on the instance that is there by then. -/
  | mk {i' h' func args answer ready r} (hplan : op.plan i h = .call i' h' func args answer ready)
    (hr : i'.runtime = some r) :
    Starts i h op ⟨i'.mod, i'.policy, i'.hosts⟩ r (.call func args ⟨i'.store, i'.guard, h'⟩)

/-- What a call can rely on, on an instance that is ready. -/
theorem Sound.runs (hm : m.Valid) {bodies : Nat → Nested} (hb : m.Bodies bodies) (hi : i.Sound m s)
    (hready : i.ready = true) {r : Runtime} (hr : i.runtime = some r) : Env.Linked
    (⟨m, i.policy, i.hosts⟩ : Env H) ∧ r.Renders m bodies :=
  ⟨(hi.ready hready).linked, Runtime.renders_of_prepare hb hm.imports (hi.prepared r hr)⟩

/-- A call leaves globals that meet the condition, whatever it comes to. -/
theorem carries_run (hm : m.Valid) (hi : i.Sound m s) (hready : i.ready = true) (hc : i.Carries V m)
    {func : Nat} {t : FuncType} {args : List Value} (ht : m.funcType? func = some t)
    (hargs : args.map Value.type = t.params) (bound : Nat) :
    (run bound func args (i, h)).2.1.Carries V m := by
  rcases hr : i.runtime with _ | r
  · simp only [run, hr]
    exact hc
  · obtain ⟨scope, sources, hchecked⟩ := hm.checked
    obtain ⟨hlinked, hrenders⟩ := hi.runs hm hchecked.bodies hready hr
    have hstore := Runtime.invoke_preserves hc.values hlinked hchecked.bodies hrenders ht hargs
      bound ⟨i.store, i.guard, h⟩ hc.store
    rw [run_eq_ran hr, hi.mod]
    generalize r.invoke ⟨m, i.policy, i.hosts⟩ bound func args ⟨i.store, i.guard, h⟩ = x at hstore ⊢
    obtain ⟨e | vs, w⟩ := x
    · exact ⟨hc.values, hstore⟩
    · exact ⟨hc.values, hstore⟩

/-- An operation leaves globals that meet the condition, whatever it comes to. -/
theorem carries_act (hm : m.Valid) (hi : i.Sound m s) (hc : i.Carries V m)
    (op : Operation H) (bound : Nat) : (op.act bound (i, h)).2.1.Carries V m := by
  rw [act_eq_plan]
  have hsound := sound_plan (h := h) hm hi op
  have hcarries := carries_plan (h := h) hm hi hc op
  generalize op.plan i h = p at hsound hcarries ⊢
  cases hsound with
  | done => exact hcarries
  | @call i h func t args answer ready hi _ hnow ht hargs =>
    have hrun := carries_run (h := h) hm hi hnow hcarries ht hargs bound
    simp only [Plan.run]
    generalize run bound func args (i, h) = x at hrun ⊢
    obtain ⟨e | vs, i', h'⟩ := x
    · exact ⟨hrun.values, hrun.store⟩
    · exact hrun

/-- **Every history leaves globals that meet the condition.** -/
theorem carries_through (hm : m.Valid) (hi : i.Sound m s) (hc : i.Carries V m)
    (past : List (Occasion H)) : (i.through past).Carries V m := by
  induction past generalizing i with
  | nil => exact hc
  | cons o os ih =>
    exact ih (sound_act hm hi o.operation o.bound) (carries_act hm hi hc o.operation o.bound)

/-- **Code that is run is typed**, at every site on its way. -/
theorem Starts.typed (hm : m.Valid) {bodies : Nat → Nested} (hb : m.Bodies bodies)
    (hi : i.Sound m s) (hc : i.Carries V m) {op : Operation H} {env : Env H} {r : Runtime}
    {σ τ : Site H} (hstart : Starts i h op env r σ) (hreach : Site.Reaches env r σ τ) :
    τ.Typed V m bodies := by
  obtain ⟨hplan, hr⟩ := hstart
  have hsound := sound_plan (h := h) hm hi op
  have hcarries := carries_plan (h := h) hm hi hc op
  rw [hplan] at hsound hcarries
  cases hsound with
  | call hi' _ hnow ht hargs =>
    obtain ⟨hlinked, hrenders⟩ := hi'.runs hm hb hnow hr
    rw [hi'.mod] at hreach
    exact hreach.typed hcarries.values hlinked hb hrenders ⟨hcarries.store, _, ht, hargs⟩

end Instance

/-! ### 32-bit values -/

/-- The number of pages is a 32-bit number. -/
theorem World.exists_ofLow_of_memorySize {w w' : World H} {r : Raw}
    (h : memorySize w = (.ok r, w')) : ∃ b, r = Raw.ofLow b := by
  obtain ⟨-, hr⟩ := seeStore_eq_ok.1 h
  exact Store.seeMemory_ok (Q := fun r => ∃ b, r = Raw.ofLow b)
    (fun _ _ hr => ⟨_, (Except.ok.inj hr).symm⟩) hr

/-- And so is what comes of adding pages, also if none are added. -/
theorem World.exists_ofLow_of_memoryGrow {delta : Raw} {w w' : World H} {r : Raw}
    (h : memoryGrow delta w = (.ok r, w')) : ∃ b, r = Raw.ofLow b := by
  have hmeets : Meets (fun _ : World H => True) (fun _ => True) (fun r => ∃ b, r = Raw.ofLow b)
      (memoryGrow delta) := by
    rw [memoryGrow, onMemory]
    refine onStore_meets (P := fun _ => True) (fun _ _ => trivial) (fun s r _ hr => ?_)
      fun _ _ _ _ => trivial
    refine Store.onMemory_ok (Q := fun r => ∃ b, r = Raw.ofLow b) (fun mem r hr => ?_) hr
    rcases hgrow : mem.grow delta.low.toNat with ⟨_ | n, mem'⟩
    · rw [hgrow] at hr
      exact ⟨_, (Except.ok.inj hr).symm⟩
    · rw [hgrow] at hr
      exact ⟨_, (Except.ok.inj hr).symm⟩
  exact hmeets.of_ok trivial h

namespace Instance

/-- **32-bit values are zero-extended at all times**, under a policy and in an
instance. -/
structure ZeroExtends (m : Module) (p : FloatPolicy) (i : Instance H) : Prop where
  /-- What computes a value computes one whose high half is zero if it is of a
  32-bit type. -/
  upholds : p.Upholds ValType.Admits
  /-- So does the size of a memory. -/
  memorySize : ∀ (w w' : World H) (r : Raw), World.memorySize w = (.ok r, w') →
    ValType.Admits .i32 r
  /-- And so does its growth. -/
  memoryGrow : ∀ (delta : Raw) (w w' : World H) (r : Raw),
    World.memoryGrow delta w = (.ok r, w') → ValType.Admits .i32 r
  /-- The globals of such types have a zero high half. -/
  globals : i.store.Carries ValType.Admits m
  /-- The module has typed bodies. -/
  bodies : ∃ bodies, m.Bodies bodies
  /-- At every site that the engine gets to in the course of any operation,
  every operand, local and global has a zero high half whose type by the typed
  bodies is one of them. -/
  sites : ∀ bodies, m.Bodies bodies → ∀ (h : H) (op : Operation H) (env : Env H) (r : Runtime)
    (σ τ : Site H), Starts i h op env r σ → Site.Reaches env r σ τ →
      τ.Carries ValType.Admits m bodies

theorem zeroExtends_of_valid (hm : m.Valid) (s : Strategy) {p : FloatPolicy}
    (hp : p = .soft ∨ ∃ n, p = .hard n) (o : Options) (past : List (Occasion H)) :
    ZeroExtends m p ((fresh m s p o).through past) := by
  have hupholds : p.Upholds ValType.Admits := by
    refine FloatPolicy.upholds_admits ?_
    obtain rfl | ⟨n, rfl⟩ := hp
    · exact FloatPolicy.soft_zeroExtends
    · exact FloatPolicy.hard_zeroExtends n
  have hi := sound_through hm (sound_fresh m s p o) past
  have hc := carries_through hm (sound_fresh m s p o) (carries_fresh hupholds m s o) past
  obtain ⟨scope, sources, hchecked⟩ := hm.checked
  refine ⟨hupholds, fun w w' r hr => ?_, fun delta w w' r hr => ?_, hc.store,
    ⟨_, hchecked.bodies⟩, ?_⟩
  · obtain ⟨b, rfl⟩ := World.exists_ofLow_of_memorySize hr
    exact ValType.admits_ofLow .i32 b
  · obtain ⟨b, rfl⟩ := World.exists_ofLow_of_memoryGrow hr
    exact ValType.admits_ofLow .i32 b
  · intro bodies hb h op env r σ τ hstart hreach
    exact (hstart.typed hm hb hi hc hreach).carries

/-- **32-bit values are zero-extended at all times**, in any instance of a
module that can be decoded, under either policy, whatever has been done to
it. -/
theorem narrow_zero_extended {bs : List UInt8} (hm : Module.decode bs = .ok m) (s : Strategy)
    {p : FloatPolicy} (hp : p = .soft ∨ ∃ n, p = .hard n) (o : Options)
    (past : List (Occasion H)) : ZeroExtends m p ((fresh m s p o).through past) :=
  zeroExtends_of_valid (Module.valid_of_decode hm) s hp o past

/-- The adder, set up for the interpreter. -/
def interpretedAdder : Instance Unit :=
  (fresh adder .interpreter .soft {}).through [⟨(), 0, .setMemory 0⟩, ⟨(), 9, .setUp none⟩]

/-- The machine in its function, after the argument has been put on the stack. -/
def adderMachine : Machine where
  values := [4]
  blocks := []
  frame := ⟨1, adder.funcs[1].code, 1, #[4], 0, 0⟩
  callers := []

/-- The call of its function starts, and gets to that machine. -/
theorem adder_reaches : ∃ env r σ w, Starts interpretedAdder () (.invoke "go" [.i32 4]) env r σ ∧
    Site.Reaches env r σ (.machine [1] adderMachine w) := by
  have hsound : interpretedAdder.Sound adder .interpreter :=
    sound_through (Module.valid_of_decode decode_adder) (sound_fresh adder .interpreter .soft {}) _
  have hready : interpretedAdder.ready = true := by decide +kernel
  have hguard : interpretedAdder.guard = ⟨0, 251⟩ := by decide +kernel
  obtain ⟨r, hr⟩ := Option.isSome_iff_exists.1 (hsound.ready hready).prepared
  obtain rfl : .interpreter = r := Except.ok.inj (hsound.prepared r hr)
  have hlookup : interpretedAdder.lookup "env" "go" [.i32 4] = .ok (1, 1) := by
    refine lookup_eq (t := ⟨[.i32], [.i32]⟩) hready ?_ ?_ rfl <;> rw [hsound.mod] <;> rfl
  have hplan : (Operation.invoke "go" [.i32 4]).plan interpretedAdder () =
      .call interpretedAdder () 1 [.i32 4] (fun vs => .ok (.values vs)) id := by
    simp only [Operation.plan, planCall, hlookup]
  refine ⟨_, _, _, ⟨interpretedAdder.store, ⟨1, 251⟩, ()⟩, .mk hplan hr, ?_⟩
  rw [hsound.mod, hguard]
  generalize interpretedAdder.store = store, interpretedAdder.policy = policy,
    interpretedAdder.hosts = hosts
  have hstart :
    Site.Next ⟨adder, policy, hosts⟩ .interpreter (.call 1 [.i32 4] ⟨store, ⟨0, 251⟩, ()⟩)
      (.machine [1] (Machine.start adder.funcs[1] ⟨[.i32], [.i32]⟩ [.i32 4])
        ⟨store, ⟨1, 251⟩, ()⟩) := .start rfl rfl
  have hstep : (Machine.start adder.funcs[1] ⟨[.i32], [.i32]⟩ [.i32 4]).step ⟨adder, policy, hosts⟩
      (Interpreter.invoke ⟨adder, policy, hosts⟩ 0) (⟨store, ⟨1, 251⟩, ()⟩ : World Unit) =
        (.ok (.running adderMachine), ⟨store, ⟨1, 251⟩, ()⟩) := rfl
  exact .tail (.single hstart) (.step hstep)

/-- Its words are such as the types at this position say. -/
theorem adder_zero_extended :
    Module.decode adderBytes = .ok adder ∧ ∃ bodies, adder.Bodies bodies ∧
      ∃ env r σ w, Starts interpretedAdder () (.invoke "go" [.i32 4]) env r σ ∧
      Site.Reaches env r σ (.machine [1] adderMachine w) ∧
        (Site.machine [1] adderMachine w).Carries ValType.Admits adder bodies := by
  obtain ⟨-, -, -, -, ⟨bodies, hb⟩, hsites⟩ :=
    narrow_zero_extended decode_adder .interpreter (.inl rfl) {}
    ([⟨(), 0, .setMemory 0⟩, ⟨(), 9, .setUp none⟩] : List (Occasion Unit))
  obtain ⟨env, r, σ, w, hstart, hreach⟩ := adder_reaches
  exact ⟨decode_adder, bodies, hb, env, r, σ, w, hstart, hreach,
    hsites bodies hb () _ env r σ _ hstart hreach⟩

end Instance

end WasmEngine
