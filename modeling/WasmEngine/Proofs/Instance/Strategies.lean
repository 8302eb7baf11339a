import WasmEngine.Proofs.Instance.Ready
import WasmEngine.Proofs.Instance.Recording

/-!
# The strategy of an instance does not show

Two instances of a module that differ in their strategy only are **twins**
(`WasmEngine.Instance.Twins`). Each operation comes down to the same plan for
both (`WasmEngine.Instance.plan_twins`), and where a function is called, the two
prepared modules settle on the same (`WasmEngine.Instance.run_twins`). So twins
stay twins and answer alike, and the courses of an instance that interprets its
code and of one that has compiled it are the same
(`WasmEngine.Instance.strategies_agree`).
-/

namespace WasmEngine

open Run

variable {H : Type}

namespace Instance

/-! ### Twins -/

/-- The instance with another strategy, and the module prepared for it. -/
def cast (i : Instance H) (s : Strategy) (r : Option Runtime) : Instance H :=
  { i with strategy := s, runtime := r }

/-- An instance of the module could as well have another strategy, with the
module prepared for it. -/
structure Casts (m : Module) (i : Instance H) (s : Strategy) (r : Option Runtime) : Prop where
  /-- It is of the module. -/
  mod : i.mod = m
  /-- The module is prepared as the strategy of the instance says. -/
  left : ∀ q, i.runtime = some q → Runtime.prepare i.strategy m = .ok q
  /-- And as the other strategy says. -/
  right : ∀ q, r = some q → Runtime.prepare s m = .ok q
  /-- It is prepared for both or for none. -/
  both : i.runtime.isSome = r.isSome
  /-- An instance that is ready can call functions. -/
  callable : i.ready = true → i.Callable m

/-- **Instances that differ in their strategy only.** -/
def Twins (m : Module) (i j : Instance H) : Prop := ∃ s r, j = i.cast s r ∧ i.Casts m s r

variable {m : Module} {i j : Instance H} {h : H}

theorem Twins.symm (hij : Twins m i j) : Twins m j i := by
  obtain ⟨s, r, rfl, hmod, hleft, hright, hboth, hcallable⟩ := hij
  refine ⟨i.strategy, i.runtime, rfl, hmod, hright, hleft, hboth.symm, fun hready => ?_⟩
  obtain ⟨hprepared, hlinked⟩ := hcallable hready
  exact ⟨hboth ▸ hprepared, hlinked⟩

/-- The state and the guard of an instance do not matter. -/
theorem Casts.put {s : Strategy} {r : Option Runtime} (hcasts : i.Casts m s r)
    (store : Store) (guard : Guard) : { i with store, guard }.Casts m s r :=
  ⟨hcasts.mod, hcasts.left, hcasts.right, hcasts.both,
    fun h => ⟨(hcasts.callable h).prepared, (hcasts.callable h).linked⟩⟩

theorem twins_fresh (m : Module) (s s' : Strategy) (p : FloatPolicy) (o : Options) :
    Twins (H := H) m (fresh m s p o) (fresh m s' p o) := by
  refine ⟨s', none, rfl, rfl, ?_, ?_, rfl, ?_⟩
  · rintro r ⟨⟩
  · rintro r ⟨⟩
  · rintro ⟨⟩

/-- Twins after something that both of them do: the results are equal, and so
are the contexts of the host. -/
abbrev Agrees {α : Type} (m : Module) (R : Instance H → Prop) :
    Except Halt α × Instance H × H → Except Halt α × Instance H × H → Prop :=
  Matches (fun a x b y => a = b ∧ x.2 = y.2 ∧ Twins m x.1 y.1 ∧ R x.1)
    fun x y => x.2 = y.2 ∧ Twins m x.1 y.1

/-! ### Setting up -/

theorem applyOptions_twins (hij : Twins m i j) (options : Option Options) (h : H) :
    Agrees m (fun i => i.ready = false) (applyOptions options (i, h))
      (applyOptions options (j, h)) := by
  obtain ⟨s, r, rfl, hcasts⟩ := hij
  simp only [applyOptions, cast]
  cases (options.getD i.options).validate with
  | error e => exact ⟨rfl, rfl, s, r, rfl, { hcasts with callable := fun h => absurd h (by simp) }⟩
  | ok o =>
    exact ⟨rfl, rfl, ⟨s, r, rfl, { hcasts with callable := fun h => absurd h (by simp) }⟩, rfl⟩

theorem link_twins (hij : Twins m i j) (hready : i.ready = false) (h : H) :
    Agrees m (fun i => i.ready = false ∧ Env.Linked (⟨m, i.policy, i.hosts⟩ : Env H)) (link (i, h))
      (link (j, h)) := by
  obtain ⟨s, r, rfl, hcasts⟩ := hij
  simp only [link, cast]
  rcases i.store.memory with _ | mem
  · exact ⟨rfl, rfl, s, r, rfl, hcasts⟩
  · dsimp only
    rcases hfs : i.registry.resolve i.mod with e | fs
    · exact ⟨rfl, rfl, s, r, rfl, hcasts⟩
    · refine ⟨rfl, rfl, ⟨s, r, rfl, { hcasts with callable := fun h => ?_ }⟩, hready, ?_⟩
      · exact absurd h (by simp [hready])
      · exact Registry.linked_of_resolve (hcasts.mod ▸ hfs) i.policy

/-- A valid module can be prepared for both strategies. -/
theorem prepare_twins (hm : m.Valid) (hij : Twins m i j) (hready : i.ready = false)
    (hlinked : Env.Linked (⟨m, i.policy, i.hosts⟩ : Env H)) (h : H) :
    Agrees m (fun i => i.ready = false ∧ i.Callable m) (prepare (i, h)) (prepare (j, h)) := by
  obtain ⟨s, r, rfl, hcasts⟩ := hij
  have hboth := hcasts.both
  simp only [prepare, cast]
  rcases hi : i.runtime with _ | q <;> rcases r with _ | q' <;> simp only [hi, Option.isSome_none,
    Option.isSome_some, reduceCtorEq] at hboth
  · obtain ⟨q, hq⟩ : ∃ q, Runtime.prepare i.strategy i.mod = .ok q :=
      hcasts.mod ▸ Runtime.exists_prepare hm i.strategy
    obtain ⟨q', hq'⟩ : ∃ q, Runtime.prepare s i.mod = .ok q :=
      hcasts.mod ▸ Runtime.exists_prepare hm s
    simp only [hq, hq']
    refine ⟨rfl, rfl,
      ⟨s, some q', rfl, { hcasts with left := ?_, right := ?_, both := rfl, callable := ?_ }⟩,
      hready, rfl, hlinked⟩
    · rintro _ ⟨⟩
      exact hcasts.mod ▸ hq
    · rintro _ ⟨⟩
      exact hcasts.mod ▸ hq'
    · exact fun h => absurd h (by simp [hready])
  · exact ⟨rfl, rfl, ⟨s, some q', rfl, hcasts⟩, hready, by simp [hi], hlinked⟩

theorem instantiate_twins (hij : Twins m i j) (hready : i.ready = false)
    (hcallable : i.Callable m) (h : H) :
    Agrees m (fun i => i.Callable m) (instantiate (i, h)) (instantiate (j, h)) := by
  obtain ⟨s, r, rfl, hcasts⟩ := hij
  simp only [instantiate, cast]
  rcases i.store.instantiate i.mod i.options with ⟨e | _, store⟩
  · exact ⟨rfl, rfl, s, r, rfl, { hcasts with callable := fun h => absurd h (by simp [hready]) }⟩
  · have hstill : ({ i with store, ready := true } : Instance H).Callable m :=
      ⟨hcallable.prepared, hcallable.linked⟩
    exact ⟨rfl, rfl, ⟨s, r, rfl, { hcasts with callable := fun _ => hstill }⟩, hstill⟩

/-- Setting up goes the same way for twins, up to the start function. -/
theorem build_twins (hm : m.Valid) (hij : Twins m i j) (options : Option Options) (h : H) :
    Agrees m (fun i => i.Callable m) (build options (i, h)) (build options (j, h)) := by
  refine (applyOptions_twins hij options h).bind ?_
  rintro _ ⟨i₁, h₁⟩ _ ⟨j₁, _⟩ ⟨-, rfl, hij₁, hready₁⟩
  refine (link_twins hij₁ hready₁ h₁).bind ?_
  rintro _ ⟨i₂, h₂⟩ _ ⟨j₂, _⟩ ⟨-, rfl, hij₂, hready₂, hlinked⟩
  refine (prepare_twins hm hij₂ hready₂ hlinked h₂).bind ?_
  rintro _ ⟨i₃, h₃⟩ _ ⟨j₃, _⟩ ⟨-, rfl, hij₃, hready₃, hcallable⟩
  exact instantiate_twins hij₃ hready₃ hcallable h₃

/-! ### Plans -/

/-- **Plans of twins**: the same, but for the strategy. A function that is
called has a type, and its arguments are of it. -/
inductive Plan.Twins (m : Module) : Plan H → Plan H → Prop
  /-- There is nothing to run. -/
  | done {r i j h} (hij : Instance.Twins m i j) : Twins m (.done r i h) (.done r j h)
  /-- A function is called. -/
  | call {i j h func args answer ready t} (hij : Instance.Twins m i j) (hcallable : i.Callable m)
    (ht : m.funcType? func = some t) (hargs : args.map Value.type = t.params)
      (hready : ∀ b, ready b = true → b = true) :
    Twins m (.call i h func args answer ready) (.call j h func args answer ready)

theorem planCall_twins (hij : Twins m i j) (space name : String) (args : List Value)
    (answer : List Value → Except Error Answer) (refuse : Nat → Option Error) (h : H) :
    (planCall i h space name args answer refuse).Twins m
      (planCall j h space name args answer refuse) := by
  have hij' := hij
  obtain ⟨s, r, rfl, hcasts⟩ := hij'
  have hlookup : (i.cast s r).lookup space name args = i.lookup space name args := rfl
  simp only [planCall, hlookup]
  rcases hfound : i.lookup space name args with e | ⟨func, results⟩
  · exact .done hij
  · dsimp only
    rcases refuse results with _ | e
    · obtain ⟨hready, t, ht, hargs⟩ := of_lookup hfound
      exact .call hij (hcasts.callable hready) (hcasts.mod ▸ ht) hargs fun _ h => h
    · exact .done hij

/-- **Operations on twins come down to the same plan.** -/
theorem plan_twins (hm : m.Valid) (hij : Twins m i j) (op : Operation H) (h : H) :
    (op.plan i h).Twins m (op.plan j h) := by
  cases op with
  | setMemory byteLimit =>
    obtain ⟨s, r, rfl, hcasts⟩ := hij
    exact .done ⟨s, r, rfl, { hcasts with callable := fun h => absurd h (by simp [setMemory]) }⟩
  | setRegistry reg =>
    obtain ⟨s, r, rfl, hcasts⟩ := hij
    exact .done ⟨s, r, rfl, { hcasts with callable := fun h => absurd h (by simp [setRegistry]) }⟩
  | setUp options =>
    have hbuild := build_twins hm hij options h
    simp only [Operation.plan]
    generalize build options (i, h) = x at hbuild ⊢
    generalize build options (j, h) = y at hbuild ⊢
    obtain ⟨e | _, i', h'⟩ := x <;> obtain ⟨e' | _, j', h''⟩ := y
    · obtain ⟨rfl, rfl, hij'⟩ := hbuild
      exact .done hij'
    · exact hbuild.elim
    · exact hbuild.elim
    · obtain ⟨-, rfl, hij', hcallable⟩ := hbuild
      have hij'' := hij'
      obtain ⟨s, r, rfl, hcasts⟩ := hij''
      have hstart : (i'.cast s r).mod.start = i'.mod.start := rfl
      simp only [hstart]
      rcases hfunc : i'.mod.start with _ | func
      · exact .done hij'
      · refine .call hij' hcallable (hm.start (hcasts.mod ▸ hfunc)) rfl ?_
        rintro b ⟨⟩
  | invoke | call | callForValue | callTyped =>
    rw [Operation.plan, Operation.plan]
    exact planCall_twins hij _ _ _ _ _ h
  | memory op =>
    obtain ⟨s, r, rfl, hcasts⟩ := hij
    simp only [Operation.plan, onMemory, cast]
    rcases (i.store.onMemory fun mem => mem.apply op) with ⟨e | reply, store⟩
    · exact .done ⟨s, r, rfl, hcasts.put store i.guard⟩
    · exact .done ⟨s, r, rfl, hcasts.put store i.guard⟩

/-! ### Carrying out plans -/

/-- Instances are twins after a call that gave both the same. -/
theorem ran_twins (hij : Twins m i j) (x : Except Halt (List Value) × World H) :
    Agrees m (fun _ => True) (i.ran x) (j.ran x) := by
  obtain ⟨s, r, rfl, hcasts⟩ := hij
  obtain ⟨e | vs, w⟩ := x
  · exact ⟨rfl, rfl, s, r, rfl, hcasts.put _ _⟩
  · exact ⟨rfl, rfl, ⟨s, r, rfl, hcasts.put _ _⟩, trivial⟩

/-- **A call of a function settles on the same for twins.** -/
theorem run_twins (hm : m.Valid) (hij : Twins m i j) (hcallable : i.Callable m) {func : Nat}
    {t : FuncType} {args : List Value} (ht : m.funcType? func = some t)
    (hargs : args.map Value.type = t.params) {n : Nat} (hs : Settled (run n func args (i, h))) :
    ∃ k, Agrees m (fun _ => True) (run n func args (i, h)) (run k func args (j, h)) := by
  have hij' := hij
  obtain ⟨s, r, rfl, hcasts⟩ := hij'
  obtain ⟨q, hq⟩ := Option.isSome_iff_exists.1 hcallable.prepared
  obtain ⟨q', rfl⟩ := Option.isSome_iff_exists.1 (hcasts.both ▸ hcallable.prepared)
  have hprepare := hcasts.left q hq
  have hprepare' := hcasts.right q' rfl
  have hlinked : Env.Linked (⟨m, i.policy, i.hosts⟩ : Env H) := hcallable.linked
  obtain rfl := hcasts.mod
  -- The runs differ in the prepared module only, and the two prepared modules settle on the same.
  rw [run_eq_ran hq] at hs ⊢
  obtain ⟨-, k, hk⟩ :=
    (Runtime.settles_iff hm hlinked hprepare hprepare' ht hargs ⟨i.store, i.guard, h⟩ _).1
    ⟨settled_ran.1 hs, n, rfl⟩
  dsimp only at hk
  refine ⟨k, ?_⟩
  have hrun : run k func args (i.cast s (some q'), h) = (i.cast s (some q')).ran
      (q'.invoke ⟨i.mod, i.policy, i.hosts⟩ k func args ⟨i.store, i.guard, h⟩) :=
      run_eq_ran rfl k func args h
  rw [hrun, hk]
  exact ran_twins hij _

/-- **Plans of twins settle on the same.** -/
theorem Plan.Twins.run {p p' : Plan H} (hm : m.Valid) (hp : p.Twins m p') {n : Nat}
    (hs : Settled (p.run n)) : ∃ k, Agrees m (fun _ => True) (p.run n) (p'.run k) := by
  cases hp with
  | @done r i j h hij =>
    refine ⟨n, ?_⟩
    rcases r with e | a
    · exact ⟨rfl, rfl, hij⟩
    · exact ⟨rfl, rfl, hij, trivial⟩
  | @call i j h func args answer ready t hij hcallable ht hargs hready =>
    obtain ⟨k, hk⟩ := run_twins hm hij hcallable ht hargs (settled_called.1 hs)
    refine ⟨k, ?_⟩
    simp only [Plan.run]
    generalize Instance.run n func args (i, h) = x at hk ⊢
    generalize Instance.run k func args (j, h) = y at hk ⊢
    obtain ⟨e | vs, i', h'⟩ := x <;> obtain ⟨e' | vs', j', h''⟩ := y
    · obtain ⟨rfl, rfl, s, r, rfl, hcasts⟩ := hk
      refine ⟨rfl, rfl, s, r, rfl, { hcasts with callable := fun h => ?_ }⟩
      obtain ⟨hprepared, hlinked⟩ := hcasts.callable (hready _ h)
      exact ⟨hprepared, hlinked⟩
    · exact hk.elim
    · exact hk.elim
    · obtain ⟨rfl, rfl, hij', -⟩ := hk
      simp only [called]
      rcases answer vs with e | a
      · exact ⟨rfl, rfl, hij'⟩
      · exact ⟨rfl, rfl, hij', trivial⟩

/-- **An operation settles on the same for twins**, which are twins afterwards. -/
theorem act_twins (hm : m.Valid) (hij : Twins m i j) {op : Operation H} {r : Except Halt Answer}
    {i' : Instance H} {h' : H} (hop : Settles (fun n => op.act n) (i, h) (r, i', h')) :
    ∃ j', Settles (fun n => op.act n) (j, h) (r, j', h') ∧ Twins m i' j' := by
  obtain ⟨hs, n, hn⟩ := hop
  dsimp only at hn
  rw [act_eq_plan] at hn
  obtain ⟨k, hk⟩ := (plan_twins hm hij op h).run hm (hn ▸ hs)
  rw [hn, ← act_eq_plan] at hk
  rcases hact : op.act k (j, h) with ⟨r', j', h''⟩
  rw [hact] at hk
  rcases r with e | a <;> rcases r' with e' | a'
  · obtain ⟨rfl, rfl, hij'⟩ := hk
    exact ⟨j', ⟨hs, k, hact⟩, hij'⟩
  · exact hk.elim
  · exact hk.elim
  · obtain ⟨rfl, rfl, hij', -⟩ := hk
    exact ⟨j', ⟨hs, k, hact⟩, hij'⟩

theorem Twins.store (hij : Twins m i j) : j.store = i.store := by
  obtain ⟨s, r, rfl, -⟩ := hij
  rfl

/-- **Twins have the same courses.** -/
theorem Course.twins (hm : m.Valid) (hij : Twins m i j) {os : List (H × Operation H)}
    {es : List (Effect H)} (h : Course i os es) : Course j os es := by
  induction h generalizing j with
  | nil => exact .nil
  | @ends i host op os r i₁ h₁ es hop _ ih =>
    obtain ⟨j₁, hop', hij₁⟩ := act_twins hm hij hop
    rw [← hij₁.store]
    exact .ends hop' (ih hij₁)
  | goesOn hop =>
    -- If the operation settled for the twin, it would settle here.
    refine .goesOn (diverges_iff.2 ?_)
    rintro ⟨⟨r, j', h'⟩, hop'⟩
    obtain ⟨i', hop'', -⟩ := act_twins hm hij.symm hop'
    exact diverges_iff.1 hop ⟨_, hop''⟩

/-- The course of an instance does not depend on its strategy. -/
theorem exists_course_of_valid (hm : m.Valid) (p : FloatPolicy) (o : Options)
    (os : List (H × Operation H)) : ∃ es, ∀ s x, Course (fresh m s p o) os x ↔ x = es := by
  obtain ⟨es, hes⟩ := exists_course (fresh m .interpreter p o) os
  refine ⟨es, fun s x => ?_⟩
  have hes' : Course (fresh m s p o) os es := hes.twins hm (twins_fresh m .interpreter s p o)
  constructor
  · exact fun hx => hx.unique hes'
  · rintro rfl
    exact hes'

/-- **Both strategies do the same**, to instances of a valid module. Whatever is
done takes one course under every strategy: operation by operation the same
answer or error, the same state and the same context of the host, and an
operation that goes on forever does so under every strategy. With recorded host
functions it is the same course with traces in it, so the calls of host
functions are the same too, in their order, with their arguments and at their
depth. -/
theorem agree_of_valid (hm : m.Valid) (p : FloatPolicy) (o : Options)
    (os : List (H × Operation H)) :
    ∃ es, ∀ s : Strategy, (∀ x, Course (fresh m s p o) (recordedOps os) x ↔ x = es) ∧
      ∀ x, Course (fresh m s p o) os x ↔ x = es.map Effect.untraced := by
  obtain ⟨es, hes⟩ := exists_course_of_valid hm p o (recordedOps os)
  obtain ⟨es', hes'⟩ := exists_course_of_valid hm p o os
  -- The interpreter shows what the course is without the record.
  have huntraced : Course (fresh m .interpreter p o) os (es.map Effect.untraced) :=
    Course.untraced (records_fresh m p o) ((hes .interpreter es).2 rfl)
  obtain rfl := (hes' .interpreter _).1 huntraced
  exact ⟨es, fun s => ⟨hes s, hes' s⟩⟩

/-- **Both strategies do the same**, to instances of a module that can be
decoded. -/
theorem strategies_agree {bs : List UInt8} (hm : Module.decode bs = .ok m) (p : FloatPolicy)
    (o : Options) (os : List (H × Operation H)) :
    ∃ es, ∀ s : Strategy, (∀ x, Course (fresh m s p o) (recordedOps os) x ↔ x = es) ∧
      ∀ x, Course (fresh m s p o) os x ↔ x = es.map Effect.untraced :=
  agree_of_valid (Module.valid_of_decode hm) p o os

/-! ### A module that calls its host -/

/-- The binary of a module that imports `tick` and exports `run`, which ticks
until its argument is zero. -/
def tickerBytes : List UInt8 := [
  0x00, 0x61, 0x73, 0x6d, 0x01, 0x00, 0x00, 0x00,
  0x01, 0x0a, 0x02, 0x60, 0x01, 0x7f, 0x00, 0x60, 0x01, 0x7f, 0x01, 0x7f,
  0x02, 0x0c, 0x01, 0x03, 0x65, 0x6e, 0x76, 0x04, 0x74, 0x69, 0x63, 0x6b, 0x00, 0x00,
  0x03, 0x02, 0x01, 0x01,
  0x05, 0x03, 0x01, 0x00, 0x01,
  0x07, 0x07, 0x01, 0x03, 0x72, 0x75, 0x6e, 0x00, 0x01,
  0x0a, 0x16, 0x01, 0x14, 0x00, 0x03, 0x40, 0x20, 0x00, 0x10, 0x00, 0x20, 0x00, 0x41, 0x01, 0x6b,
  0x22, 0x00, 0x0d, 0x00, 0x0b, 0x20, 0x00, 0x0b]

/-- The module. -/
def ticker : Module where
  version := some 1
  types := #[⟨[.i32], []⟩, ⟨[.i32], [.i32]⟩]
  imports := [⟨"env", "tick", .func 0⟩]
  exports := [⟨"run", .func, 1⟩]
  memories := [⟨1, none⟩]
  funcs :=
    #[⟨1, [], #[.loop .empty 8, .plain (.localGet 0), .plain (.call 0), .plain (.localGet 0),
      .plain (.const (.i32 1)), .plain (.binary (.int .w32 .sub)), .plain (.localTee 0),
      .plain (.brIf 0), .endBlock, .plain (.localGet 0), .plain .ret]⟩]

theorem decode_ticker : Module.decode tickerBytes = .ok ticker := rfl

/-- A host that counts the ticks. -/
def tick : HostFunction Nat where
  type := ⟨[.i32], []⟩
  run _ := .look fun w => .setHost (w.host + 1) (.finish (.ok []))

/-- Three ticks, and then as many as there are numbers of 32 bits. -/
theorem ticker_strategies_agree :
    let os : List (Nat × Operation Nat) :=
      [(0, .setMemory 65536), (0, .setRegistry ⟨[(("env", "tick"), tick)]⟩), (0, .setUp none),
      (0, .invoke "run" [.i32 3]), (0, .invoke "run" [.i32 0])]
    Module.decode tickerBytes = .ok ticker ∧
      ∃ es, ∀ s : Strategy, (∀ x, Course (fresh ticker s .soft {}) (recordedOps os) x ↔ x = es) ∧
        ∀ x, Course (fresh ticker s .soft {}) os x ↔ x = es.map Effect.untraced :=
  ⟨decode_ticker, strategies_agree decode_ticker .soft {} _⟩

end Instance

end WasmEngine
