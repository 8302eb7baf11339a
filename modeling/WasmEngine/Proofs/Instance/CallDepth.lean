import WasmEngine.Proofs.Calls.Balance
import WasmEngine.Proofs.Instance.Operation

/-!
# Call depth at an instance

Between operations no call is active, so the guard of an instance is at depth
zero then, with the ceiling of the options in effect. An instance resets its
guard after an error. The main result says that there is nothing to reset: the
depth is back at zero by itself, and at all moments before it was the number of
active calls (`WasmEngine.Instance.guard_counts_active_calls`).
-/

namespace WasmEngine

open Run

variable {H : Type}

/-- Whether the next attempt of a call is refused, at a moment that is counted. -/
theorem Moment.Counted.enter_refused_iff {C : Nat} {μ : Moment H} (h : μ.Counted C) :
    (World.enter μ.world).1 = .error (.error (.trap (.callDepthExceeded C))) ↔ μ.active = C := by
  rw [enter_eq h.guard_eq]
  have hle := h.active_le
  by_cases hlt : μ.active < C
  · rw [if_pos hlt]
    constructor
    · rintro ⟨⟩
    · intro heq
      omega
  · rw [if_neg hlt]
    constructor
    · intro _
      omega
    · intro _
      rfl

namespace Instance

/-- **No call is active**: the guard is new, with the ceiling of the options in
effect. -/
def Idle (x : Instance H × H) : Prop := x.1.guard = Guard.new x.1.options.maxCallDepth

theorem run_idle (bound func : Nat) (args : List Value) :
    Preserves (Idle (H := H)) (run bound func args) := by
  rintro ⟨⟨mod, strategy, policy, options, registry, hosts, _ | r, store, guard, ready⟩, h⟩ hi
  · exact hi
  · obtain rfl : guard = Guard.new options.maxCallDepth := hi
    have hends := r.guard_invoke ⟨mod, policy, hosts⟩ bound func args
      (w := ⟨store, Guard.new options.maxCallDepth, h⟩) (Nat.zero_le _)
    simp only [run]
    generalize r.invoke ⟨mod, policy, hosts⟩ bound func args _ = x at hends ⊢
    obtain ⟨e | vs, w⟩ := x
    · rfl
    · exact hends (settled_ok vs w)

theorem setUp_idle (bound : Nat) (options : Option Options) :
    Preserves (Idle (H := H)) (setUp bound options) := by
  refine Preserves.bind ?_ fun _ => Preserves.bind ?_ fun _ => Preserves.bind ?_ fun _ =>
    Preserves.bind ?_ fun _ => ?_
  · rintro ⟨i, h⟩ hi
    rw [applyOptions]
    cases (options.getD i.options).validate with
    | error e => exact hi
    | ok o => rfl
  · rintro ⟨i, h⟩ hi
    simp only [link]
    split
    · exact hi
    · split <;> exact hi
  · rintro ⟨i, h⟩ hi
    simp only [prepare]
    split
    · exact hi
    · split <;> exact hi
  · rintro ⟨i, h⟩ hi
    simp only [instantiate]
    split <;> exact hi
  · rintro ⟨i, h⟩ hi
    simp only [start]
    cases i.mod.start with
    | none => exact hi
    | some func =>
      have hrun := run_idle bound func [] (i, h) hi
      dsimp only
      generalize run bound func [] (i, h) = r at hrun ⊢
      obtain ⟨e | vs, i', h'⟩ := r <;> exact hrun

theorem invoke_idle (bound : Nat) (name : String) (args : List Value) :
    Preserves (Idle (H := H)) (invoke bound name args) := by
  rintro ⟨i, h⟩ hi
  simp only [invoke]
  split
  · exact run_idle bound _ args (i, h) hi
  · exact hi

theorem act_idle (bound : Nat) (op : Operation H) : Preserves Idle (op.act bound) := by
  cases op with
  | setMemory byteLimit => exact fun _ hi => hi
  | setRegistry r => exact fun _ hi => hi
  | setUp options => exact (setUp_idle bound options).bind fun _ _ hi => hi
  | invoke name args => exact (invoke_idle bound name args).bind fun _ _ hi => hi
  | call space name args =>
    refine Preserves.bind ?_ fun _ _ hi => hi
    rintro ⟨i, h⟩ hi
    simp only [call]
    split
    · next func _ _ =>
      have hrun := run_idle bound func args (i, h) hi
      generalize run bound func args (i, h) = r at hrun ⊢
      obtain ⟨e | vs, x⟩ := r <;> exact hrun
    · exact hi
  | callForValue space name args =>
    refine Preserves.bind ?_ fun _ _ hi => hi
    rintro ⟨i, h⟩ hi
    simp only [callForValue]
    split
    · next func results _ =>
      split
      · exact hi
      · have hrun := run_idle bound func args (i, h) hi
        generalize run bound func args (i, h) = r at hrun ⊢
        obtain ⟨e | vs, x⟩ := r <;> exact hrun
    · exact hi
  | callTyped name args results =>
    refine Preserves.bind ((invoke_idle bound name args).bind fun vs => ?_) fun _ _ hi => hi
    rintro x hi
    cases expectResults results vs <;> exact hi
  | memory op =>
    rintro ⟨i, h⟩ hi
    simp only [Operation.act, onMemory]
    generalize (i.store.onMemory fun mem => mem.apply op) = r
    obtain ⟨e | _, store⟩ := r <;> exact hi

theorem through_idle (past : List (Occasion H)) {i : Instance H}
    (hi : i.guard = Guard.new i.options.maxCallDepth) :
    (i.through past).guard = Guard.new (i.through past).options.maxCallDepth := by
  induction past generalizing i with
  | nil => exact hi
  | cons o os ih => exact ih (act_idle o.bound o.operation (i, o.host) hi)

/-- The outcome of a call that is refused. -/
abbrev refusal (C : Nat) : Halt := .error (.trap (.callDepthExceeded C))

/-- **No call is made where as many are active as there may be**: it is refused,
and nothing has changed. That is so for calls of host functions, for calls of
functions of the module from outside, for those that the interpreter makes and
for those that compiled code makes. -/
structure Refuses (env : Env H) (w : World H) : Prop where
  host : ∀ {f} reenter func args, env.hosts[func]? = some f →
    env.callHost reenter func args w = (.error (refusal w.guard.maxDepth), w)
  entry : ∀ {t p} bound func args, env.mod.funcType? func = some t → env.defined? func = some p →
    Interpreter.invoke env (bound + 1) func args w = (.error (refusal w.guard.maxDepth), w)
  frame : ∀ {p} invoke (m : Machine) func, env.defined? func = some p →
    p.2.params.length ≤ m.values.length →
      m.callFunc env invoke func w = (.error (refusal w.guard.maxDepth), w)
  compiledEntry : ∀ {t} (c : Compiled) bound func args, ¬func < c.imported →
    c.types[func]? = some t →
      Compiled.invoke env c (bound + 1) func args w = (.error (refusal w.guard.maxDepth), w)
  slots : ∀ (c : Compiled) bound func slot slots, ¬func < c.imported →
    Compiled.callAt env c (bound + 1) func slot ⟨slots, w⟩ =
      (.error (refusal w.guard.maxDepth), ⟨slots, w⟩)

theorem refuses (env : Env H) {w : World H} (hw : w.guard.depth = w.guard.maxDepth) :
    Refuses env w := by
  have henter : World.enter w = (.error (refusal w.guard.maxDepth), w) := by
    rw [enter_eq (w := w) rfl, if_neg (Nat.not_lt.mpr (Nat.le_of_eq hw.symm))]
  have hdefined : ∀ {func p}, env.defined? func = some p → ¬func < env.imported := by
    intro func p hp hlt
    rw [Env.defined?, if_pos hlt] at hp
    cases hp
  constructor
  · intro f reenter func args hf
    rw [Env.callHost, hf, need_some, Run.pure_bind]
    exact bind_error (bind_error henter)
  · intro t p bound func args ht hp
    rw [Interpreter.invoke, if_neg (hdefined hp), ht, hp, need_some, need_some, Run.pure_bind,
      Run.pure_bind]
    exact bind_error henter
  · intro p invoke m func hp hlen
    rw [Machine.callFunc, if_neg (hdefined hp), hp, need_some, Run.pure_bind]
    simp only [Machine.popMany, if_neg (Nat.not_lt.mpr hlen), Run.pure_bind]
    exact bind_error henter
  · intro t c bound func args hfunc ht
    rw [Compiled.invoke, if_neg hfunc, ht, need_some, Run.pure_bind]
    exact bind_error henter
  · intro c bound func slot slots hfunc
    rw [Compiled.callAt, if_neg hfunc]
    refine bind_error ?_
    simp only [Activation.onWorld, henter]

/-- **The call guard counts exactly the active calls.** Take any call, however
the module is executed, that is made with a depth up to the ceiling, and take
notes: that changes nothing about it. At all of its moments the depth of the
guard is the number of active calls, and at most the ceiling. An attempt of a
call is refused exactly if as many calls are active as there may be. Never do
more calls end than are active, so that no unit is returned that was not taken.
If the call ends, with a value or an error, then with the guard that it was made
with, and so does every call of a host function. In a world at the ceiling all
calls are refused. Between operations an instance has no active call, and when a
call of it has ended there is nothing left to reset. -/
theorem guard_counts_active_calls :
    (∀ (r : Runtime) (env : Env H) (bound func : Nat) (args : List Value) (w : World H),
      w.guard.depth ≤ w.guard.maxDepth →
        (r.noted env bound w.guard.depth func args).run = r.invoke env bound func args ∧
        (∀ μ, r.During env bound w.guard.depth func args w μ →
          μ.world.guard.depth = μ.active ∧ μ.active ≤ w.guard.maxDepth ∧
          (μ.event = .attempt →
            ((World.enter μ.world).1 =
                .error (.error (.trap (.callDepthExceeded w.guard.maxDepth))) ↔
              μ.active = w.guard.maxDepth)) ∧
          ∀ n, μ.event = .leaving n → n ≤ μ.world.guard.depth) ∧
        (Settled (r.invoke env bound func args w) →
          (r.invoke env bound func args w).2.guard = w.guard) ∧
        (Settled (env.callHost (env.callExport (r.invoke env bound)) func args w) →
          (env.callHost (env.callExport (r.invoke env bound)) func args w).2.guard = w.guard) ∧
        (w.guard.depth = w.guard.maxDepth → Refuses env w)) ∧
    ∀ (m : Module) (s : Strategy) (p : FloatPolicy) (o : Options) (past : List (Occasion H)),
      let i := (fresh m s p o).through past
      i.guard = Guard.new i.options.maxCallDepth ∧
      ∀ (r : Runtime) (bound func : Nat) (args : List Value) (h : H),
        Settled (r.invoke ⟨i.mod, i.policy, i.hosts⟩ bound func args ⟨i.store, i.guard, h⟩) →
          (r.invoke ⟨i.mod, i.policy, i.hosts⟩ bound func args
            ⟨i.store, i.guard, h⟩).2.guard.depth = 0 := by
  constructor
  · intro r env bound func args w hle
    -- Only the count is watched, so nothing is asked of the host functions.
    have hcall : ∀ a func args, (Watch.count w.guard.maxDepth).Holds a
        ((Watch.count w.guard.maxDepth).back a) (r.noted env bound a func args) :=
      fun a => r.noted_holds env False.elim a bound
    refine ⟨r.run_noted env bound _ func args, fun μ hμ => ?_,
      r.guard_invoke env bound func args hle, ?_, refuses env⟩
    · have hcounted := (hcall _ func args w rfl hle).counted μ hμ
      have hdepth : μ.world.guard.depth = μ.active := by rw [hcounted.guard_eq]
      refine ⟨hdepth, hcounted.active_le, fun _ => hcounted.enter_refused_iff, ?_⟩
      rw [hdepth]
      exact hcounted.leaving_le
    · rw [← env.run_notedHost (env.run_notedExport fun a => r.run_noted env bound a)
        w.guard.depth]
      exact (env.notedHost_holds False.elim (env.notedExport_holds hcall) _ func
        args w rfl hle).ends
  · intro m s p o past i
    have hidle : i.guard = Guard.new i.options.maxCallDepth := through_idle past rfl
    refine ⟨hidle, fun r bound func args h hs => ?_⟩
    rw [r.guard_invoke _ bound func args ?_ hs]
    · exact congrArg Guard.depth hidle
    · show i.guard.depth ≤ i.guard.maxDepth
      rw [hidle]
      exact Nat.zero_le _

/-- A module with one function, which does nothing but call itself. -/
def endless : Env Unit where
  mod := { types := #[⟨[], []⟩], funcs := #[⟨0, [], #[.plain (.call 0), .plain .ret]⟩] }
  policy := .soft
  hosts := #[]

theorem endless_during :
    Runtime.interpreter.During endless 9 0 0 [] ⟨{}, ⟨0, 2⟩, ()⟩
      ⟨2, .attempt, ⟨{}, ⟨2, 2⟩, ()⟩⟩ := by
  -- Two calls are attempted and run, and the third is attempted.
  exact .tail _ (.tail _ (.tail _ (.tail _ (.tail _ (.tail _ (.head _))))))

/-- With a ceiling of two calls the third is refused, and there are two active calls
then. -/
theorem endless_counts_active_calls :
    (0 : Nat) ≤ 2 ∧
      Runtime.interpreter.During endless 9 0 0 [] ⟨{}, ⟨0, 2⟩, ()⟩
        ⟨2, .attempt, ⟨{}, ⟨2, 2⟩, ()⟩⟩ ∧
      (World.enter (⟨{}, ⟨2, 2⟩, ()⟩ : World Unit)).1 =
        .error (.error (.trap (.callDepthExceeded 2))) :=
  ⟨Nat.zero_le 2, endless_during,
    (((guard_counts_active_calls.1 .interpreter endless 9 0 [] ⟨{}, ⟨0, 2⟩, ()⟩
      (Nat.zero_le 2)).2.1 _ endless_during).2.2.1 rfl).2 rfl⟩

end Instance

end WasmEngine
