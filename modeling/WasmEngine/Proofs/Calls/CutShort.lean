import WasmEngine.Proofs.Calls.Site
import WasmEngine.Proofs.Keeps
import WasmEngine.Proofs.Runtime

/-!
# Runs that are cut short

A run whose bound is used up stops in the middle of things. The store that it
leaves is the store at one of the sites that the call goes through
(`WasmEngine.Site.stops_of_exhausted`), so what holds at all of these holds of
it too. And the rules that lead from site to site miss no part of a run.

Where a run can stop is where the bound is looked at: in calls, and in the parts
of compiled code. All else is run in full whatever the bound
(`WasmEngine.Run.Total`).
-/

namespace WasmEngine

open Run

variable {σ α β : Type} {H : Type}

/-! ### Runs that are never cut short -/

namespace Run

/-- **A run that is never exhausted.** -/
def Total (x : Run σ α) : Prop := ∀ s, Settled (x s)

namespace Total

theorem bind {x : Run σ α} {f : α → Run σ β} (hx : Total x) (hf : ∀ a, Total (f a)) :
    Total (x >>= f) := by
  intro s
  have h := hx s
  rw [bind_apply]
  generalize x s = r at h ⊢
  obtain ⟨e | a, s'⟩ := r
  · simpa using h
  · exact hf a s'

theorem closed : Closed (Only (Total (σ := σ))) where
  pure _ _ := settled_ok _ _
  fail _ _ := by simp [Run.fail]
  bind := bind

theorem not_exhausted {x : Run σ α} {s t : σ} (hx : Total x) (h : x s = (.error .exhausted, t)) :
    False := absurd (hx s) (by simp [h])

/-- What follows a run that is never exhausted is what can be. -/
theorem bind_exhausted {x : Run σ α} {f : α → Run σ β} {s t : σ} (hx : Total x)
    (h : (x >>= f) s = (.error .exhausted, t)) :
    ∃ a s', x s = (.ok a, s') ∧ f a s' = (.error .exhausted, t) :=
  (bind_eq_error.1 h).resolve_left hx.not_exhausted

end Total

variable {f : α → Run σ β} {s t : σ} {x : Run σ α}

theorem need_bind_exhausted {e : Fault} {x : Option α}
    (h : (need e x >>= f) s = (.error .exhausted, t)) : ∃ a, x = some a ∧
    f a s = (.error .exhausted, t) := by
  cases x with
  | none => cases h
  | some a => exact ⟨a, rfl, h⟩

theorem ofExcept_bind_exhausted {x : Except Error α}
    (h : (ofExcept x >>= f) s = (.error .exhausted, t)) : ∃ a, x = .ok a ∧
    f a s = (.error .exhausted, t) := by
  cases x with
  | error e => cases h
  | ok a => exact ⟨a, rfl, h⟩

/-- A run that is followed by an end is exhausted itself. -/
theorem exhausted_of_bind (hf : ∀ a, Total (f a)) (h : (x >>= f) s = (.error .exhausted, t)) :
    x s = (.error .exhausted, t) := by
  rcases bind_eq_error.1 h with h | ⟨a, s', -, h⟩
  · exact h
  · exact ((hf a).not_exhausted h).elim

theorem exhausted_of_catching (h : x.catching s = (.error .exhausted, t)) :
    x s = (.error .exhausted, t) := by
  rw [catching] at h
  rcases hx : x s with ⟨(e | _ | _) | a, s'⟩ <;> simp_all

theorem exhausted_of_leaving {f : σ → σ} (h : x.leaving f s = (.error .exhausted, t)) :
    ∃ t', x s = (.error .exhausted, t') ∧ t = f t' := by
  rw [leaving] at h
  rcases hx : x s with ⟨r, s'⟩
  simp only [hx, Prod.mk.injEq] at h
  exact ⟨s', by rw [h.1], h.2.symm⟩

end Run

namespace World

theorem total_seeStore (g : Store → Except Error α) : Total (seeStore g : Run (World H) α) := by
  intro w
  rw [seeStore]
  cases g w.store <;> simp

theorem total_onStore (g : Store → Except Error α × Store) : Total
    (onStore g : Run (World H) α) := by
  rintro ⟨s, gd, h⟩
  rw [onStore]
  rcases g s with ⟨e | a, s'⟩ <;> simp

theorem total_enter : Total (enter : Run (World H) Unit) := by
  intro w
  rw [enter]
  cases w.guard.enter <;> simp

theorem full_total : Full (Only (Total (σ := World H))) where
  toClosed := Total.closed
  see := total_seeStore
  setGlobal _ _ := total_onStore _
  storeValue _ _ _ _ := total_onStore _
  memoryGrow _ := total_onStore _
  memoryCopy _ _ _ := total_onStore _
  memoryFill _ _ _ := total_onStore _
  returning _ hx w := hx w

end World

theorem World.store_of_enter {w w' : World H} (h : World.enter w = (.ok (), w')) :
    w'.store = w.store := by
  rw [World.enter] at h
  split at h <;> cases h
  rfl

theorem Activation.onWorld_total {x : Run (World H) α} (hx : Total x) : Total
    (onWorld x : Run (Activation H) α) := fun a => hx a.world

theorem Activation.ample_total : Activation.Ample (fun _ => True) (Only (Total (σ := World H)))
    (Only (Total (σ := Activation H))) where
  toClosed := Total.closed
  get {i} _ a := by
    rw [Activation.get]
    cases a.slots[i]? <;> simp
  set r _ a := by
    rw [Activation.set]
    split <;> simp
  move _ a := by
    rw [Activation.move]
    split
    · simp
    · split <;> simp
  world := onWorld_total

/-! ### Where the bound is looked at -/

namespace Env

variable {env : Env H} {w w' : World H} {args : List Value}

theorem exhausted_of_callExport {invoke : Nat → List Value → Run (World H) (List Value)}
    {name : String} (h : env.callExport invoke name args w = (.error .exhausted, w')) :
    ∃ func t, env.mod.exportedFunc? name = some func ∧ env.mod.funcType? func = some t ∧
    t.checkArguments args = .ok () ∧
      invoke func args w = (.error .exhausted, w') := by
  rw [callExport] at h
  cases hfunc : env.mod.exportedFunc? name with
  | none =>
    rw [hfunc] at h
    cases h
  | some func =>
    rw [hfunc] at h
    obtain ⟨t, ht, h⟩ := need_bind_exhausted h
    obtain ⟨_, hargs, h⟩ := ofExcept_bind_exhausted h
    exact ⟨func, t, rfl, ht, hargs, h⟩

theorem exhausted_of_callHost {reenter : String → List Value → Run (World H) (List Value)}
    {func : Nat} (h : env.callHost reenter func args w = (.error .exhausted, w')) :
    ∃ f w₁ w₂, env.hosts[func]? = some f ∧ World.enter w = (.ok (), w₁) ∧
      (f.run args).run reenter w₁ = (.error .exhausted, w₂) ∧ w'.store = w₂.store := by
  obtain ⟨f, hf, h⟩ := need_bind_exhausted h
  have hguarded :=
    exhausted_of_bind (fun _ => iteInduction (fun _ => Total.closed.pure _) fun _ =>
      Total.closed.fail _) h
  obtain ⟨_, w₁, hw, hleaving⟩ := World.total_enter.bind_exhausted hguarded
  obtain ⟨w₂, hrun, rfl⟩ := exhausted_of_leaving hleaving
  exact ⟨f, w₁, w₂, hf, hw, hrun, rfl⟩

end Env

namespace Machine

variable {env : Env H} {invoke : Nat → List Value → Run (World H) (List Value)}
  {x : Machine} {w w' : World H}

theorem exhausted_of_callFunc {func : Nat}
    (h : callFunc env invoke x func w = (.error .exhausted, w')) :
    ∃ t rs, callOf? env func x.values = some ⟨func, rs⟩ ∧ func < env.imported ∧
    env.mod.funcType? func = some t ∧
      env.callHost (env.callExport invoke) func (List.zipWith Value.ofRaw t.params rs) w =
      (.error .exhausted, w') := by
  rw [callFunc] at h
  split at h
  · next hfunc =>
    obtain ⟨t, ht, h⟩ := need_bind_exhausted h
    rw [popMany] at h
    split at h
    · cases h
    · next hlen =>
      exact ⟨t, _, by simp [callOf?, ht, hlen], hfunc, ht,
        exhausted_of_bind (fun _ => Total.closed.pure _) h⟩
  · obtain ⟨_, -, h⟩ := need_bind_exhausted h
    obtain ⟨_, _, -, h⟩ := Total.bind_exhausted (closed_popMany Total.closed _ _) h
    obtain ⟨_, _, -, h⟩ := World.total_enter.bind_exhausted h
    cases h

/-- **Only calls of host functions** are cut short within a step. -/
theorem exhausted_of_step (h : x.step env invoke w = (.error .exhausted, w')) :
    ∃ func rs t, x.nextCall? env w = some ⟨func, rs⟩ ∧ func < env.imported ∧
    env.mod.funcType? func = some t ∧
      env.callHost (env.callExport invoke) func (List.zipWith Value.ofRaw t.params rs) w =
      (.error .exhausted, w') := by
  obtain ⟨i, hi, hthen⟩ := need_bind_exhausted h
  have hother (hcall : ∀ func, i ≠ .plain (.call func))
      (htable : ∀ type table, i ≠ .plain (.callIndirect type table)) : False := by
    have htotal : Only Total (x.step env invoke) (x.step env invoke) := by
      refine full_step World.full_total (.refl env) (fun func hfunc => ?_)
        fun type table hfunc => ?_
      · exact absurd (Option.some.inj (hi.symm.trans hfunc)) (hcall func)
      · exact absurd (Option.some.inj (hi.symm.trans hfunc)) (htable type table)
    exact Total.not_exhausted htotal h
  cases i with
  | plain op =>
    cases op with
    | call func =>
      obtain ⟨t, rs, hcall, hfunc, ht, h⟩ := exhausted_of_callFunc hthen
      exact ⟨func, rs, t, by simpa [nextCall?, hi] using hcall, hfunc, ht, h⟩
    | callIndirect type table =>
      have htable : callTable env invoke x type table w = (.error .exhausted, w') := hthen
      rw [callTable] at htable
      rcases hvs : x.values with _ | ⟨index, rest⟩
      · rw [hvs] at htable
        cases htable
      rw [hvs] at htable
      obtain ⟨func, w₁, hsee, hneed⟩ := (World.total_seeStore _).bind_exhausted htable
      obtain ⟨rfl, hfound⟩ := World.seeStore_eq_ok.1 hsee
      obtain ⟨expected, hexpected, hneed⟩ := need_bind_exhausted hneed
      obtain ⟨actual, hactual, hcheck⟩ := need_bind_exhausted hneed
      split at hcheck
      · next heq =>
        obtain ⟨t, rs, hcall, hfunc, ht, hhost⟩ := exhausted_of_callFunc hcheck
        exact ⟨func, rs,
          t, by simpa [nextCall?, hi, hvs, hfound, hactual, hexpected, heq,
            withValues] using hcall, hfunc, ht, hhost⟩
      · cases hcheck
    | _ => exact (hother (by simp) (by simp)).elim
  | _ => exact (hother (by simp) (by simp)).elim

end Machine

/-! ### The sites where runs stop -/

namespace Site

variable {env : Env H} {r : Runtime} {bodies : Nat → Nested} {σ τ : Site H} {s : Store}
  {n : Nat} {w w' : World H}

/-- A store is that of a site which is reached. -/
def Stops (env : Env H) (r : Runtime) (σ : Site H) (s : Store) : Prop :=
  ∃ τ, Reaches env r σ τ ∧ τ.world.store = s

theorem Stops.here (h : σ.world.store = s) : Stops env r σ s := ⟨σ, .refl, h⟩

theorem Stops.head (h : Next env r σ τ) : Stops env r τ s → Stops env r σ s
  | ⟨τ', hreach, hs⟩ => ⟨τ', hreach.head h, hs⟩

section Host

variable (hinvoke : ∀ {func args w w'}, r.invoke env n func args w = (.error .exhausted, w') →
  Stops env r (.call func args w) w'.store)
include hinvoke

theorem stops_host {p : HostProg H}
    (h : p.run (env.callExport (r.invoke env n)) w = (.error .exhausted, w')) :
    Stops env r (.host p w) w'.store := by
  induction p generalizing w with
  | finish r => exact (Total.not_exhausted (Total.closed.ofExcept r) h).elim
  | look next ih => exact (ih w h).head .look
  | setHost h next ih => exact (ih ‹_›).head .setHost
  | memory op next ih =>
    rw [HostProg.run_memory] at h
    rcases bind_eq_error.1 h with h | ⟨x, w₁, hx, h⟩
    · exact ((World.total_onStore _).not_exhausted (exhausted_of_catching h)).elim
    · exact (ih x h).head (.memory hx)
  | call name args next ih =>
    rw [HostProg.run_call] at h
    rcases bind_eq_error.1 h with h | ⟨x, w₁, hx, h⟩
    · obtain ⟨func, t, hfunc, ht, hargs, h⟩ := Env.exhausted_of_callExport (exhausted_of_catching h)
      exact (hinvoke h).head (.reenter hfunc ht hargs)
    · exact (ih x h).head (.resume hx)

theorem stops_callHost {func : Nat} {args : List Value} (hfunc : func < env.imported)
    (h : env.callHost (env.callExport (r.invoke env n)) func args w = (.error .exhausted, w')) :
    Stops env r (.call func args w) w'.store := by
  obtain ⟨f, w₁, w₂, hf, hw, hrun, hstore⟩ := Env.exhausted_of_callHost h
  rw [hstore]
  exact (stops_host hinvoke hrun).head (.host hfunc hf hw)

end Host

/-- What is interpreted and cut short. -/
theorem stops_interpreter (n : Nat) :
    (∀ {func args} {w w' : World H}, Interpreter.invoke env n func args w =
      (.error .exhausted, w') →
      Stops env .interpreter (.call func args w) w'.store) ∧
    ∀ {funcs x} {w w' : World H}, Interpreter.run env n x w = (.error .exhausted, w') →
      Stops env .interpreter (.machine funcs x w) w'.store := by
  induction n with
  | zero =>
    exact ⟨fun h => .here (congrArg World.store (Prod.mk.inj h).2),
      fun h => .here (congrArg World.store (Prod.mk.inj h).2)⟩
  | succ n ih =>
    refine ⟨@fun func args w w' h => ?_, @fun funcs x w w' h => ?_⟩
    · rw [Interpreter.invoke] at h
      split at h
      · next hfunc => exact stops_callHost (r := .interpreter) ih.1 hfunc h
      · obtain ⟨t, ht, h⟩ := need_bind_exhausted h
        obtain ⟨⟨f, t'⟩, hf, h⟩ := need_bind_exhausted h
        obtain ⟨_, w₁, hw, h⟩ := World.total_enter.bind_exhausted h
        have hrun :=
          exhausted_of_bind (fun _ => iteInduction (fun _ => Total.closed.pure _) fun _ =>
            Total.closed.fail _) h
        exact (ih.2 hrun).head (.start hf hw)
    · rw [Interpreter.run] at h
      rcases hstep : x.step env (Interpreter.invoke env n) w with ⟨e | x' | vs, w₁⟩ <;>
        simp only [hstep, Prod.mk.injEq] at h
      · obtain ⟨he, rfl⟩ := h
        obtain rfl := Except.error.inj he
        obtain ⟨func, rs, t, hcall, hfunc, ht, hhost⟩ := Machine.exhausted_of_step hstep
        exact (stops_callHost (r := .interpreter) ih.1 hfunc hhost).head (.foreign hcall hfunc ht)
      · exact (ih.2 h).head (.step hstep)
      · exact absurd h.1 (by simp)

/-! ### Compiled code -/

open Activation

variable {c : Compiled}

/-- Where the parts of compiled code are cut short, all of which are bounded
together. -/
structure StopsWithin (env : Env H) (c : Compiled) (n : Nat) : Prop where
  invoke : ∀ {func args} {w w' : World H}, Compiled.invoke env c n func args w =
    (.error .exhausted, w') →
    Stops env (.compiled c) (.call func args w) w'.store
  execute : ∀ {func fp} {f : CompiledFunc} {a a' : Activation H} (outer : List Spot),
    ¬func < c.imported →
    c.funcs[func - c.imported]? = some f →
    Compiled.execute env c n func fp a = (.error .exhausted, a') →
    Stops env (.compiled c) (.code ⟨func, fp, 0⟩ outer f.body (openFrame f fp a).2) a'.world.store
  callAt :
    ∀ {op func slot} {a a' : Activation H} (here : Spot) (outer : List Spot) (ops : List Code),
    c.Calls here.fp a op func slot → Compiled.callAt env c n func slot a = (.error .exhausted, a') →
    Stops env (.compiled c) (.code here outer (op :: ops) a) a'.world.store
  runSeq : ∀ {ops} {a a' : Activation H} (here : Spot) (outer : List Spot),
    Compiled.runSeq env c n here.fp ops a = (.error .exhausted, a') →
    Stops env (.compiled c) (.code here outer ops a) a'.world.store
  runOp : ∀ {op} {a a' : Activation H} (here : Spot) (outer : List Spot) (ops : List Code),
    Compiled.runOp env c n here.fp op a = (.error .exhausted, a') →
    Stops env (.compiled c) (.code here outer (op :: ops) a) a'.world.store

namespace StopsWithin

theorem exists_func_of_execute {func fp : Nat} {a a' : Activation H} (hfunc : ¬func < c.imported)
    (h : Compiled.execute env c n func fp a = (.error .exhausted, a')) :
    (∃ f, c.funcs[func - c.imported]? = some f) ∨ a' = a := by
  cases n with
  | zero => exact .inr (Prod.mk.inj h).2.symm
  | succ n =>
    obtain ⟨f, hf, -⟩ := need_bind_exhausted h
    rw [if_neg hfunc] at hf
    exact .inl ⟨f, hf⟩

theorem zero : StopsWithin env c 0 where
  invoke h := .here (congrArg World.store (Prod.mk.inj h).2)
  execute {_ _ _ a a'} _ _ _ h :=
    .here (congrArg World.store (congrArg Activation.world (Prod.mk.inj h).2 : a.world = a'.world))
  callAt _ _ _ _ h := .here (congrArg World.store (congrArg Activation.world (Prod.mk.inj h).2))
  runSeq _ _ h := .here (congrArg World.store (congrArg Activation.world (Prod.mk.inj h).2))
  runOp _ _ _ h := .here (congrArg World.store (congrArg Activation.world (Prod.mk.inj h).2))

variable (ih : StopsWithin env c n) (here : Spot) (outer : List Spot) (ops : List Code)
  {a a' : Activation H}

section

include ih

theorem execute_succ {func fp : Nat} {f : CompiledFunc} (hfunc : ¬func < c.imported)
    (hf : c.funcs[func - c.imported]? = some f)
    (h : Compiled.execute env c (n + 1) func fp a = (.error .exhausted, a')) :
    Stops env (.compiled c) (.code ⟨func, fp, 0⟩ outer f.body (openFrame f fp a).2)
      a'.world.store := by
  simp only [Compiled.execute, hfunc, if_false, hf, need_some, Run.pure_bind] at h
  exact ih.runSeq ⟨func, fp, 0⟩ outer (exhausted_of_bind (fun _ => Total.closed.pure _) h)

theorem runSeq_succ (h : Compiled.runSeq env c (n + 1) here.fp ops a = (.error .exhausted, a')) :
    Stops env (.compiled c) (.code here outer ops a) a'.world.store := by
  cases ops with
  | nil => cases h
  | cons op ops =>
    rw [Compiled.runSeq] at h
    rcases hop : Compiled.runOp env c n here.fp op a with ⟨e | _ | _ | _, a₁⟩ <;>
      simp only [hop] at h
    · exact ih.runOp here outer ops (hop.trans h)
    · exact (ih.runSeq (here.behind env.mod) outer h).head (.behind hop)
    · cases h
    · cases h

theorem runOp_succ {op : Code}
    (h : Compiled.runOp env c (n + 1) here.fp op a = (.error .exhausted, a')) :
    Stops env (.compiled c) (.code here outer (op :: ops) a) a'.world.store := by
  have hpure {β : Type} (b : β) : Total (Pure.pure b : Run (Activation H) β) := Total.closed.pure b
  have hread (i : Nat) : Total (Activation.get i : Run (Activation H) Raw) :=
    ample_total.get trivial
  have hget {α : Type} {i : Nat} {g : Raw → Run (Activation H) α}
      (h : (Activation.get i >>= g) a = (.error .exhausted, a')) :
      ∃ r, Activation.get i a = (.ok r, a) ∧ g r a = (.error .exhausted, a') := by
    obtain ⟨r, a₁, hr, hthen⟩ := (hread i).bind_exhausted h
    obtain rfl : a₁ = a := (get_only i).eq hr
    exact ⟨r, hr, hthen⟩
  have htake {j : Jump} : Total (Activation.take here.fp j : Run (Activation H) Flow) :=
    ample_take ample_total fun _ _ => trivial
  have hoperate : Total (Compiled.operate env.policy here.fp op : Run (Activation H) Unit) :=
    ample_operate ample_total World.full_total.toAmple
      (fun i (_ : i ∈ op.slots c.types) => trivial) env.policy
  rw [Compiled.runOp] at h
  -- What has no parts is total, so the bound runs out in a part or not at all.
  cases op with
  | block body =>
    exact (ih.runSeq (here.inside env.mod) outer (exhausted_of_bind (fun _ => hpure _) h)).head
      .block
  | loop body =>
    rcases bind_eq_error.1 h with h | ⟨flow, a₁, hbody, h⟩
    · exact (ih.runSeq (here.inside env.mod) outer h).head .loop
    · rcases flow with _ | depth | _
      · cases h
      · cases depth with
        | zero => exact (ih.runOp (here.skip env.mod) outer ops h).head (.again hbody)
        | succ => cases h
      · cases h
  | cond slot yes no =>
    obtain ⟨r, hr, h⟩ := hget h
    have hseq := exhausted_of_bind (fun _ => hpure _) h
    cases htrue : r.isTrue with
    | true =>
      rw [htrue, if_pos rfl] at hseq
      exact (ih.runSeq (here.inside env.mod) outer hseq).head (.yes hr htrue)
    | false =>
      rw [htrue, if_neg Bool.false_ne_true, ← here.otherwise_fp env.mod] at hseq
      exact (ih.runSeq (here.otherwise env.mod) outer hseq).head (.no hr htrue)
  | jump j => exact (htake.not_exhausted h).elim
  | jumpIf slot j =>
    exact (((hread _).bind fun _ => iteInduction (fun _ => htake) fun _ =>
      hpure _).not_exhausted h).elim
  | jumpTable slot targets default => exact (((hread _).bind fun _ => htake).not_exhausted h).elim
  | call func args =>
    exact ih.callAt here outer ops .direct (exhausted_of_bind (fun _ => hpure _) h)
  | callIndirect type table slot args =>
    obtain ⟨r, hr, h⟩ := hget h
    obtain ⟨func, a₁, htable, hneed⟩ := (onWorld_total (World.total_seeStore _)).bind_exhausted h
    obtain ⟨hworld, hslots⟩ := onWorld_eq_iff.1 htable
    obtain rfl : a₁ = a := by
      obtain ⟨slots, w⟩ := a
      obtain ⟨slots₁, w₁⟩ := a₁
      exact Activation.mk.injEq .. ▸ ⟨hslots, (World.seeStore_eq_ok.1 hworld).1⟩
    obtain ⟨actual, hactual, hcheck⟩ := need_bind_exhausted hneed
    split at hcheck
    · next heq =>
      obtain rfl := heq
      exact ih.callAt here outer ops (.indirect hr hworld hactual)
        (exhausted_of_bind (fun _ => hpure _) hcheck)
    · cases hcheck
  | _ => exact ((hoperate.bind fun _ => hpure _).not_exhausted h).elim

end

variable (himported : c.imported = env.imported)
include ih himported

theorem invoke_succ {func : Nat} {args : List Value}
    (h : Compiled.invoke env c (n + 1) func args w = (.error .exhausted, w')) :
    Stops env (.compiled c) (.call func args w) w'.store := by
  rw [Compiled.invoke] at h
  split at h
  · next hfunc => exact stops_callHost (r := .compiled c) ih.invoke (himported ▸ hfunc) h
  · next hfunc =>
    obtain ⟨t, ht, h⟩ := need_bind_exhausted h
    obtain ⟨_, w₁, hw, h⟩ := World.total_enter.bind_exhausted h
    rcases hexec : Compiled.execute env c n func 0 ⟨(args.map Value.toRaw).toArray, w₁⟩ with ⟨e | _,
      a⟩ <;> simp only [hexec] at h
    · obtain ⟨he, rfl⟩ := Prod.mk.inj h
      obtain rfl := Except.error.inj he
      rcases exists_func_of_execute hfunc hexec with ⟨f, hf⟩ | rfl
      · exact (ih.execute [] hfunc hf hexec).head (.launch hfunc hf hw)
      · exact .here (World.store_of_enter hw).symm
    · split at h <;> cases h

theorem callAt_succ {func slot : Nat} {op : Code} (hcall : c.Calls here.fp a op func slot)
    (h : Compiled.callAt env c (n + 1) func slot a = (.error .exhausted, a')) :
    Stops env (.compiled c) (.code here outer (op :: ops) a) a'.world.store := by
  rw [Compiled.callAt] at h
  split at h
  · next hfunc =>
    obtain ⟨t, ht, h⟩ := need_bind_exhausted h
    obtain ⟨args, a₁, hargs, hthen⟩ :=
      Total.bind_exhausted (ample_arguments ample_total fun _ _ => trivial) h
    obtain rfl : a₁ = a := (arguments_only _ _).eq hargs
    obtain ⟨hhost, -⟩ :=
      onWorld_eq_iff.1 (exhausted_of_bind
        (fun _ => ample_setResults ample_total fun _ _ => trivial) hthen)
    exact (stops_callHost (r := .compiled c) ih.invoke (himported ▸ hfunc) hhost).head
      (.leave hcall hfunc ht hargs)
  · next hfunc =>
    obtain ⟨_, a₁, hw, h⟩ := (onWorld_total World.total_enter).bind_exhausted h
    obtain ⟨a₂, hexec, rfl⟩ := exhausted_of_leaving h
    rcases exists_func_of_execute hfunc hexec with ⟨f, hf⟩ | rfl
    · exact (ih.execute (here.behind env.mod :: outer) hfunc hf hexec).head
        (.enter hcall hfunc hf hw)
    · exact .here (World.store_of_enter (onWorld_eq_iff.1 hw).1).symm

end StopsWithin

/-- What is compiled and cut short. -/
theorem stopsWithin (himported : c.imported = env.imported) (n : Nat) : StopsWithin env c n := by
  induction n with
  | zero => exact .zero
  | succ n ih =>
    exact ⟨ih.invoke_succ himported, fun outer => ih.execute_succ outer,
      @fun _ _ _ _ _ here outer ops => ih.callAt_succ here outer ops himported,
      @fun ops _ _ here outer => ih.runSeq_succ here outer ops, @fun _ _ _ here outer ops =>
      ih.runOp_succ here outer ops⟩

/-- **Where a call is cut short**, the store is that of a site which it has
reached. -/
theorem stops_of_exhausted (hr : r.Renders env.mod bodies) {func : Nat} {args : List Value}
    (h : r.invoke env n func args w = (.error .exhausted, w')) :
    Stops env r (.call func args w) w'.store := by
  cases r with
  | interpreter => exact (stops_interpreter n).1 h
  | compiled c =>
    have hrenders : Compiled.Renders env.mod bodies c := hr
    exact (stopsWithin hrenders.imported n).invoke h

end Site

end WasmEngine
