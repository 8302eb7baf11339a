import WasmEngine.Proofs.Compiled.Windows
import WasmEngine.Proofs.Instance.ZeroExtension

/-!
# Calls of compiled functions and their frames

Whatever an instance is asked for, the functions that are executed in the course
of it have their arguments in place: those that the operation or a host function
calls have a row of slots of their own, and those that compiled code calls find
them among the operands of their callers, which are typed
(`WasmEngine.Instance.Executes.passed`). So what is true of calls with arguments
in place is true of all calls, however they are nested
(`WasmEngine.Instance.frames_isolated`).
-/

namespace WasmEngine.Instance

open Run Compiled

variable {H : Type}

/-- **Compiled code gets to a site**, in the course of some operation on
some instance of a module, whatever has been done to it before. -/
def Gets (m : Module) (env : Env H) (c : Compiled) (τ : Site H) : Prop :=
  ∃ s p o past h op σ, Starts ((fresh m s p o).through past) h op env (.compiled c) σ ∧
    Site.Reaches env (.compiled c) σ τ

/-- **A function is executed with its frame at `fp`**, in the course of some
operation on some instance of a module. -/
inductive Executes (m : Module) (env : Env H) (c : Compiled) : (func fp : Nat) → Activation H → Prop
  /-- It is called by the operation, or by a host function in the course of it,
  and gets a row of slots of its own. -/
  | called {func args w w'} (h : Gets m env c (.call func args w)) (hfunc : ¬func < c.imported)
    (hw : World.enter w = (.ok (), w')) :
    Executes m env c func 0 ⟨(args.map Value.toRaw).toArray, w'⟩
  /-- It is called by an operation of compiled code, directly or by an entry of
  a table. -/
  | nested {here outer op ops a a' func slot} (h : Gets m env c (.code here outer (op :: ops) a))
    (hcall : c.Calls here.fp a op func slot)
    (hfunc : ¬func < c.imported) (hw : Activation.onWorld World.enter a = (.ok (), a')) :
    Executes m env c func slot a'

variable {m : Module} {bodies : Nat → Nested} {env : Env H} {c : Compiled} {τ : Site H}
  {func fp : Nat} {a : Activation H}

/-- What is run is what is compiled of the module, with its imports linked. -/
theorem Starts.runs {i : Instance H} {s : Strategy} {h : H} {op : Operation H} {r : Runtime}
    {σ : Site H} (hm : m.Valid) (hb : m.Bodies bodies) (hi : i.Sound m s)
    (hstart : Starts i h op env r σ) : env.mod = m ∧ env.Linked ∧ r.Renders m bodies := by
  obtain ⟨hplan, hr⟩ := hstart
  have hsound := sound_plan (h := h) hm hi op
  rw [hplan] at hsound
  cases hsound with
  | call hi' _ hnow _ _ =>
    obtain ⟨hlinked, hrenders⟩ := hi'.runs hm hb hnow hr
    rw [hi'.mod]
    exact ⟨rfl, hlinked, hrenders⟩

theorem Gets.runs (hm : m.Valid) (hb : m.Bodies bodies) (h : Gets m env c τ) :
    env.mod = m ∧ env.Linked ∧ Renders m bodies c ∧ τ.Typed (fun _ _ => True) m bodies := by
  obtain ⟨s, p, o, past, h, op, σ, hstart, hreach⟩ := h
  have hi := sound_through hm (sound_fresh m s p o) past
  have hc := carries_through hm (sound_fresh m s p o) (carries_fresh p.upholds_true m s o) past
  obtain ⟨hmod, hlinked, hrenders⟩ := hstart.runs hm hb hi
  exact ⟨hmod, hlinked, hrenders, hstart.typed hm hb hi hc hreach⟩

/-- **A function that is executed has its arguments in place.** -/
theorem Executes.passed (hm : m.Valid) (hb : m.Bodies bodies) (h : Executes m env c func fp a) :
    fp ≤ a.slots.size ∧ ∃ f t args, Passed env func fp f t args a.slots := by
  have hdefined {t : FuncType} (hmod : env.mod = m) (hrenders : Renders m bodies c)
    (hfunc : ¬func < c.imported)
      (ht : m.funcType? func = some t) : ∃ f, env.defined? func = some (f, t) := by
    subst hmod
    rw [hrenders.imported] at hfunc
    obtain ⟨f, -, -, hf⟩ := Env.exists_defined hfunc ht
    exact ⟨f, hf⟩
  cases h with
  | called h hfunc hw =>
    obtain ⟨hmod, -, hrenders, -, t, ht, hargs⟩ := h.runs hm hb
    obtain ⟨f, hf⟩ := hdefined hmod hrenders hfunc ht
    refine ⟨Nat.zero_le _, f, t, _, hf, ?_, row_toArray⟩
    rw [List.length_map, ← hargs, List.length_map]
  | nested h hcall hfunc hw =>
    obtain ⟨hmod, -, hrenders, -, hstands, -⟩ := h.runs hm hb
    obtain ⟨t, args, ht, hargs, hrow, hslot, -⟩ := hstands.calls hb hrenders hcall
    obtain ⟨f, hf⟩ := hdefined hmod hrenders hfunc ht
    -- Taking a unit of call depth does nothing to the slots.
    obtain ⟨-, hslots⟩ := Activation.onWorld_eq_iff.1 hw
    rw [hslots]
    exact ⟨hslot, f, t, args, hf, hargs.length_eq.symm, hrow⟩

theorem Executes.windowed (hm : m.Valid) (hb : m.Bodies bodies) (h : Executes m env c func fp a) :
    Windowed env c func fp a := by
  obtain ⟨τ, hτ⟩ : ∃ τ, Gets m env c τ := by
    cases h with
    | called h | nested h => exact ⟨_, h⟩
  obtain ⟨rfl, hlinked, hrenders, -⟩ := hτ.runs hm hb
  exact Compiled.windowed hlinked hb hrenders func fp a

/-- **Frames are isolated**, in a valid module.

* A call of a compiled function does not disturb other frames, whatever is in
  the slots, and starts and ends as it does on its own.
* That goes for every function that is executed in the course of an operation,
  whether the operation, a host function or compiled code calls it; and each of
  them has its arguments in place. -/
theorem isolated_of_valid (hm : m.Valid) :
    (∀ {env : Env H} {c}, env.mod = m → compile m = .ok c → env.Linked →
      ∀ func fp a, Windowed env c func fp a) ∧
    ∀ {env : Env H} {c func fp a}, Executes m env c func fp a → Windowed env c func fp a ∧
      fp ≤ a.slots.size ∧ ∃ f t args, Passed env func fp f t args a.slots := by
  obtain ⟨scope, sources, hchecked⟩ := hm.checked
  have hb := hchecked.bodies
  refine ⟨fun hmod hc hlinked func fp a => ?_, fun h => ⟨h.windowed hm hb, h.passed hm hb⟩⟩
  obtain ⟨c', hc', hrenders⟩ := exists_compile hb hm.imports
  obtain rfl := Except.ok.inj (hc'.symm.trans hc)
  subst hmod
  exact Compiled.windowed hlinked hb hrenders func fp a

/-- **Frames are isolated**, in a module that can be decoded. -/
theorem frames_isolated {bs : List UInt8} (hm : Module.decode bs = .ok m) :
    (∀ {env : Env H} {c}, env.mod = m → compile m = .ok c → env.Linked →
      ∀ func fp a, Windowed env c func fp a) ∧
    ∀ {env : Env H} {c func fp a}, Executes m env c func fp a → Windowed env c func fp a ∧
      fp ≤ a.slots.size ∧ ∃ f t args, Passed env func fp f t args a.slots :=
  isolated_of_valid (Module.valid_of_decode hm)

/-! ### A local that an earlier call has written to -/

/-- The binary of a module with a function that keeps the sum of its argument
and a local in that local and returns it, and a function `go` that calls it
twice. -/
def twiceBytes : List UInt8 := [
  0x00, 0x61, 0x73, 0x6d, 0x01, 0x00, 0x00, 0x00,
  0x01, 0x06, 0x01, 0x60, 0x01, 0x7f, 0x01, 0x7f,
  0x03, 0x03, 0x02, 0x00, 0x00,
  0x07, 0x06, 0x01, 0x02, 0x67, 0x6f, 0x00, 0x01,
  0x0a, 0x18, 0x02, 0x0d, 0x01, 0x01, 0x7f, 0x20, 0x00, 0x20, 0x01, 0x6a, 0x21, 0x01, 0x20, 0x01,
  0x0b, 0x08, 0x00, 0x20, 0x00, 0x10, 0x00, 0x10, 0x00, 0x0b]

/-- The function that is called twice. -/
def sumFunc : Func where
  type := 0
  locals := [.i32]
  code := #[.plain (.localGet 0), .plain (.localGet 1), .plain (.binary (.int .w32 .add)),
    .plain (.localSet 1), .plain (.localGet 1), .plain .ret]

/-- The module. -/
def twice : Module where
  version := some 1
  types := #[⟨[.i32], [.i32]⟩]
  exports := [⟨"go", .func, 1⟩]
  funcs :=
    #[sumFunc, ⟨0, [], #[.plain (.localGet 0), .plain (.call 0), .plain (.call 0), .plain .ret]⟩]

theorem decode_twice : Module.decode twiceBytes = .ok twice := rfl

/-- What is compiled of it. -/
def twiceCode : Compiled where
  funcs :=
    #[⟨1, 2, 4, [.copy 0 2, .copy 1 3, .binary (.int .w32 .add) 2 3, .copy 2 1, .copy 1 2,
      .jump ⟨2, 0, 1, .ret⟩]⟩, ⟨1, 1, 2, [.copy 0 1, .call 0 1, .call 0 1, .jump ⟨1, 0, 1, .ret⟩]⟩]
  types := #[⟨[.i32], [.i32]⟩, ⟨[.i32], [.i32]⟩]
  imported := 0

theorem compile_twice : compile twice = .ok twiceCode := by
  cbv

/-- The module, set up. -/
def compiledTwice : Instance Unit :=
  (fresh twice .compiled .soft {}).through [⟨(), 0, .setMemory 0⟩, ⟨(), 9, .setUp none⟩]

/-- The code of `go` gets to the second call. The first has left the sum in the
local, which is the third slot. -/
theorem twice_reaches (policy : FloatPolicy) (hosts : Array (HostFunction Unit)) (store : Store) :
    ∃ here : Spot, here.fp = 0 ∧
    Site.Reaches ⟨twice, policy, hosts⟩ (.compiled twiceCode)
      (.call 1 [.i32 5] ⟨store, ⟨0, 251⟩, ()⟩)
      (.code here [] [.call 0 1, .jump ⟨1, 0, 1, .ret⟩] ⟨#[5, 5, 5, 5, 0], store,
        ⟨1, 251⟩, ()⟩) := by
  have hgo : twiceCode.funcs[1 - twiceCode.imported]? =
      some ⟨1, 1, 2, [.copy 0 1, .call 0 1, .call 0 1, .jump ⟨1, 0, 1, .ret⟩]⟩ := rfl
  have hlaunch : Site.Next ⟨twice, policy, hosts⟩ (.compiled twiceCode)
    (.call 1 [.i32 5] ⟨store, ⟨0, 251⟩, ()⟩)
      (.code ⟨1, 0, 0⟩ [] [.copy 0 1, .call 0 1, .call 0 1, .jump ⟨1, 0, 1, .ret⟩]
        ⟨#[5, 0], store, ⟨1, 251⟩, ()⟩) :=
    .launch (Nat.not_lt_zero _) hgo rfl
  have hcopy : runOp ⟨twice, policy, hosts⟩ twiceCode 1 0 (.copy 0 1)
    ⟨#[5, 0], store, ⟨1, 251⟩, ()⟩ =
      (.ok .next, ⟨#[5, 5], store, ⟨1, 251⟩, ()⟩) := rfl
  have hcall : runOp ⟨twice, policy, hosts⟩ twiceCode 20 0 (.call 0 1)
    ⟨#[5, 5], store, ⟨1, 251⟩, ()⟩ =
      (.ok .next, ⟨#[5, 5, 5, 5, 0], store, ⟨1, 251⟩, ()⟩) := by cbv
  exact ⟨_, rfl, .tail (.tail (.single hlaunch) (.behind hcopy)) (.behind hcall)⟩

/-- The second call is executed over the slots of the first. -/
theorem twice_executes : ∃ policy hosts store,
    Executes twice ⟨twice, policy, hosts⟩ twiceCode 0 1 ⟨#[5, 5, 5, 5, 0], store,
      ⟨2, 251⟩, ()⟩ := by
  have hsound : compiledTwice.Sound twice .compiled :=
    sound_through (Module.valid_of_decode decode_twice) (sound_fresh twice .compiled .soft {}) _
  have hready : compiledTwice.ready = true := by decide +kernel
  have hguard : compiledTwice.guard = ⟨0, 251⟩ := by decide +kernel
  obtain ⟨r, hr⟩ := Option.isSome_iff_exists.1 (hsound.ready hready).prepared
  have hcode : Runtime.prepare .compiled twice = .ok (.compiled twiceCode) := by
    rw [Runtime.prepare, compile_twice]
    rfl
  obtain rfl : .compiled twiceCode = r := Except.ok.inj (hcode.symm.trans (hsound.prepared r hr))
  have hlookup : compiledTwice.lookup "env" "go" [.i32 5] = .ok (1, 1) := by
    refine lookup_eq (t := ⟨[.i32], [.i32]⟩) hready ?_ ?_ rfl <;> rw [hsound.mod] <;> rfl
  have hplan : (Operation.invoke "go" [.i32 5]).plan compiledTwice () =
      .call compiledTwice () 1 [.i32 5] (fun vs => .ok (.values vs)) id := by
    simp only [Operation.plan, planCall, hlookup]
  have hstart := Starts.mk hplan hr
  rw [hsound.mod, hguard] at hstart
  obtain ⟨here, hfp, hreach⟩ := twice_reaches compiledTwice.policy compiledTwice.hosts
    compiledTwice.store
  refine ⟨_, _, _, .nested ⟨_, _, _, _, _, _, _, hstart, hreach⟩ ?_ (Nat.not_lt_zero _) rfl⟩
  rw [hfp]
  exact .direct

/-- It returns the sum of its argument and zero, below which all is as it was. -/
theorem twice_isolated : Module.decode twiceBytes = .ok twice ∧ ∃ policy hosts store,
    Executes twice ⟨twice, policy, hosts⟩ twiceCode 0 1 ⟨#[5, 5, 5, 5, 0], store, ⟨2, 251⟩, ()⟩ ∧
      (∀ n, Retained 1 #[5, 5, 5, 5, 0]
        (execute ⟨twice, policy, hosts⟩ twiceCode n 0 1 ⟨#[5, 5, 5, 5, 0], store,
          ⟨2, 251⟩, ()⟩).2.slots) ∧
      Settles (alone ⟨twice, policy, hosts⟩ sumFunc ⟨[.i32], [.i32]⟩ [5]) ⟨store, ⟨2, 251⟩, ()⟩
        (.ok [5], ⟨store, ⟨1, 251⟩, ()⟩) := by
  obtain ⟨policy, hosts, store, hexecutes⟩ := twice_executes
  obtain ⟨hwindowed, -, -⟩ := (frames_isolated decode_twice).2 hexecutes
  have hpassed : Passed ⟨twice, policy, hosts⟩ 0 1 sumFunc ⟨[.i32], [.i32]⟩ [5] #[5, 5, 5, 5, 0] :=
    ⟨rfl, rfl, row_cons.2 ⟨rfl, row_nil⟩⟩
  have hreturns :
    execute ⟨twice, policy, hosts⟩ twiceCode 20 0 1 ⟨#[5, 5, 5, 5, 0], store, ⟨2, 251⟩, ()⟩ =
      (.ok (), ⟨#[5, 5, 5, 5, 0], store, ⟨2, 251⟩, ()⟩) := by cbv
  obtain ⟨rs, hlength, hrow, hsettles⟩ := hwindowed.results hpassed hreturns
  obtain ⟨r, rfl⟩ := List.length_eq_one_iff.1 hlength
  obtain rfl : (5 : Raw) = r := Option.some.inj (row_cons.1 hrow).1
  exact ⟨decode_twice, policy, hosts, store, hexecutes, hwindowed.retained, hsettles⟩

end WasmEngine.Instance
