import WasmEngine.Proofs.Memory.History
import WasmEngine.Proofs.Related

/-!
# What running code leaves alone

A **reading** is anything that can be read off a state. A run keeps it
(`WasmEngine.Run.Keeps`) if it is the same afterwards, whatever the outcome:
value, error or one of the other halts. Every operation that runs are made of
has a rule, so a reading is kept by a program if its parts keep it.

For worlds a reading is **steady** (`WasmEngine.World.Steady`) if no instruction
changes it, apart from what calls do to the guard. There are two of interest.
The guard itself is steady, so only calls and returns have to be looked at where
calls are counted. The byte limit of the memory is steady and does not depend on
the guard either, so that all code keeps it, under both ways of execution
(`WasmEngine.Interpreter.invoke_keeps`, `WasmEngine.Compiled.invoke_keeps`).
-/

namespace WasmEngine

variable {σ α β γ : Type}

namespace Run

/-- **A run keeps a reading of the state**, whatever its outcome. -/
def Keeps (f : σ → γ) (x : Run σ α) : Prop := ∀ s, f (x s).2 = f s

namespace Keeps

variable {f : σ → γ}

theorem pure (a : α) : Keeps f (Pure.pure a : Run σ α) := fun _ => rfl

theorem halt (h : Halt) : Keeps f (Run.halt h : Run σ α) := fun _ => rfl

theorem eq {x : Run σ α} (hx : Keeps f x) {s t : σ} {r : Except Halt α}
    (h : x s = (r, t)) : f t = f s :=
  (congrArg (fun p => f p.2) h).symm.trans (hx s)

theorem bind {x : Run σ α} {g : α → Run σ β} (hx : Keeps f x) (hg : ∀ a, Keeps f (g a)) :
    Keeps f (x >>= g) := by
  intro s
  have h := hx s
  rw [bind_apply]
  generalize x s = r at h ⊢
  obtain ⟨e | a, s'⟩ := r
  · exact h
  · exact (hg a s').trans h

theorem leaving {x : Run σ α} {g : σ → σ} (hx : Keeps f x) (hg : ∀ s, f (g s) = f s) :
    Keeps f (x.leaving g) :=
  fun s => (hg (x s).2).trans (hx s)

theorem catching {x : Run σ α} (hx : Keeps f x) : Keeps f x.catching := by
  intro s
  have h := hx s
  rw [Run.catching]
  generalize x s = r at h ⊢
  obtain ⟨(e | _ | _) | a, s'⟩ := r <;> exact h

theorem closed (f : σ → γ) : Closed (Only (Keeps f)) where
  pure := pure
  fail _ := halt _
  bind := bind

theorem ofExcept (x : Except Error α) : Keeps f (Run.ofExcept x : Run σ α) := (closed f).ofExcept x

end Keeps

/-- **A run preserves a property of the state**, whatever its outcome. -/
def Preserves (P : σ → Prop) (x : Run σ α) : Prop := ∀ s, P s → P (x s).2

theorem Preserves.bind {P : σ → Prop} {x : Run σ α} {g : α → Run σ β} (hx : Preserves P x)
    (hg : ∀ a, Preserves P (g a)) : Preserves P (x >>= g) := by
  intro s hs
  have h := hx s hs
  rw [bind_apply]
  generalize x s = r at h ⊢
  obtain ⟨e | a, s'⟩ := r
  · exact h
  · exact hg a s' h

end Run

open Run

variable {H : Type}

/-! ### Worlds -/

/-- The byte limit of the memory of a store, if there is one. -/
def Store.limit (s : Store) : Option Nat := s.memory.map Memory.byteLimit

theorem Store.limit_onMemory {g : Memory → Except Error α × Memory}
    (hg : ∀ m, (g m).2.byteLimit = m.byteLimit) (s : Store) : (s.onMemory g).2.limit = s.limit := by
  obtain ⟨gs, ts, _ | m⟩ := s
  · rfl
  · exact congrArg some (hg m)

namespace World

/-- **A steady reading**: neither the host's context nor what instructions do to
the store matters to it. -/
structure Steady (f : World H → γ) : Prop where
  host : ∀ w h, f { w with host := h } = f w
  setGlobal : ∀ i r, Keeps f (setGlobal i r)
  memory : ∀ {α : Type} (g : Memory → Except Error α × Memory),
    (∀ m, (g m).2.byteLimit = m.byteLimit) →
    Keeps f (onMemory g)

theorem onStore_keeps {f : World H → γ} {g : Store → Except Error α × Store}
    (h : ∀ w : World H, f { w with store := (g w.store).2 } = f w) : Keeps f (onStore g) := by
  rintro ⟨s, gd, h'⟩
  have hs := h ⟨s, gd, h'⟩
  simp only [onStore]
  rcases hg : g s with ⟨e | a, s'⟩ <;> simpa [hg] using hs

theorem seeStore_keeps (f : World H → γ) (g : Store → Except Error α) : Keeps f (seeStore g) := by
  intro w
  rw [seeStore]
  cases g w.store <;> rfl

theorem steady_guard : Steady fun w : World H => w.guard where
  host _ _ := rfl
  setGlobal _ _ := onStore_keeps fun _ => rfl
  memory _ _ := onStore_keeps fun _ => rfl

theorem steady_limit : Steady fun w : World H => w.store.limit where
  host _ _ := rfl
  setGlobal i r := by
    refine onStore_keeps fun w => ?_
    simp only [Store.setGlobal]
    split <;> rfl
  memory _ hg := onStore_keeps fun w => w.store.limit_onMemory hg

theorem enter_keeps {f : World H → γ} (hguard : ∀ w g, f { w with guard := g } = f w) :
    Keeps f (enter : Run (World H) Unit) := by
  intro w
  rw [enter]
  cases w.guard.enter with
  | error t => rfl
  | ok g => exact hguard w g

namespace Steady

variable {f : World H → γ} (hf : Steady f)
include hf

theorem storeValue (op : StoreOp) (arg : MemArg) (base value : Raw) :
    Keeps f (storeValue op arg base value) :=
  hf.memory _ fun m => m.byteLimit_apply (.store _ _)

theorem memoryGrow (delta : Raw) : Keeps f (memoryGrow delta) := by
  refine hf.memory _ fun m => ?_
  have h : (m.grow delta.low.toNat).2.byteLimit = m.byteLimit := m.byteLimit_apply (.grow _)
  rcases hgrow : m.grow delta.low.toNat with ⟨_ | n, m'⟩ <;> simpa [hgrow] using h

theorem memoryCopy (dst src len : Raw) : Keeps f (memoryCopy dst src len) :=
  hf.memory _ fun m => m.byteLimit_apply (.copy _ _ _)

theorem memoryFill (dst value len : Raw) : Keeps f (memoryFill dst value len) :=
  hf.memory _ fun m => m.byteLimit_apply (.fill _ _ _)

/-- What instructions do to the world keeps a steady reading. -/
theorem ample : Ample (Only (Keeps f)) where
  toClosed := Keeps.closed f
  see := seeStore_keeps f
  setGlobal := hf.setGlobal
  storeValue := hf.storeValue
  memoryGrow := hf.memoryGrow
  memoryCopy := hf.memoryCopy
  memoryFill := hf.memoryFill

theorem whole (hguard : ∀ w g, f { w with guard := g } = f w) : Whole (Only (Keeps f)) where
  toAmple := hf.ample
  returning _ hx w := (hguard _ _).trans (hx w)
  enter := enter_keeps hguard

end Steady

end World

/-! ### Programs -/

section Host

variable {f : World H → γ} (hf : World.Steady f)
include hf

theorem HostProg.run_keeps {reenter : String → List Value → Run (World H) (List Value)}
    (h : ∀ name args, Keeps f (reenter name args)) (p : HostProg H) : Keeps f (p.run reenter) := by
  induction p with
  | finish r => exact Keeps.ofExcept r
  | look next ih => exact fun w => ih w w
  | setHost h next ih => exact fun w => (ih { w with host := h }).trans (hf.host w h)
  | memory op next ih =>
    rw [run_memory]
    exact (hf.memory _ fun m => m.byteLimit_apply op).catching.bind ih
  | call name args next ih =>
    rw [run_call]
    exact (h name args).catching.bind ih

theorem Env.relates_keeps (env : Env H) : env.Relates (Only (Keeps f)) env :=
  env.relates_self fun p _ _ h => HostProg.run_keeps hf h p

end Host

/-- **Interpreted code keeps** steady readings that do not depend on the guard. -/
theorem Interpreter.invoke_keeps {f : World H → γ} (hguard : ∀ w g, f { w with guard := g } = f w)
    (hf : World.Steady f) (env : Env H) (bound func : Nat) (args : List Value) :
    Keeps f (invoke env bound func args) := by
  have hzero : Related (Only (Keeps f)) env env 0 0 :=
    ⟨fun _ _ => Keeps.halt _, fun _ => Keeps.halt _⟩
  exact (Related.of_zero (hf.whole hguard) (env.relates_keeps hf) hzero bound).invoke func args

namespace Activation

variable {f : World H → γ}

theorem onWorld_keeps {x : Run (World H) α} (hx : Keeps f x) : Keeps
    (fun a : Activation H => f a.world) (onWorld x) :=
  fun a => hx a.world

/-- Slots are read without a change to the state. -/
theorem get_only (i : Nat) : Keeps (fun a : Activation H => a) (get i) := by
  intro a
  rw [get]
  cases a.slots[i]? <;> rfl

theorem arguments_only (i : Nat) (ts : List ValType) : Keeps
    (fun a : Activation H => a) (arguments i ts) := by
  induction ts generalizing i with
  | nil => exact Keeps.pure _
  | cons t ts ih => exact (get_only i).bind fun _ => (ih (i + 1)).bind fun _ => Keeps.pure _

variable (f : World H → γ)

theorem get_keeps (i : Nat) : Keeps (fun a : Activation H => f a.world) (get i) :=
  fun a => congrArg (fun a => f a.world) (get_only i a)

theorem set_keeps (i : Nat) (r : Raw) : Keeps (fun a : Activation H => f a.world) (set i r) := by
  intro a
  rw [set]
  split <;> rfl

theorem keeps_ample :
    Activation.Ample (fun _ => True) (Only (Keeps f))
    (Only (Keeps fun a : Activation H => f a.world)) where
  toClosed := Keeps.closed _
  get _ := get_keeps f _
  set r _ := set_keeps f _ r
  move _ a := by
    rw [move]
    split
    · rfl
    · split <;> rfl
  world := onWorld_keeps

variable {f} in
theorem keeps_whole (hguard : ∀ w g, f { w with guard := g } = f w) :
    Activation.Whole (Only (Keeps f)) (Only (Keeps fun a : Activation H => f a.world)) where
  toAmple := keeps_ample f
  openFrame _ _ _ := rfl
  results _ _ _ := rfl
  leaving h := h.leaving fun a => hguard a.world _
  inside slots h w := h ⟨slots, w⟩

end Activation

/-- **Compiled code keeps** steady readings that do not depend on the guard. -/
theorem Compiled.invoke_keeps {f : World H → γ} (hguard : ∀ w g, f { w with guard := g } = f w)
    (hf : World.Steady f) (env : Env H) (c : Compiled) (bound func : Nat) (args : List Value) :
    Keeps f (invoke env c bound func args) := by
  have hzero : Related (Only (Keeps f)) (Only (Keeps fun a => f a.world)) env env c 0 0 :=
    ⟨fun _ _ => Keeps.halt _, fun _ _ => Keeps.halt _, fun _ _ => Keeps.halt _,
      fun _ _ => Keeps.halt _, fun _ _ => Keeps.halt _⟩
  exact (Related.of_zero (hf.whole hguard) (Activation.keeps_whole hguard) (env.relates_keeps hf)
    hzero bound).invoke func args

end WasmEngine
