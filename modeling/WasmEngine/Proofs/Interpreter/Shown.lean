import WasmEngine.Proofs.Related

/-!
# Views of worlds

A host may keep more in its context than another one that does the same. Seen
through a map of contexts, a run in the larger context is then a run in the
smaller one: it **shows** the other (`WasmEngine.Run.Shows`), with the same
outcome, at every bound. Host functions that show others can take their place,
and interpreted code cannot tell (`WasmEngine.Interpreter.invoke_shows`).
-/

namespace WasmEngine

variable {σ τ α β : Type}

namespace Run

/-- **A run shows another one** through a map of states: it ends the same way,
in a state that is mapped to that of the other. -/
def Shows (f : σ → τ) (x : Run σ α) (y : Run τ α) : Prop := ∀ s, y (f s) = ((x s).1, f (x s).2)

namespace Shows

variable {f : σ → τ}

variable {x : Run σ α} {y : Run τ α}

theorem pure (a : α) : Shows f (Pure.pure a) (Pure.pure a) := fun _ => rfl

theorem halt (h : Halt) : Shows f (Run.halt h : Run σ α) (Run.halt h) := fun _ => rfl

theorem bind {g : α → Run σ β} {k : α → Run τ β} (hx : Shows f x y)
    (hg : ∀ a, Shows f (g a) (k a)) : Shows f (x >>= g) (y >>= k) := by
  intro s
  rw [bind_apply, bind_apply, hx s]
  obtain ⟨e | a, s'⟩ := x s
  · rfl
  · exact hg a s'

theorem catching (hx : Shows f x y) : Shows f x.catching y.catching := by
  intro s
  simp only [Run.catching, hx s]
  obtain ⟨(e | _ | _) | a, s'⟩ := x s <;> rfl

theorem closed (f : σ → τ) : Closed (Shows f) where
  pure := pure
  fail _ := halt _
  bind := bind

end Shows

end Run

open Run

variable {G H : Type}

/-! ### Worlds -/

namespace World

/-- **A view of worlds**: the state is seen as it is, and units of call depth
that are returned are seen to be returned. -/
structure View (v : World G → World H) : Prop where
  /-- The state is the same. -/
  store : ∀ w, (v w).store = w.store
  /-- A change of the state is seen. -/
  put : ∀ w s, v { w with store := s } = { v w with store := s }
  /-- So are units that are returned. -/
  exits : ∀ w n, v (w.exits n) = (v w).exits n

/-- A world with another context of the host. -/
def shown (φ : G → H) (w : World G) : World H := ⟨w.store, w.guard, φ w.host⟩

theorem view_shown (φ : G → H) : View (shown φ) where
  store _ := rfl
  put _ _ := rfl
  exits _ _ := rfl

theorem enter_shows (φ : G → H) : Shows (shown φ) (enter : Run (World G) Unit) enter := by
  intro w
  simp only [enter, shown]
  cases w.guard.enter <;> rfl

variable {v : World G → World H} (hv : View v)
include hv

theorem seeStore_shows (g : Store → Except Error α) : Shows v (seeStore g) (seeStore g) := by
  intro w
  simp only [seeStore, hv.store]
  cases g w.store <;> rfl

theorem onStore_shows (g : Store → Except Error α × Store) : Shows v (onStore g) (onStore g) := by
  rintro ⟨s, gd, h⟩
  have hput := hv.put ⟨s, gd, h⟩
  have hstore := hv.store ⟨s, gd, h⟩
  generalize v ⟨s, gd, h⟩ = w at hput hstore ⊢
  obtain ⟨s', gd', h'⟩ := w
  obtain rfl : s' = s := hstore
  simp only [onStore]
  rcases g s' with ⟨e | a, s''⟩
  · exact Prod.ext rfl (hput s'').symm
  · exact Prod.ext rfl (hput s'').symm

theorem onMemory_shows (g : Memory → Except Error α × Memory) : Shows v (onMemory g) (onMemory g) :=
  onStore_shows hv _

/-- What is done to the world shows itself in every view, apart from what starts
a call. -/
theorem View.full : Full (Shows v) where
  toClosed := Shows.closed v
  see := seeStore_shows hv
  setGlobal _ _ := onStore_shows hv _
  storeValue _ _ _ _ := onMemory_shows hv _
  memoryGrow _ := onMemory_shows hv _
  memoryCopy _ _ _ := onMemory_shows hv _
  memoryFill _ _ _ := onMemory_shows hv _
  returning n hx w := by
    simp only [returning, hx w, hv.exits]

theorem View.whole (henter : Shows v enter enter) : Whole (Shows v) where
  toFull := hv.full
  enter := henter

end World

/-- **Interpreted code shows itself**, run with host functions that show others. -/
theorem Interpreter.invoke_shows {v : World G → World H} (hv : World.View v)
    (henter : Shows v World.enter World.enter) {env : Env G} {env' : Env H}
    (henv : env.Relates (Shows v) env') (bound func : Nat) (args : List Value) :
    Shows v (invoke env bound func args) (invoke env' bound func args) := by
  have hzero : Related (Shows v) env env' 0 0 := ⟨fun _ _ => Shows.halt _, fun _ => Shows.halt _⟩
  exact (Related.of_zero (hv.whole henter) henv hzero bound).invoke func args

end WasmEngine
