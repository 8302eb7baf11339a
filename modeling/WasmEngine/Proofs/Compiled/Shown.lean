import WasmEngine.Proofs.Interpreter.Shown

/-!
# Views of worlds and compiled code

What compiled code does without calling anything is the same in every view of
the world: its slots are not part of the world, and of the world it reaches the
state alone.
-/

namespace WasmEngine

open Run

variable {G H α : Type} {v : World G → World H}

namespace Activation

/-- The state of compiled code with its world viewed. -/
def shown (v : World G → World H) (a : Activation G) : Activation H := ⟨a.slots, v a.world⟩

theorem onWorld_shows {x : Run (World G) α} {y : Run (World H) α} (h : Shows v x y) :
    Shows (shown v) (onWorld x) (onWorld y) := by
  rintro ⟨slots, w⟩
  simp only [onWorld, shown, h w]

theorem get_shows (i : Nat) : Shows (shown v) (get i) (get i) := by
  intro a
  simp only [get, shown]
  cases a.slots[i]? <;> rfl

theorem set_shows (i : Nat) (r : Raw) : Shows (shown v) (set i r) (set i r) := by
  intro a
  by_cases h : i < a.slots.size
  · simp [set, shown, h]
  · simp [set, shown, h]

theorem move_shows (src dst len : Nat) : Shows (shown v) (move src dst len) (move src dst len) := by
  intro a
  by_cases hnone : len = 0 ∨ src = dst
  · simp [move, shown, hnone]
  · by_cases hin : src + len ≤ a.slots.size ∧ dst + len ≤ a.slots.size
    · simp [move, shown, hnone, hin]
    · simp [move, shown, hnone, hin]

theorem openFrame_shows (f : CompiledFunc) (fp : Nat) :
    Shows (shown v) (openFrame f fp) (openFrame f fp) := fun _ => rfl

/-- What is done to slots is the same in every view. -/
theorem ample_shows : Activation.Ample (fun _ => True) (Shows v) (Shows (shown v)) where
  toClosed := Shows.closed _
  get _ := get_shows _
  set r _ := set_shows _ r
  move _ := move_shows _ _ _
  world := onWorld_shows

end Activation

end WasmEngine
