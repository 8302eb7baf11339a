import WasmEngine.Proofs.Related

/-!
# Compiled code and its bound

Compiled code is run in parts, each of which gets what is left of the bound. A
greater bound never changes what comes out, for whole functions as for single
operations (`WasmEngine.Compiled.chain_runSeq` and its siblings).
-/

namespace WasmEngine

open Run

variable {H : Type}

namespace Activation

theorem onWorld_eq_iff {α : Type} {x : Run (World H) α} {a a' : Activation H} {r : Except Halt α} :
    onWorld x a = (r, a') ↔ x a.world = (r, a'.world) ∧ a'.slots = a.slots := by
  obtain ⟨slots, w⟩ := a
  obtain ⟨slots', w'⟩ := a'
  rcases h : x w with ⟨r', w''⟩
  simp only [onWorld, h, Prod.mk.injEq, Activation.mk.injEq, eq_comm (a := slots)]
  rw [and_assoc, and_comm (a := w'' = w')]

theorem onWorld_below {α : Type} {x y : Run (World H) α} (h : Below x y) :
    Below (onWorld x : Run (Activation H) α) (onWorld y) := by
  rintro ⟨slots, w⟩ hw
  simp only [onWorld, h w hw]

theorem whole_below : Activation.Whole (Below (σ := World H)) (Below (σ := Activation H)) where
  toClosed := Below.closed
  get _ := .refl _
  set _ _ := .refl _
  move _ := .refl _
  world := onWorld_below
  openFrame _ _ := .refl _
  results _ _ := .refl _
  leaving h := h.leaving _
  inside slots h w hw := congrArg (Prod.map id Activation.world) (h ⟨slots, w⟩ hw)

end Activation

namespace Compiled

open Activation

variable (env : Env H) (c : Compiled)

/-- The members of all five families at a bound are below those at the next. -/
theorem rises (n : Nat) : Related Below Below env env c n (n + 1) :=
  .of_zero World.whole_below whole_below env.relates_below
    ⟨fun _ _ => below_of_exhausted _, fun _ _ => below_of_exhausted _,
      fun _ _ => below_of_exhausted _, fun _ _ => below_of_exhausted _,
      fun _ _ => below_of_exhausted _⟩ n

theorem chain_invoke (func : Nat) (args : List Value) : Chain fun n => invoke env c n func args :=
  fun n => (rises env c n).invoke func args

theorem chain_runSeq (fp : Nat) (ops : List Code) : Chain fun n => runSeq env c n fp ops :=
  fun n => (rises env c n).runSeq fp ops

end Compiled

end WasmEngine
