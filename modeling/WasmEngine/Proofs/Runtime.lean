import WasmEngine.Instance
import WasmEngine.Proofs.Compiled.Code
import WasmEngine.Proofs.Interpreter.Simulation
import WasmEngine.Proofs.Module.Decode

/-!
# Both strategies mean the same

A valid module can be prepared for every strategy
(`WasmEngine.Runtime.exists_prepare`), and what a prepared module does when a
function is called is what the reference semantics does
(`WasmEngine.Runtime.invoke_tracks`). So two strategies settle on the same
results and the same worlds, or go on forever both
(`WasmEngine.Runtime.settles_iff`).
-/

namespace WasmEngine.Runtime

open Run

variable {H : Type} {env : Env H} {bodies : Nat → Nested} {r r' : Runtime} {s s' : Strategy}
  {func : Nat} {t : FuncType} {args : List Value}

/-- A valid module can be prepared. -/
theorem exists_prepare {m : Module} (hm : m.Valid) (s : Strategy) : ∃ r, prepare s m = .ok r := by
  cases s with
  | interpreter => exact ⟨.interpreter, rfl⟩
  | compiled =>
    obtain ⟨scope, sources, hchecked⟩ := hm.checked
    obtain ⟨c, hc, -⟩ := Compiled.exists_compile hchecked.bodies hm.imports
    exact ⟨.compiled c, by rw [prepare, hc]; rfl⟩

theorem chain_invoke (r : Runtime) (env : Env H) (func : Nat) (args : List Value) :
    Chain fun n => r.invoke env n func args := by
  cases r with
  | interpreter => exact Interpreter.chain_invoke env func args
  | compiled c => exact Compiled.chain_invoke env c func args

/-- What a module with typed bodies is prepared as. -/
def Renders (m : Module) (bodies : Nat → Nested) : Runtime → Prop
  | .interpreter => True
  | .compiled c => Compiled.Renders m bodies c

theorem renders_of_prepare {m : Module} (hb : m.Bodies bodies)
    (himports : ∀ i ∈ m.importedTypes, i < m.types.size) (hr : prepare s m = .ok r) :
    r.Renders m bodies := by
  cases s with
  | interpreter =>
    obtain rfl := Except.ok.inj hr
    trivial
  | compiled =>
    obtain ⟨c, hc, hrenders⟩ := Compiled.exists_compile hb himports
    rw [prepare, hc] at hr
    exact Except.ok.inj hr ▸ hrenders

/-- **What a prepared module does is what the reference semantics does.** -/
theorem invoke_tracks (hb : env.mod.Bodies bodies) (hlinked : env.Linked)
    (hr : r.Renders env.mod bodies) (ht : env.mod.funcType? func = some t)
    (hargs : args.map Value.type = t.params) (n : Nat) :
    Tracks (fun k => r.invoke env k func args) n (Structured.invoke env bodies n func args) := by
  cases r with
  | interpreter => exact (Interpreter.simulates hlinked hb n).invoke ht hargs
  | compiled c => exact (Compiled.simulates hlinked hb hr n).invoke ht hargs

/-- **What holds of all runs of typed code holds of a prepared module.** -/
theorem invoke_meets {V : ValType → Raw → Prop} {P : Store → Prop} {E : Error → Prop}
    (hc : Contract env V P E) (hb : env.mod.Bodies bodies) (hlinked : env.Linked)
    (hr : r.Renders env.mod bodies) (ht : env.mod.funcType? func = some t)
    (hargs : args.map Value.type = t.params) (n : Nat) :
    Meets (fun w : World H => P w.store) E (fun rs => rs.map Value.type = t.results)
      (r.invoke env n func args) := by
  intro w hw
  by_cases hs : Settled (r.invoke env n func args w)
  · -- what the module settles on, the reference semantics settles on, and that is typed
    rw [← (invoke_tracks hb hlinked hr ht hargs n).upper w hs]
    exact (Structured.back_run hc hb n).invoke ht hargs w hw
  · rcases settled_cases (r.invoke env n func args w) with ⟨a, w', h⟩ | ⟨e, w', h, he⟩ | ⟨w', h⟩
    · exact absurd (by simp [h]) hs
    · exact absurd (by simp [h, he]) hs
    · rw [h]
      trivial

/-- **Two strategies settle on the same.** -/
theorem settles_iff (hm : env.mod.Valid) (hlinked : env.Linked) (hr : prepare s env.mod = .ok r)
    (hr' : prepare s' env.mod = .ok r') (ht : env.mod.funcType? func = some t)
    (hargs : args.map Value.type = t.params) (w : World H)
    (x : Except Halt (List Value) × World H) :
    Settles (fun n => r.invoke env n func args) w x ↔
    Settles (fun n => r'.invoke env n func args) w x := by
  obtain ⟨scope, sources, hchecked⟩ := hm.checked
  have hb := hchecked.bodies
  rw [settles_iff_of_tracks
    (invoke_tracks hb hlinked (renders_of_prepare hb hm.imports hr) ht hargs),
    settles_iff_of_tracks (invoke_tracks hb hlinked
      (renders_of_prepare hb hm.imports hr') ht hargs)]

end WasmEngine.Runtime
