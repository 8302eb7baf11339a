import WasmEngine.Interpreter.Step

/-!
# The interpreter

Iterates the step of the machine until the entry frame returns. Every frame, the
current one included, holds a unit of call depth, and a run that halts returns
all of them.

Runs are bounded: each step takes one from the bound, and a call that a host
function makes gets what is left.
-/

namespace WasmEngine.Interpreter

variable {H : Type}

mutual

/-- Calls a function of the module with arguments of the right types. -/
def invoke (env : Env H) : (bound func : Nat) → (args : List Value) → Run (World H) (List Value)
  | 0, _, _ => Run.halt .exhausted
  | n + 1, func, args =>
    if func < env.imported then env.callHost (env.callExport (invoke env n)) func args
    else do
      let t ← Run.need (.funcNotFound func) (env.mod.funcType? func)
      let (f, t') ← Run.need (.funcNotFound func) (env.defined? func)
      World.enter
      let values ← run env n (Machine.start f t' args)
      if values.length = t.results.length then return List.zipWith Value.ofRaw t.results values
      else Run.fault (.resultCount t.results.length values.length)

/-- Runs a machine to its end. -/
def run (env : Env H) : (bound : Nat) → Machine → Run (World H) (List Raw)
  | 0, _ => Run.halt .exhausted
  | n + 1, m => fun w =>
    match m.step env (invoke env n) w with
    | (.ok (.running m), w) => run env n m w
    | (.ok (.finished values), w) => (.ok values, w)
    | (.error h, w) => (.error h, w.exits (m.callers.length + 1))

end

end WasmEngine.Interpreter
