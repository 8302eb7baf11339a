import WasmEngine.Host
import WasmEngine.Numeric.Eval

/-!
# Environments

What stays fixed while a program runs: its module, the float policy and the host
functions behind its imports. The two ways between program and host are here:
`Env.callHost` calls a host function, and `Env.callExport` calls an export on
behalf of one. How a function of the module is run is a parameter of both.
-/

namespace WasmEngine

/-- What a program is run with: its module, the float policy and the host
functions behind its imports. -/
structure Env (H : Type) where
  /-- The module. -/
  mod : Module
  /-- How floats are computed. -/
  policy : FloatPolicy
  /-- The host functions of the imports, in order. -/
  hosts : Array (HostFunction H)

namespace Env

variable {H : Type} (env : Env H)

/-- The number of imported functions, which come first in the numbering. -/
def imported : Nat := env.mod.importedCount

/-- The body and the type of a function that the module defines. -/
def defined? (func : Nat) : Option (Func × FuncType) := do
  if func < env.imported then none
  let f ← env.mod.funcs[func - env.imported]?
  let t ← env.mod.types[f.type]?
  return (f, t)

/-- Calls the host function of an import. It holds a unit of call depth while it
runs, and its results are checked against its type. -/
def callHost (reenter : String → List Value → Run (World H) (List Value)) (func : Nat)
    (args : List Value) : Run (World H) (List Value) := do
  let f ← Run.need (.hostNotLinked func) env.hosts[func]?
  let results ← World.guarded ((f.run args).run reenter)
  if results.map Value.type = f.type.results then return results
  else Run.fault (.hostResults func results f.type.results)

/-- Calls an export on behalf of a host function. -/
def callExport (invoke : Nat → List Value → Run (World H) (List Value)) (name : String)
    (args : List Value) : Run (World H) (List Value) := do
  match env.mod.exportedFunc? name with
  | none => Run.fail (.functionNotFound "env" name)
  | some func =>
    let t ← Run.need (.funcWithoutType func) (env.mod.funcType? func)
    Run.ofExcept (t.checkArguments args)
    invoke func args

end Env

end WasmEngine
