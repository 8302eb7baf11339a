import WasmEngine.Compiled
import WasmEngine.Interpreter

/-!
# Instances

An instance binds a module to a way of executing it and a float policy. Before
it can be called it is given a memory and the host functions it imports, and is
then **set up**: its imports are linked, its code is prepared, its state is
built and its start function runs. It can be set up again at any time, and then
starts over.

An instance that is not ready refuses every call. Errors leave no call active:
the guard is reset after them. The context of the host is handed in with every
operation and comes back with its outcome.
-/

namespace WasmEngine

/-- How functions are executed. -/
inductive Strategy
  /-- By stepping through flat code. -/
  | interpreter
  /-- By compiling all functions beforehand. -/
  | compiled
  deriving DecidableEq

/-- The name of a strategy. -/
def Strategy.name : Strategy → String
  | .interpreter => "interpreter"
  | .compiled => "jit"

/-- A module prepared for a strategy. -/
inductive Runtime
  /-- Flat code is executed as it is. -/
  | interpreter
  /-- The compiled module. -/
  | compiled (c : Compiled)

namespace Runtime

/-- Prepares a module. -/
def prepare (s : Strategy) (m : Module) : Except Halt Runtime :=
  match s with
  | .interpreter => .ok .interpreter
  | .compiled => (Compiled.compile m).map .compiled

/-- Calls a function of the module with arguments of the right types. -/
def invoke {H : Type} (r : Runtime) (env : Env H) (bound func : Nat) (args : List Value) :
    Run (World H) (List Value) :=
  match r with
  | .interpreter => Interpreter.invoke env bound func args
  | .compiled c => Compiled.invoke env c bound func args

end Runtime

/-- A module with all it needs to run. -/
structure Instance (H : Type) where
  /-- The module. -/
  mod : Module
  /-- How it is executed. -/
  strategy : Strategy
  /-- How floats are computed. -/
  policy : FloatPolicy
  /-- The limits in effect. -/
  options : Options
  /-- The functions that the host offers. -/
  registry : Registry H := {}
  /-- The functions behind the imports, once they are linked. -/
  hosts : Array (HostFunction H) := #[]
  /-- The prepared module, once there is one. -/
  runtime : Option Runtime := none
  /-- The state. -/
  store : Store := {}
  /-- The active calls. -/
  guard : Guard := .new options.maxCallDepth
  /-- Whether it can be called. -/
  ready : Bool := false

namespace Instance

variable {H : Type}

/-- Something done to an instance in the context of a host. -/
abbrev Act (H α : Type) := Run (Instance H × H) α

/-- Gives the instance an empty memory with a byte limit. -/
def setMemory (i : Instance H) (byteLimit : Nat) : Instance H :=
  { i with store := { i.store with memory := some (Memory.empty byteLimit) }, ready := false }

/-- Offers functions to the instance, in place of all it was offered before. -/
def setRegistry (i : Instance H) (r : Registry H) : Instance H :=
  { i with registry := r, hosts := #[], ready := false }

/-- Calls a function of the module. -/
def run (bound func : Nat) (args : List Value) : Act H (List Value) := fun (i, h) =>
  match i.runtime with
  | none => (.error (.error .notInitialized), i, h)
  | some runtime =>
    let env : Env H := ⟨i.mod, i.policy, i.hosts⟩
    let w : World H := ⟨i.store, i.guard, h⟩
    let i := { i with store := {} }
    match runtime.invoke env bound func args w with
    | (.ok vs, w) => (.ok vs, { i with store := w.store, guard := w.guard }, w.host)
    | (.error e, w) =>
      (.error e, { i with store := w.store, guard := w.guard.reset i.options.maxCallDepth }, w.host)

/-! ### Setting up -/

/-- Puts valid options into effect, with no call active. -/
def applyOptions (options : Option Options) : Act H Unit := fun (i, h) =>
  let i := { i with ready := false }
  match (options.getD i.options).validate with
  | .ok o => (.ok (), { i with options := o, guard := i.guard.reset o.maxCallDepth }, h)
  | .error e => (.error (.error e), i, h)

/-- Links the imports. -/
def link : Act H Unit := fun (i, h) =>
  match i.store.memory with
  | none => (.error (.error .allocatorNotSet), i, h)
  | some _ =>
    match i.registry.resolve i.mod with
    | .ok fs => (.ok (), { i with hosts := fs.toArray }, h)
    | .error e => (.error (.error e), i, h)

/-- Prepares the module, unless this has been done. -/
def prepare : Act H Unit := fun (i, h) =>
  match i.runtime with
  | some _ => (.ok (), i, h)
  | none =>
    match Runtime.prepare i.strategy i.mod with
    | .ok r => (.ok (), { i with runtime := some r }, h)
    | .error e => (.error e, i, h)

/-- Builds the state that the module declares. -/
def instantiate : Act H Unit := fun (i, h) =>
  match i.store.instantiate i.mod i.options with
  | (.ok (), s) => (.ok (), { i with store := s, ready := true }, h)
  | (.error e, s) => (.error (.error e), { i with store := s }, h)

/-- Runs the start function; if it fails, the instance is not ready. -/
def start (bound : Nat) : Act H Unit := fun (i, h) =>
  match i.mod.start with
  | none => (.ok (), i, h)
  | some func =>
    match run bound func [] (i, h) with
    | (.ok _, s) => (.ok (), s)
    | (.error e, i, h) => (.error e, { i with ready := false }, h)

/-- Sets up the instance: options, linking, preparation, state and start
function, in this order. -/
def setUp (bound : Nat) (options : Option Options) : Act H Unit := do
  applyOptions options
  link
  prepare
  instantiate
  start bound

/-! ### Calls -/

/-- The exported function of a name and the number of its results, if it takes
these arguments. -/
def lookup (i : Instance H) (space name : String) (args : List Value) :
    Except Error (Nat × Nat) := do
  if !i.ready then throw .notInitialized
  match i.mod.exportedFunc? name with
  | none => throw (.functionNotFound space name)
  | some func =>
    match i.mod.funcType? func with
    | none => throw (.fault (.funcWithoutType func))
    | some t =>
      t.checkArguments args
      return (func, t.results.length)

/-- Calls an export for all of its results. -/
def invoke (bound : Nat) (name : String) (args : List Value) : Act H (List Value) := fun (i, h) =>
  match i.lookup "env" name args with
  | .ok (func, _) => run bound func args (i, h)
  | .error e => (.error (.error e), i, h)

/-- Calls an export for its effects. -/
def call (bound : Nat) (space name : String) (args : List Value) : Act H Unit := fun (i, h) =>
  match i.lookup space name args with
  | .ok (func, _) =>
    match run bound func args (i, h) with
    | (.ok _, s) => (.ok (), s)
    | (.error e, s) => (.error e, s)
  | .error e => (.error (.error e), i, h)

/-- Calls an export that has at most one result. -/
def callForValue (bound : Nat) (space name : String) (args : List Value) :
    Act H (Option Value) := fun (i, h) =>
  match i.lookup space name args with
  | .ok (func, results) =>
    if 1 < results then (.error (.error (.unsupported (.manyResults name results))), i, h)
    else
      match run bound func args (i, h) with
      | (.ok vs, s) => (.ok vs.head?, s)
      | (.error e, s) => (.error e, s)
  | .error e => (.error (.error e), i, h)

/-- Calls an export for results of given types. -/
def callTyped (bound : Nat) (name : String) (args : List Value) (results : List ValType) :
    Act H (List Value) := do
  let vs ← invoke bound name args
  Run.ofExcept (expectResults results vs)

/-! ### Looking at an instance -/

/-- Runs an operation on the memory. -/
def onMemory (i : Instance H) (op : Memory.Op) : Except Error Memory.Reply × Instance H :=
  match i.store.onMemory fun m => m.apply op with
  | (r, s) => (r, { i with store := s })

/-- The number of pages. -/
def pages (i : Instance H) : Except Error Nat := i.store.seeMemory fun m => .ok m.pages

/-- The diagnostic form. -/
def debug (i : Instance H) : String :=
  Text.openRecord "Backend"
    [("strategy", Text.quoted i.strategy.name), ("float_policy", Text.quoted i.policy.name),
      ("options", i.options.debug), ("imports", i.registry.debug), ("guard", i.guard.debug),
      ("initialized", toString i.ready)]

end Instance

end WasmEngine
