import WasmEngine.World

/-!
# Host functions

A host function takes arguments and runs a **host program**: a tree of the
things host code can do, each followed by a continuation for the answer. It can
look at the world, replace the host's context, operate on the memory and call
back into the exports of the instance. What the engine does with a host program
is `HostProg.run`; the calls back are a parameter there.

A **registry** holds the functions that a host offers, by module and name.
`Registry.resolve` matches the imports of a module against it.
-/

namespace WasmEngine

/-- What host code does. -/
inductive HostProg (H : Type)
  /-- Returns values or an error. -/
  | finish (r : Except Error (List Value))
  /-- Looks at the world. -/
  | look (next : World H → HostProg H)
  /-- Replaces the host's context. -/
  | setHost (h : H) (next : HostProg H)
  /-- Operates on the memory. -/
  | memory (op : Memory.Op) (next : Except Error Memory.Reply → HostProg H)
  /-- Calls an export. -/
  | call (name : String) (args : List Value) (next : Except Error (List Value) → HostProg H)

/-- Runs host code; `reenter` calls an export. -/
def HostProg.run {H : Type} (reenter : String → List Value → Run (World H) (List Value)) :
    HostProg H → Run (World H) (List Value)
  | .finish r => .ofExcept r
  | .look next => fun w => run reenter (next w) w
  | .setHost h next => fun w => run reenter next { w with host := h }
  | .memory op next => fun w =>
    match Run.catching (World.onMemory fun m => m.apply op) w with
    | (.ok r, w) => run reenter (next r) w
    | (.error h, w) => (.error h, w)
  | .call name args next => fun w =>
    match Run.catching (reenter name args) w with
    | (.ok r, w) => run reenter (next r) w
    | (.error h, w) => (.error h, w)

/-- A function that a host offers. -/
structure HostFunction (H : Type) where
  /-- Its type. -/
  type : FuncType
  /-- What it does with arguments. -/
  run : List Value → HostProg H

/-- The diagnostic form. -/
def HostFunction.debug {H : Type} (f : HostFunction H) : String :=
  Text.record "HostFunction" [("ty", f.type.debug), ("func", Text.quoted "...")]

/-! ### Arguments and results -/

namespace FuncType

/-- The first argument that is not of the type it should be, with its position. -/
def mismatch? (i : Nat) : List Value → List ValType → Option (Nat × Value × ValType)
  | v :: vs, t :: ts => if v.type = t then mismatch? (i + 1) vs ts else some (i, v, t)
  | _, _ => none

/-- Checks the arguments of a call. -/
def checkArguments (t : FuncType) (args : List Value) : Except Error Unit :=
  if t.params.length ≠ args.length then .error (.arguments (.count t.params.length args.length))
  else
    match mismatch? 0 args t.params with
    | some (i, v, expected) => .error (.arguments (.mismatch i v expected))
    | none => .ok ()

end FuncType

/-- Values as results of given types: as many, each of its type; types are named
by their position from one. -/
def expectResults (types : List ValType) (values : List Value) : Except Error (List Value) :=
  if values.length ≠ types.length then .error (.arguments (.resultCount types.length values.length))
  else
    match FuncType.mismatch? 1 values types with
    | some (i, _, _) => .error (.arguments (.resultType i))
    | none => .ok values

/-! ### Registries -/

/-- The functions that a host offers, sorted by module and name. -/
structure Registry (H : Type) where
  /-- The definitions, each name once. -/
  entries : List ((String × String) × HostFunction H) := []

namespace Registry

variable {H : Type}

/-- Whether one pair of names comes before another. -/
def before (a b : String × String) : Bool := a.1 < b.1 || (a.1 == b.1 && a.2 < b.2)

/-- Puts a definition in its place; it replaces an earlier one of the same name. -/
def insert (key : String × String) (f : HostFunction H) :
    List ((String × String) × HostFunction H) → List ((String × String) × HostFunction H)
  | [] => [(key, f)]
  | e :: es =>
    if before key e.1 then (key, f) :: e :: es
    else if key == e.1 then (key, f) :: es
    else e :: insert key f es

/-- Defines a function. -/
def define (r : Registry H) (moduleName name : String) (f : HostFunction H) : Registry H :=
  ⟨insert (moduleName, name) f r.entries⟩

/-- The function of a name. -/
def get? (r : Registry H) (moduleName name : String) : Option (HostFunction H) :=
  r.entries.lookup (moduleName, name)

/-- The function for an import of a module with given types. -/
def resolveImport (r : Registry H) (types : Array FuncType) (i : Import) :
    Except Error (HostFunction H) :=
  match r.get? i.moduleName i.name with
  | none => .error (.link (.unknownImport i.moduleName i.name))
  | some f =>
    match i.kind with
    | .func t =>
      if types[t]? = some f.type then .ok f
      else .error (.link (.incompatibleType i.moduleName i.name))
    | _ => .error (.link (.incompatibleType i.moduleName i.name))

/-- The functions for all imports of a module, in order. -/
def resolve (r : Registry H) (m : Module) : Except Error (List (HostFunction H)) :=
  m.imports.mapM (r.resolveImport m.types)

/-- The diagnostic form. -/
def debug (r : Registry H) : String :=
  Text.braced (r.entries.map fun e => (Text.quoted (e.1.1 ++ "." ++ e.1.2), e.2.debug))

end Registry

end WasmEngine
