import WasmEngine.Instance

/-!
# Operations on instances as data

Everything that is done to an instance from outside, and what comes back. An
**occasion** is an operation with the context of the host that it is done in and
the bound that its run gets, and a **history** is a list of occasions:
an instance goes through them one by one (`WasmEngine.Instance.through`) and
answers each (`WasmEngine.Instance.answers`).
-/

namespace WasmEngine.Instance

variable {H : Type}

/-- An operation on an instance. -/
inductive Operation (H : Type)
  /-- Give it an empty memory. -/
  | setMemory (byteLimit : Nat)
  /-- Offer functions to it. -/
  | setRegistry (r : Registry H)
  /-- Set it up. -/
  | setUp (options : Option Options)
  /-- Call an export for all of its results. -/
  | invoke (name : String) (args : List Value)
  /-- Call an export for its effects. -/
  | call (space name : String) (args : List Value)
  /-- Call an export that has at most one result. -/
  | callForValue (space name : String) (args : List Value)
  /-- Call an export for results of given types. -/
  | callTyped (name : String) (args : List Value) (results : List ValType)
  /-- Operate on its memory. -/
  | memory (op : Memory.Op)

/-- What an operation answers. -/
inductive Answer
  /-- Nothing. -/
  | done
  /-- Results. -/
  | values (vs : List Value)
  /-- A result, if there is one. -/
  | value (v : Option Value)
  /-- The answer of the memory. -/
  | reply (r : Memory.Reply)

/-- Does an operation. -/
def Operation.act (bound : Nat) : Operation H → Act H Answer
  | .setMemory byteLimit => fun (i, h) => (.ok .done, i.setMemory byteLimit, h)
  | .setRegistry r => fun (i, h) => (.ok .done, i.setRegistry r, h)
  | .setUp options => do
    Instance.setUp bound options
    return .done
  | .invoke name args => do return .values (← Instance.invoke bound name args)
  | .call space name args => do
    Instance.call bound space name args
    return .done
  | .callForValue space name args =>
    do return .value (← Instance.callForValue bound space name args)
  | .callTyped name args results => do return .values (← Instance.callTyped bound name args results)
  | .memory op => fun (i, h) =>
    match i.onMemory op with
    | (.ok r, i) => (.ok (.reply r), i, h)
    | (.error e, i) => (.error (.error e), i, h)

/-- An operation with the context of the host and the bound of the run. -/
structure Occasion (H : Type) where
  /-- The context of the host. -/
  host : H
  /-- The bound of the run. -/
  bound : Nat
  /-- What is done. -/
  operation : Operation H

/-- What comes of an occasion. -/
def Occasion.outcome (o : Occasion H) (i : Instance H) : Except Halt Answer × Instance H × H :=
  o.operation.act o.bound (i, o.host)

/-- An instance that was just made. -/
def fresh (mod : Module) (strategy : Strategy) (policy : FloatPolicy)
    (options : Options) : Instance H :=
  { mod, strategy, policy, options }

/-- The instance after a history. -/
def through (i : Instance H) : List (Occasion H) → Instance H
  | [] => i
  | o :: os => through (o.outcome i).2.1 os

/-- The answers that the instance gives in the course of a history, with the
contexts that it leaves. -/
def answers (i : Instance H) : List (Occasion H) → List (Except Halt Answer × H)
  | [] => []
  | o :: os => ((o.outcome i).1, (o.outcome i).2.2) :: answers (o.outcome i).2.1 os

end WasmEngine.Instance
