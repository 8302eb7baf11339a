import WasmEngine.Error.Named
import WasmEngine.Host

/-!
# Scripted host functions

Host functions for trying out instances: their context is a log, and what they
do is a list of actions. A few functions that compute something are built in.
-/

namespace WasmEngine.Script

/-- The lines that host functions have logged. -/
abbrev Log := Array String

/-- A value that an action works with. -/
inductive Operand
  /-- A value. -/
  | value (v : Value)
  /-- An argument of the function. -/
  | arg (i : Nat)
  /-- A result of the last call that was made. -/
  | last (i : Nat)

/-- What a function does. -/
inductive Action
  /-- Logs the arguments. -/
  | args
  /-- Logs the call depth. -/
  | depth
  /-- Logs the number of pages. -/
  | pages
  /-- Logs the world. -/
  | debug
  /-- Calls an export; its error is returned. -/
  | call (name : String) (args : List Operand)
  /-- Calls an export; its error is logged. -/
  | tryCall (name : String) (args : List Operand)
  /-- Logs bytes of the memory. -/
  | load (addr len : Operand)
  /-- Writes bytes to the memory. -/
  | store (addr : Operand) (bytes : List UInt8)
  /-- Grows the memory and logs how. -/
  | grow (delta : Operand)
  /-- Returns an error. -/
  | fail (e : Error)
  /-- Returns values. -/
  | ret (values : List Operand)

/-- The operand of a written form: a value, `arg:i` or `last:i`. -/
def Operand.ofText? (s : String) : Option Operand :=
  match s.splitOn ":" with
  | ["arg", i] => i.toNat?.map .arg
  | ["last", i] => i.toNat?.map .last
  | _ => (Value.ofText? s).map .value

/-- The value of an operand, given the arguments and the results of the last
call. -/
def Operand.get (args last : List Value) : Operand → Except Error Value
  | .value v => .ok v
  | .arg i =>
    match args[i]? with
    | some v => .ok v
    | none => .error (.fault (.text "argument not found"))
  | .last i =>
    match last[i]? with
    | some v => .ok v
    | none => .error (.fault (.text "result not found"))

/-- A host program that goes on with a value, or ends with an error. -/
def attempt {α : Type} (x : Except Error α) (next : α → HostProg Log) : HostProg Log :=
  match x with
  | .ok a => next a
  | .error e => .finish (.error e)

/-- Logs a line. -/
def log (line : String) (next : HostProg Log) : HostProg Log :=
  .look fun w => .setHost (w.host.push line) next

/-- Logs a line that is read off the world. -/
def logWorld (line : World Log → Except Error String) (next : HostProg Log) : HostProg Log :=
  .look fun w => attempt (line w) fun s => .setHost (w.host.push s) next

/-- The host program of a list of actions. -/
def program (args : List Value) : (last : List Value) → List Action → HostProg Log
  | _, [] => .finish (.ok [])
  | last, a :: rest =>
    let bits (o : Operand) : Except Error Nat := (o.get args last).map fun v => v.toRaw.toNat
    match a with
    | .args => log ("args " ++ Value.texts args) (program args last rest)
    | .depth =>
      logWorld (fun w => .ok ("depth " ++ toString w.guard.depth)) (program args last rest)
    | .pages =>
      logWorld (fun w => w.store.seeMemory fun m => .ok ("pages " ++ toString m.pages))
        (program args last rest)
    | .debug => logWorld (fun w => .ok w.debug) (program args last rest)
    | .call name ops =>
      attempt (ops.mapM (Operand.get args last)) fun vs =>
        .call name vs fun r =>
          attempt r fun results => log ("call " ++ Value.texts results) (program args results rest)
    | .tryCall name ops =>
      attempt (ops.mapM (Operand.get args last)) fun vs =>
        .call name vs fun r =>
          match r with
          | .ok results => log ("call " ++ Value.texts results) (program args results rest)
          | .error e => log ("failed " ++ e.kind ++ ": " ++ e.message) (program args [] rest)
    | .load addr len =>
      attempt (bits addr) fun addr =>
        attempt (bits len) fun len =>
          .memory (.load addr len) fun r =>
            attempt r fun reply =>
              match reply with
              | .bytes bs => log ("load " ++ Text.hexBytes bs) (program args last rest)
              | _ => program args last rest
    | .store addr bytes =>
      attempt (bits addr) fun addr =>
        .memory (.store addr bytes) fun r => attempt r fun _ => program args last rest
    | .grow delta =>
      attempt (bits delta) fun delta =>
        .memory (.grow (delta % 0x100000000)) fun r =>
          attempt r fun reply =>
            match reply with
            | .pages n => log ("grow " ++ Text.optional (n.map toString)) (program args last rest)
            | _ => program args last rest
    | .fail e => .finish (.error e)
    | .ret ops => .finish (ops.mapM (Operand.get args last))

/-- The host function of a type that runs a list of actions. -/
def function (type : FuncType) (body : List Action) : HostFunction Log :=
  ⟨type, fun args => program args [] body⟩

/-! ### Built-in functions -/

/-- A host function that checks its arguments before it runs. -/
def typed (type : FuncType) (run : List Value → HostProg Log) : HostFunction Log :=
  ⟨type, fun args => attempt (expectResults type.params args) run⟩

/-- A value as a signed integer. -/
def signed : Value → Int
  | .i32 b => b.toInt
  | .i64 b => b.toInt
  | _ => 0

/-- The built-in function of a name. -/
def builtin? (name : String) : Option (HostFunction Log) :=
  match name with
  | "nop" => some (typed ⟨[], []⟩ fun _ => .finish (.ok []))
  | "log" =>
    some (typed ⟨[.i32], []⟩ fun args =>
      log ("log " ++ String.intercalate " " (args.map Value.digits)) (.finish (.ok [])))
  | "twice" =>
    some (typed ⟨[.i32], [.i32]⟩ fun args =>
      .finish (.ok (args.map fun v => .i32 (BitVec.ofInt 32 (2 * signed v)))))
  | "swap" => some (typed ⟨[.i32, .i64], [.i64, .i32]⟩ fun args => .finish (.ok args.reverse))
  | "mix" =>
    some (typed ⟨[.f32, .f64], [.f64, .f32, .i32]⟩ fun args =>
      .look fun w => .finish (.ok (args.reverse ++ [.i32 (BitVec.ofNat 32 w.host.size)])))
  | "sum8" =>
    some (typed ⟨List.replicate 8 .i32, [.i64]⟩ fun args =>
      .finish (.ok [.i64 (BitVec.ofInt 64 ((args.map signed).foldr (· + ·) 0))]))
  | _ => none

end WasmEngine.Script
