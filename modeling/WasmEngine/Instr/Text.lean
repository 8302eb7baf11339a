import WasmEngine.Numeric.Text
import WasmEngine.Value.Text

/-!
# Texts of instructions and constants

An instruction is written as its name and its operands, divided by single
blanks, and so is a constant. `Instr.ofText?` and `Const.ofText?` read what
`Instr.text` and `Const.text` write.
-/

namespace WasmEngine

/-- A name and its operands. -/
def phrase (name : String) (operands : List Nat) : String :=
  String.intercalate " " (name :: operands.map toString)

namespace BlockArgs

/-- The signature of a block as an operand. -/
def text : BlockArgs → String
  | .empty => "empty"
  | .value t => t.name
  | .func i => "type:" ++ toString i

/-- The signature an operand stands for. -/
def ofText? (s : String) : Option BlockArgs :=
  if s == "empty" then some .empty
  else match s.splitOn ":" with
    | ["type", i] => i.toNat?.map .func
    | _ => (ValType.ofName? s).map .value

end BlockArgs

/-- The name of a load. -/
def LoadOp.name : LoadOp → String
  | .full t => t.debug ++ "Load"
  | .byte w signed => w.int.debug ++ "Load8" ++ signLetter signed
  | .short w signed => w.int.debug ++ "Load16" ++ signLetter signed
  | .word signed => "I64Load32" ++ signLetter signed

/-- The name of a store. -/
def StoreOp.name : StoreOp → String
  | .full t => t.debug ++ "Store"
  | .byte w => w.int.debug ++ "Store8"
  | .short w => w.int.debug ++ "Store16"
  | .word => "I64Store32"

/-- The constant of a type and the digits of its value. -/
def valuePhrase (v : Value) : String := Const.valueName v.type ++ " " ++ v.digits

/-- The value of a constant by its name and digits. -/
def readValue? (name digits : String) : Option Value := do
  let t ← ValType.all.find? fun t => Const.valueName t == name
  Value.ofDigits? t digits

namespace Plain

/-- The name of an instruction. -/
def name : Plain → String
  | .unreachable => "Unreachable"
  | .nop => "Nop"
  | .br _ => "Br"
  | .brIf _ => "BrIf"
  | .ret => "Return"
  | .call _ => "Call"
  | .callIndirect _ _ => "CallIndirect"
  | .drop => "Drop"
  | .select => "Select"
  | .localGet _ => "LocalGet"
  | .localSet _ => "LocalSet"
  | .localTee _ => "LocalTee"
  | .globalGet _ => "GlobalGet"
  | .globalSet _ => "GlobalSet"
  | .load op _ => op.name
  | .store op _ => op.name
  | .memorySize _ => "MemorySize"
  | .memoryGrow _ => "MemoryGrow"
  | .memoryCopy _ _ => "MemoryCopy"
  | .memoryFill _ => "MemoryFill"
  | .const v => Const.valueName v.type
  | .unary op => op.name
  | .binary op => op.name

/-- The operands of an instruction as they are written. -/
def operands : Plain → List String
  | .br n | .brIf n | .call n | .localGet n | .localSet n | .localTee n | .globalGet n
  | .globalSet n
  | .memorySize n | .memoryGrow n | .memoryFill n => [toString n]
  | .callIndirect a b | .memoryCopy a b => [toString a, toString b]
  | .load _ arg | .store _ arg => [toString arg.offset, toString arg.memory]
  | .const v => [v.digits]
  | _ => []

/-- The written form of an instruction. -/
def text (op : Plain) : String := String.intercalate " " (op.name :: op.operands)

/-- The instruction of a name without operands. -/
def ofName? (s : String) : Option Plain :=
  match s with
  | "Unreachable" => some .unreachable
  | "Nop" => some .nop
  | "Return" => some .ret
  | "Drop" => some .drop
  | "Select" => some .select
  | _ =>
    match Numeric.named? s with
    | some (.unary op) => some (.unary op)
    | some (.binary op) => some (.binary op)
    | none => none

/-- The instruction of a name with one number. -/
def ofNumber? (s : String) (n : Nat) : Option Plain :=
  match s with
  | "Br" => some (.br n)
  | "BrIf" => some (.brIf n)
  | "Call" => some (.call n)
  | "LocalGet" => some (.localGet n)
  | "LocalSet" => some (.localSet n)
  | "LocalTee" => some (.localTee n)
  | "GlobalGet" => some (.globalGet n)
  | "GlobalSet" => some (.globalSet n)
  | "MemorySize" => some (.memorySize n)
  | "MemoryGrow" => some (.memoryGrow n)
  | "MemoryFill" => some (.memoryFill n)
  | _ => none

/-- The instruction of a name with two numbers. -/
def ofNumbers? (s : String) (a b : Nat) : Option Plain :=
  match s with
  | "CallIndirect" => some (.callIndirect a b)
  | "MemoryCopy" => some (.memoryCopy a b)
  | _ =>
    match LoadOp.all.find? fun op => op.name == s with
    | some op => some (.load op ⟨a, b⟩)
    | none => (StoreOp.all.find? fun op => op.name == s).map fun op => .store op ⟨a, b⟩

/-- The instruction of a name with operands. -/
def ofParts? : List String → Option Plain
  | [name] => ofName? name
  | [name, a] =>
    match readValue? name a with
    | some v => some (.const v)
    | none => do ofNumber? name (← a.toNat?)
  | [name, a, b] => do ofNumbers? name (← a.toNat?) (← b.toNat?)
  | _ => none

end Plain

namespace Instr

/-- The written form of an instruction. -/
def text : Instr → String
  | .plain op => op.text
  | .block args stop => phrase ("Block " ++ args.text) [stop]
  | .loop args stop => phrase ("Loop " ++ args.text) [stop]
  | .cond args alt stop => phrase ("If " ++ args.text) [alt, stop]
  | .orElse stop => phrase "Else" [stop]
  | .endBlock => "EndBlockFrame"
  | .brTable default count => phrase "BrTable" [default, count]
  | .brLabel d => phrase "BrLabel" [d]

/-- The instruction of a name with operands. -/
def ofParts? : List String → Option Instr
  | ["Block", args, stop] => return .block (← BlockArgs.ofText? args) (← stop.toNat?)
  | ["Loop", args, stop] => return .loop (← BlockArgs.ofText? args) (← stop.toNat?)
  | ["If", args, alt, stop] =>
    return .cond (← BlockArgs.ofText? args) (← alt.toNat?) (← stop.toNat?)
  | ["Else", stop] => stop.toNat?.map .orElse
  | ["EndBlockFrame"] => some .endBlock
  | ["BrTable", default, count] => return .brTable (← default.toNat?) (← count.toNat?)
  | ["BrLabel", d] => d.toNat?.map .brLabel
  | parts => (Plain.ofParts? parts).map .plain

/-- The instruction a written form stands for. -/
def ofText? (s : String) : Option Instr := ofParts? (s.splitOn " ")

end Instr

namespace Const

/-- The written form of a constant. -/
def text : Const → String
  | .value v => valuePhrase v
  | .globalGet i => phrase "GlobalGet" [i]
  | .refNull => "RefNull"
  | .refFunc i => phrase "RefFunc" [i]

/-- The constant a written form stands for. -/
def ofText? (s : String) : Option Const :=
  match s.splitOn " " with
  | ["RefNull"] => some .refNull
  | ["GlobalGet", i] => i.toNat?.map .globalGet
  | ["RefFunc", i] => i.toNat?.map .refFunc
  | [name, digits] => (readValue? name digits).map .value
  | _ => none

end Const

end WasmEngine
