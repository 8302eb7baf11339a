import WasmEngine.Float.Format
import WasmEngine.Instr
import WasmEngine.Text.Hex
import WasmEngine.Text.Record

/-!
# Texts of values

Two written forms of a value. The **exact** form is the type, a colon and the
value, integers as signed decimals and floats as the digits of their pattern;
`Value.ofText?` reads it back. The **diagnostic** form shows a float as a
decimal next to its pattern.
-/

namespace WasmEngine

namespace Value

/-- The value without its type: integers in decimal, floats by their pattern. -/
def digits : Value → String
  | .i32 b => toString b.toInt
  | .i64 b => toString b.toInt
  | .f32 b => Text.hex 8 b.toNat
  | .f64 b => Text.hex 16 b.toNat

/-- The exact form, `type:digits`. -/
def text (v : Value) : String := v.type.name ++ ":" ++ v.digits

/-- The value that digits stand for at a type. -/
def ofDigits? (t : ValType) (s : String) : Option Value :=
  match t with
  | .i32 => s.toInt?.map fun n => .i32 (BitVec.ofInt 32 n)
  | .i64 => s.toInt?.map fun n => .i64 (BitVec.ofInt 64 n)
  | .f32 => (Text.readHex? s).map fun n => .f32 (BitVec.ofNat 32 n)
  | .f64 => (Text.readHex? s).map fun n => .f64 (BitVec.ofNat 64 n)

/-- The value an exact form stands for. -/
def ofText? (s : String) : Option Value :=
  match s.splitOn ":" with
  | [t, d] => do ofDigits? (← ValType.ofName? t) d
  | _ => none

/-- The diagnostic form. -/
def debug : Value → String
  | .i32 b => Text.applied "i32" [toString b.toInt]
  | .i64 b => Text.applied "i64" [toString b.toInt]
  | .f32 b => Text.applied "f32" [Format.f32.text b.toNat, "0x" ++ Text.hex 8 b.toNat]
  | .f64 b => Text.applied "f64" [Format.f64.text b.toNat, "0x" ++ Text.hex 16 b.toNat]

/-- Values in a row, divided by blanks. -/
def texts (vs : List Value) : String := String.intercalate " " (vs.map text)

end Value

/-- The diagnostic form of a word. -/
def Raw.debug (r : Raw) : String := Text.applied "RawValue" ["0x" ++ Text.hexShort r.toNat]

namespace Const

/-- The name of a constant of a type. -/
def valueName : ValType → String
  | .i32 => "I32Const"
  | .i64 => "I64Const"
  | .f32 => "F32Const"
  | .f64 => "F64Const"

/-- The diagnostic form of a constant; a float is shown by its pattern as a
number. -/
def debug : Const → String
  | .value (.f32 b) => Text.applied "F32Const" [toString b.toNat]
  | .value (.f64 b) => Text.applied "F64Const" [toString b.toNat]
  | .value v => Text.applied (valueName v.type) [v.digits]
  | .globalGet i => Text.applied "GlobalGet" [toString i]
  | .refNull => "RefNull"
  | .refFunc i => Text.applied "RefFunc" [toString i]

end Const

end WasmEngine
