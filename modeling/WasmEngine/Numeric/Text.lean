import WasmEngine.Numeric

/-!
# Names of numeric operations

The name of an operation is put together from the types it works on and what it
does; `Numeric.named?` finds the operation of a name.
-/

namespace WasmEngine

/-- The letter that tells signed from unsigned. -/
def signLetter (signed : Bool) : String := if signed then "S" else "U"

namespace IntCount

/-- The name of a count. -/
def name : IntCount → String
  | .clz => "Clz"
  | .ctz => "Ctz"
  | .popcnt => "Popcnt"

end IntCount

namespace IntBinary

/-- The name of an operation on integers. -/
def name : IntBinary → String
  | .add => "Add"
  | .sub => "Sub"
  | .mul => "Mul"
  | .divS => "DivS"
  | .divU => "DivU"
  | .remS => "RemS"
  | .remU => "RemU"
  | .and => "And"
  | .or => "Or"
  | .xor => "Xor"
  | .shl => "Shl"
  | .shrS => "ShrS"
  | .shrU => "ShrU"
  | .rotl => "Rotl"
  | .rotr => "Rotr"

end IntBinary

namespace IntCompare

/-- The name of a comparison of integers. -/
def name : IntCompare → String
  | .eq => "Eq"
  | .ne => "Ne"
  | .ltS => "LtS"
  | .ltU => "LtU"
  | .gtS => "GtS"
  | .gtU => "GtU"
  | .leS => "LeS"
  | .leU => "LeU"
  | .geS => "GeS"
  | .geU => "GeU"

end IntCompare

namespace FloatUnary

/-- The name of a float operation with one operand. -/
def name : FloatUnary → String
  | .abs => "Abs"
  | .neg => "Neg"
  | .ceil => "Ceil"
  | .floor => "Floor"
  | .trunc => "Trunc"
  | .nearest => "Nearest"
  | .sqrt => "Sqrt"

end FloatUnary

namespace FloatBinary

/-- The name of a float operation with two operands. -/
def name : FloatBinary → String
  | .add => "Add"
  | .sub => "Sub"
  | .mul => "Mul"
  | .div => "Div"
  | .min => "Min"
  | .max => "Max"
  | .copysign => "Copysign"

end FloatBinary

namespace FloatCompare

/-- The name of a comparison of floats. -/
def name : FloatCompare → String
  | .eq => "Eq"
  | .ne => "Ne"
  | .lt => "Lt"
  | .gt => "Gt"
  | .le => "Le"
  | .ge => "Ge"

end FloatCompare

/-- The name of an operation with one operand. -/
def Unary.name : Unary → String
  | .eqz w => w.int.debug ++ "Eqz"
  | .count w op => w.int.debug ++ op.name
  | .extend8 w => w.int.debug ++ "Extend8S"
  | .extend16 w => w.int.debug ++ "Extend16S"
  | .extend32 => "I64Extend32S"
  | .float w op => w.float.debug ++ op.name
  | .wrap => "I32WrapI64"
  | .extend signed => "I64ExtendI32" ++ signLetter signed
  | .truncate w t => t.type.debug ++ "Trunc" ++ w.float.debug ++ signLetter t.signed
  | .saturate w t => t.type.debug ++ "TruncSat" ++ w.float.debug ++ signLetter t.signed
  | .convert w t => w.float.debug ++ "Convert" ++ t.type.debug ++ signLetter t.signed
  | .demote => "F32DemoteF64"
  | .promote => "F64PromoteF32"
  | .reinterpret t => t.debug ++ "Reinterpret" ++ t.reinterpreted.debug

/-- The name of an operation with two operands. -/
def Binary.name : Binary → String
  | .int w op => w.int.debug ++ op.name
  | .intCompare w op => w.int.debug ++ op.name
  | .float w op => w.float.debug ++ op.name
  | .floatCompare w op => w.float.debug ++ op.name

namespace Numeric

/-- The name of a numeric operation. -/
def name : Numeric → String
  | .unary op => op.name
  | .binary op => op.name

/-- Every numeric operation with its name. -/
def names : List (String × Numeric) := all.map fun op => (op.name, op)

/-- The numeric operation of a name. -/
def named? (s : String) : Option Numeric := names.lookup s

end Numeric

end WasmEngine
