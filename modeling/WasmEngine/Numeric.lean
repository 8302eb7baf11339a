import WasmEngine.Float.IntTarget

/-!
# Numeric operations

The operations that only look at their operands, sorted by what they do and not
by how they are spelt: an operation that exists at both widths is one
constructor with a `Width`. `Unary` and `Binary` collect them by arity, and each
has an operand type and a result type; the two operands of a binary operation
always have the same type.
-/

namespace WasmEngine

/-- The two widths of integers and floats. -/
inductive Width
  /-- 32 bits. -/
  | w32
  /-- 64 bits. -/
  | w64
  deriving DecidableEq

namespace Width

/-- The number of bits. -/
def bits : Width → Nat
  | .w32 => 32
  | .w64 => 64

/-- The integer type of that width. -/
def int : Width → ValType
  | .w32 => .i32
  | .w64 => .i64

/-- The float type of that width. -/
def float : Width → ValType
  | .w32 => .f32
  | .w64 => .f64

/-- Both widths. -/
def all : List Width := [.w32, .w64]

end Width

/-- Bit counts of an integer. -/
inductive IntCount
  | clz
  | ctz
  | popcnt
  deriving DecidableEq

/-- Integer arithmetic; the divisions can trap. -/
inductive IntBinary
  | add
  | sub
  | mul
  | divS
  | divU
  | remS
  | remU
  | and
  | or
  | xor
  | shl
  | shrS
  | shrU
  | rotl
  | rotr
  deriving DecidableEq

/-- Comparisons of integers. -/
inductive IntCompare
  | eq
  | ne
  | ltS
  | ltU
  | gtS
  | gtU
  | leS
  | leU
  | geS
  | geU
  deriving DecidableEq

/-- Float operations with one operand. -/
inductive FloatUnary
  | abs
  | neg
  | ceil
  | floor
  | trunc
  | nearest
  | sqrt
  deriving DecidableEq

/-- Float operations with two operands. -/
inductive FloatBinary
  | add
  | sub
  | mul
  | div
  | min
  | max
  | copysign
  deriving DecidableEq

/-- Comparisons of floats. -/
inductive FloatCompare
  | eq
  | ne
  | lt
  | gt
  | le
  | ge
  deriving DecidableEq

/-- Operations with one operand. -/
inductive Unary
  /-- Whether an integer is zero. -/
  | eqz (w : Width)
  /-- A bit count. -/
  | count (w : Width) (op : IntCount)
  /-- Sign extension of the low byte. -/
  | extend8 (w : Width)
  /-- Sign extension of the low two bytes. -/
  | extend16 (w : Width)
  /-- Sign extension of the low half of a 64-bit integer. -/
  | extend32
  /-- A float operation. -/
  | float (w : Width) (op : FloatUnary)
  /-- The low half of a 64-bit integer. -/
  | wrap
  /-- A 32-bit integer at 64 bits. -/
  | extend (signed : Bool)
  /-- Truncation of a float to an integer, trapping outside of the range. -/
  | truncate (w : Width) (target : IntTarget)
  /-- Truncation of a float to an integer, clamped to the range. -/
  | saturate (w : Width) (target : IntTarget)
  /-- The float nearest to an integer. -/
  | convert (w : Width) (source : IntTarget)
  /-- A 64-bit float at 32 bits. -/
  | demote
  /-- A 32-bit float at 64 bits. -/
  | promote
  /-- The same bits read as the given type. -/
  | reinterpret (target : ValType)
  deriving DecidableEq

/-- Operations with two operands. -/
inductive Binary
  /-- Integer arithmetic. -/
  | int (w : Width) (op : IntBinary)
  /-- A comparison of integers. -/
  | intCompare (w : Width) (op : IntCompare)
  /-- Float arithmetic. -/
  | float (w : Width) (op : FloatBinary)
  /-- A comparison of floats. -/
  | floatCompare (w : Width) (op : FloatCompare)
  deriving DecidableEq

/-! ### Operand and result types -/

/-- The type whose bits a reinterpretation reads. -/
def ValType.reinterpreted : ValType → ValType
  | .i32 => .f32
  | .i64 => .f64
  | .f32 => .i32
  | .f64 => .i64

namespace Unary

/-- The type of the operand. -/
def operand : Unary → ValType
  | .eqz w | .count w _ | .extend8 w | .extend16 w => w.int
  | .extend32 | .wrap => .i64
  | .float w _ | .truncate w _ | .saturate w _ => w.float
  | .extend _ => .i32
  | .convert _ t => t.type
  | .demote => .f64
  | .promote => .f32
  | .reinterpret t => t.reinterpreted

/-- The type of the result. -/
def result : Unary → ValType
  | .eqz _ | .wrap => .i32
  | .count w _ | .extend8 w | .extend16 w => w.int
  | .extend32 | .extend _ => .i64
  | .float w _ | .convert w _ => w.float
  | .truncate _ t | .saturate _ t => t.type
  | .demote => .f32
  | .promote => .f64
  | .reinterpret t => t

end Unary

namespace Binary

/-- The type of both operands. -/
def operand : Binary → ValType
  | .int w _ | .intCompare w _ => w.int
  | .float w _ | .floatCompare w _ => w.float

/-- The type of the result. -/
def result : Binary → ValType
  | .int w _ => w.int
  | .float w _ => w.float
  | .intCompare _ _ | .floatCompare _ _ => .i32

end Binary

/-! ### The operations in the order of their opcodes -/

namespace IntCount

/-- All counts. -/
def all : List IntCount := [.clz, .ctz, .popcnt]

end IntCount

namespace IntBinary

/-- All integer arithmetic. -/
def all : List IntBinary :=
  [.add, .sub, .mul, .divS, .divU, .remS, .remU, .and, .or, .xor, .shl, .shrS, .shrU, .rotl, .rotr]

end IntBinary

namespace IntCompare

/-- All comparisons of integers. -/
def all : List IntCompare := [.eq, .ne, .ltS, .ltU, .gtS, .gtU, .leS, .leU, .geS, .geU]

end IntCompare

namespace FloatUnary

/-- All float operations with one operand. -/
def all : List FloatUnary := [.abs, .neg, .ceil, .floor, .trunc, .nearest, .sqrt]

end FloatUnary

namespace FloatBinary

/-- All float operations with two operands. -/
def all : List FloatBinary := [.add, .sub, .mul, .div, .min, .max, .copysign]

end FloatBinary

namespace FloatCompare

/-- All comparisons of floats. -/
def all : List FloatCompare := [.eq, .ne, .lt, .gt, .le, .ge]

end FloatCompare

/-- A numeric operation of either arity. -/
inductive Numeric
  | unary (op : Unary)
  | binary (op : Binary)
  deriving DecidableEq

namespace Numeric

/-- The truncations of one kind, in the order of their opcodes within an integer
width. -/
def truncations (f : Width → IntTarget → Unary) (signed unsigned : IntTarget) : List Numeric :=
  [.unary (f .w32 signed), .unary (f .w32 unsigned), .unary (f .w64 signed),
    .unary (f .w64 unsigned)]

/-- The conversions into one float width, in the order of their opcodes. -/
def conversions (w : Width) : List Numeric := IntTarget.all.map fun t => .unary (.convert w t)

/-- The operations with opcodes of one byte, in order: the first is `0x45`, the
last `0xc4`. -/
def plain : List Numeric :=
  Width.all.flatMap (fun w => .unary (.eqz w) :: IntCompare.all.map fun o =>
    .binary (.intCompare w o)) ++
  Width.all.flatMap (fun w => FloatCompare.all.map fun o => .binary (.floatCompare w o)) ++
  Width.all.flatMap (fun w => IntCount.all.map (fun o => .unary (.count w o)) ++
    IntBinary.all.map fun o => .binary (.int w o)) ++
  Width.all.flatMap (fun w => FloatUnary.all.map (fun o => .unary (.float w o)) ++
    FloatBinary.all.map fun o => .binary (.float w o)) ++
  .unary .wrap :: truncations .truncate .i32 .u32 ++
  .unary (.extend true) :: .unary (.extend false) :: truncations .truncate .i64 .u64 ++
  conversions .w32 ++ .unary .demote :: conversions .w64 ++ .unary .promote ::
  ValType.all.map (fun t => .unary (.reinterpret t)) ++
  [.unary (.extend8 .w32), .unary (.extend16 .w32), .unary (.extend8 .w64), .unary (.extend16 .w64),
    .unary .extend32]

/-- The saturating truncations, in the order of their opcodes behind the byte
`0xfc`. -/
def saturating : List Numeric :=
  truncations .saturate .i32 .u32 ++ truncations .saturate .i64 .u64

/-- Every numeric operation once. -/
def all : List Numeric := plain ++ saturating

end Numeric

end WasmEngine
