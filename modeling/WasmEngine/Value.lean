/-!
# Values

A WebAssembly program computes with four **value types**: integers and floats,
32 or 64 bits wide. A `Value` carries its type and its bits; a float is its bit
pattern, so two values are equal exactly when their types and all their bits
agree. Two NaNs with different payloads differ, and so do the two zeros.

Inside the engine operands are untyped. `Raw` is the 64-bit word every operand,
local and global is held in; a 32-bit value lies in the low half, and the high
half is zero. `Value.toRaw` and `Value.ofRaw` move between the two views, and
`Value.ofRaw_toRaw` says that nothing is lost on the way.
-/

namespace WasmEngine

/-- The types of values. -/
inductive ValType
  /-- 32-bit integers. -/
  | i32
  /-- 64-bit integers. -/
  | i64
  /-- 32-bit floats. -/
  | f32
  /-- 64-bit floats. -/
  | f64
  deriving DecidableEq

namespace ValType

/-- The name of the type as programs spell it. -/
def name : ValType → String
  | .i32 => "i32"
  | .i64 => "i64"
  | .f32 => "f32"
  | .f64 => "f64"

/-- The name of the type in diagnostic texts. -/
def debug : ValType → String
  | .i32 => "I32"
  | .i64 => "I64"
  | .f32 => "F32"
  | .f64 => "F64"

/-- All four types, in the order of their names above. -/
def all : List ValType := [.i32, .i64, .f32, .f64]

/-- The type of that name. -/
def ofName? (s : String) : Option ValType := all.find? fun t => t.name == s

/-- Whether values of the type are 32 bits wide. -/
def isNarrow : ValType → Bool
  | .i32 | .f32 => true
  | .i64 | .f64 => false

end ValType

/-- An untyped operand: 64 bits, of which a 32-bit value uses the low half. -/
abbrev Raw := BitVec 64

namespace Raw

/-- The low half of a word. -/
def low (r : Raw) : BitVec 32 := r.setWidth 32

/-- The word whose low half is `b` and whose high half is zero. -/
def ofLow (b : BitVec 32) : Raw := b.setWidth 64

/-- A word as the condition of a branch: whether its low half is not zero. -/
def isTrue (r : Raw) : Bool := r.low != 0

/-- A truth value as an operand. -/
def ofBool (b : Bool) : Raw := if b then 1 else 0

@[simp]
theorem low_ofLow (b : BitVec 32) : (ofLow b).low = b := by
  simp [low, ofLow]

end Raw

/-- A typed value, given by its bits. -/
inductive Value
  /-- A 32-bit integer. -/
  | i32 (bits : BitVec 32)
  /-- A 64-bit integer. -/
  | i64 (bits : BitVec 64)
  /-- A 32-bit float, by its pattern. -/
  | f32 (bits : BitVec 32)
  /-- A 64-bit float, by its pattern. -/
  | f64 (bits : BitVec 64)
  deriving DecidableEq

namespace Value

/-- The type of a value. -/
def type : Value → ValType
  | .i32 _ => .i32
  | .i64 _ => .i64
  | .f32 _ => .f32
  | .f64 _ => .f64

/-- The bits of a value as an operand, zero-extended. -/
def toRaw : Value → Raw
  | .i32 b => Raw.ofLow b
  | .i64 b => b
  | .f32 b => Raw.ofLow b
  | .f64 b => b

/-- The value of a given type that an operand holds; for a 32-bit type the high
half is ignored. -/
def ofRaw (t : ValType) (r : Raw) : Value :=
  match t with
  | .i32 => .i32 r.low
  | .i64 => .i64 r
  | .f32 => .f32 r.low
  | .f64 => .f64 r

/-- The zero of a type. -/
def zero (t : ValType) : Value := ofRaw t 0

@[simp]
theorem type_ofRaw (t : ValType) (r : Raw) : (ofRaw t r).type = t := by
  cases t <;> rfl

@[simp]
theorem ofRaw_toRaw (v : Value) : ofRaw v.type v.toRaw = v := by
  cases v <;> simp [type, toRaw, ofRaw]

end Value

end WasmEngine
