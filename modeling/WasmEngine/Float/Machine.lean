import WasmEngine.Float.Native

/-!
# The float unit of this machine

The operations on `Float` and `Float32`, read off as bit patterns. Two roundings
have no operation of their own and are composed: toward zero from the roundings
up and down, and to nearest by adding a number so large that the sum has no
fractional bits. Both are computed on the magnitude and given the sign
afterwards, so a zero keeps the sign of what it was rounded from.
-/

namespace WasmEngine.Native

/-- The 32-bit float of a pattern. -/
def float32 (a : BitVec 32) : Float32 := Float32.ofBits ⟨a⟩

/-- The pattern of a 32-bit float. -/
def pattern32 (x : Float32) : BitVec 32 := x.toBits.toBitVec

/-- The 64-bit float of a pattern. -/
def float64 (a : BitVec 64) : Float := Float.ofBits ⟨a⟩

/-- The pattern of a 64-bit float. -/
def pattern64 (x : Float) : BitVec 64 := x.toBits.toBitVec

/-- Rounding of a 32-bit magnitude to nearest. -/
def nearest32 (x : Float32) : Float32 := if x < 8388608 then (x + 8388608) - 8388608 else x

/-- Rounding of a 64-bit magnitude to nearest. -/
def nearest64 (x : Float) : Float :=
  if x < 4503599627370496 then (x + 4503599627370496) - 4503599627370496 else x

/-- A function of the magnitude of a 32-bit float that keeps the sign. -/
def onMagnitude32 (f : Float32 → Float32) (a : BitVec 32) : BitVec 32 :=
  pattern32 (f (float32 (a &&& 0x7fffffff))) ||| (a &&& 0x80000000)

/-- A function of the magnitude of a 64-bit float that keeps the sign. -/
def onMagnitude64 (f : Float → Float) (a : BitVec 64) : BitVec 64 :=
  pattern64 (f (float64 (a &&& 0x7fffffffffffffff))) ||| (a &&& 0x8000000000000000)

/-- The unit at 32 bits. -/
def machine32 : NativeOps .w32 where
  add a b := pattern32 (float32 a + float32 b)
  sub a b := pattern32 (float32 a - float32 b)
  mul a b := pattern32 (float32 a * float32 b)
  div a b := pattern32 (float32 a / float32 b)
  sqrt a := pattern32 (float32 a).sqrt
  round mode a :=
    match mode with
    | .ceil => pattern32 (float32 a).ceil
    | .floor => pattern32 (float32 a).floor
    | .trunc => onMagnitude32 Float32.floor a
    | .nearest => onMagnitude32 nearest32 a
  eq a b := float32 a == float32 b
  lt a b := float32 a < float32 b
  le a b := float32 a ≤ float32 b
  ofInt t r :=
    match t with
    | .i32 => pattern32 (Int32.ofBitVec r.low).toFloat32
    | .u32 => pattern32 (UInt32.ofBitVec r.low).toFloat32
    | .i64 => pattern32 (Int64.ofBitVec r).toFloat32
    | .u64 => pattern32 (UInt64.ofBitVec r).toFloat32
  toInt t a :=
    match t with
    | .i32 => Raw.ofLow (float32 a).toInt32.toBitVec
    | .u32 => Raw.ofLow (float32 a).toUInt32.toBitVec
    | .i64 => (float32 a).toInt64.toBitVec
    | .u64 => (float32 a).toUInt64.toBitVec

/-- The unit at 64 bits. -/
def machine64 : NativeOps .w64 where
  add a b := pattern64 (float64 a + float64 b)
  sub a b := pattern64 (float64 a - float64 b)
  mul a b := pattern64 (float64 a * float64 b)
  div a b := pattern64 (float64 a / float64 b)
  sqrt a := pattern64 (float64 a).sqrt
  round mode a :=
    match mode with
    | .ceil => pattern64 (float64 a).ceil
    | .floor => pattern64 (float64 a).floor
    | .trunc => onMagnitude64 Float.floor a
    | .nearest => onMagnitude64 nearest64 a
  eq a b := float64 a == float64 b
  lt a b := float64 a < float64 b
  le a b := float64 a ≤ float64 b
  ofInt t r :=
    match t with
    | .i32 => pattern64 (Int32.ofBitVec r.low).toFloat
    | .u32 => pattern64 (UInt32.ofBitVec r.low).toFloat
    | .i64 => pattern64 (Int64.ofBitVec r).toFloat
    | .u64 => pattern64 (UInt64.ofBitVec r).toFloat
  toInt t a :=
    match t with
    | .i32 => Raw.ofLow (float64 a).toInt32.toBitVec
    | .u32 => Raw.ofLow (float64 a).toUInt32.toBitVec
    | .i64 => (float64 a).toInt64.toBitVec
    | .u64 => (float64 a).toUInt64.toBitVec

/-- The float unit of this machine. -/
def machine : Native where
  ops w :=
    match w with
    | .w32 => machine32
    | .w64 => machine64
  demote a := pattern32 (float64 a).toFloat32
  promote a := pattern64 (float32 a).toFloat

end WasmEngine.Native
