import WasmEngine.Float.Policy

/-!
# Float arithmetic on a float unit

The **hard policy** leaves arithmetic to a float unit and keeps its answers,
except for NaNs: which NaN a unit produces is its own affair, so a NaN is
replaced by the one the shared rule asks for. What the unit computes is a
parameter here (`Native`), and everything that is assumed of it can be said
about that parameter.
-/

namespace WasmEngine

/-- What a float unit computes at a width. Its NaNs may be any. -/
structure NativeOps (w : Width) where
  /-- Addition. -/
  add : Pattern w → Pattern w → Pattern w
  /-- Subtraction. -/
  sub : Pattern w → Pattern w → Pattern w
  /-- Multiplication. -/
  mul : Pattern w → Pattern w → Pattern w
  /-- Division. -/
  div : Pattern w → Pattern w → Pattern w
  /-- Square root. -/
  sqrt : Pattern w → Pattern w
  /-- Rounding to an integral value. -/
  round : Rounding → Pattern w → Pattern w
  /-- Equality. -/
  eq : Pattern w → Pattern w → Bool
  /-- Less than. -/
  lt : Pattern w → Pattern w → Bool
  /-- At most. -/
  le : Pattern w → Pattern w → Bool
  /-- The float nearest to an integer. -/
  ofInt : IntTarget → Raw → Pattern w
  /-- The integer toward zero of a float whose integer is in range. -/
  toInt : IntTarget → Pattern w → Raw

/-- A float unit. -/
structure Native where
  /-- The operations at a width. -/
  ops : (w : Width) → NativeOps w
  /-- A 64-bit float at 32 bits. -/
  demote : Pattern .w64 → Pattern .w32
  /-- A 32-bit float at 64 bits. -/
  promote : Pattern .w32 → Pattern .w64

namespace NativeOps

/-- The patterns between which a float truncates into a range, both excluded. -/
def bounds (w : Width) (t : IntTarget) : Pattern w × Pattern w :=
  match w, t with
  | .w32, .i32 => (0xcf000001#32, 0x4f000000#32)
  | .w32, .u32 => (0xbf800000#32, 0x4f800000#32)
  | .w32, .i64 => (0xdf000001#32, 0x5f000000#32)
  | .w32, .u64 => (0xbf800000#32, 0x5f800000#32)
  | .w64, .i32 => (0xc1e0000000200000#64, 0x41e0000000000000#64)
  | .w64, .u32 => (0xbff0000000000000#64, 0x41f0000000000000#64)
  | .w64, .i64 => (0xc3e0000000000001#64, 0x43e0000000000000#64)
  | .w64, .u64 => (0xbff0000000000000#64, 0x43f0000000000000#64)

variable {w : Width}

/-- A result of the unit, with a NaN replaced by the one that the operands call
for. -/
def repair (a b result : Pattern w) : Pattern w :=
  if w.format.isNan result.toNat then BitVec.ofNat _ (w.format.nanResult a.toNat b.toNat)
  else result

variable (n : NativeOps w)

/-- The integer toward zero, or a trap: the range is told by comparing floats. -/
def toIntChecked (t : IntTarget) (a : Pattern w) : Except Trap Raw :=
  if w.format.isNan a.toNat then .error .invalidConversion
  else if n.le a (bounds w t).1 ∨ n.le (bounds w t).2 a then .error .integerOverflow
  else .ok (t.cut (n.toInt t a))

/-- The operations of the unit under the NaN rule. -/
def repaired : FloatOps w where
  add a b := repair a b (n.add a b)
  sub a b := repair a b (n.sub a b)
  mul a b := repair a b (n.mul a b)
  div a b := repair a b (n.div a b)
  sqrt a := repair a a (n.sqrt a)
  round mode a := repair a a (n.round mode a)
  eq := n.eq
  lt := n.lt
  le := n.le
  ofInt := n.ofInt
  toInt := n.toIntChecked

end NativeOps

namespace FloatPolicy

/-- **The hard policy** on a float unit. -/
def hard (n : Native) : FloatPolicy where
  name := "hardfloat"
  ops w := (n.ops w).repaired
  demote a := if Format.f64.isNan a.toNat then BitVec.ofNat _ (demoteNan a.toNat) else n.demote a
  promote a := if Format.f32.isNan a.toNat then BitVec.ofNat _ (promoteNan a.toNat) else n.promote a

end FloatPolicy

end WasmEngine
