import WasmEngine.Float.Soft
import WasmEngine.Numeric

/-!
# Float policies

A **policy** says how float operations are carried out. It provides, at each
width, the operations whose rounding matters and the basic comparisons, and the
conversions between the widths; the rest is derived here once for all policies:
the other comparisons, `min` and `max`, saturating truncation and the operations
that only touch the sign.

`FloatPolicy.soft` computes on integers. Policies work on bit patterns, so that
no value has to pass through a float register.
-/

namespace WasmEngine

namespace Width

/-- The float format of a width. -/
def format : Width → Format
  | .w32 => .f32
  | .w64 => .f64

end Width

/-- A float of a width, by its pattern. -/
abbrev Pattern (w : Width) := BitVec w.bits

/-- What a policy provides at a width. -/
structure FloatOps (w : Width) where
  /-- Addition. -/
  add : Pattern w → Pattern w → Pattern w
  /-- Subtraction. -/
  sub : Pattern w → Pattern w → Pattern w
  /-- Multiplication. -/
  mul : Pattern w → Pattern w → Pattern w
  /-- Division. -/
  div : Pattern w → Pattern w → Pattern w
  /-- Square root. -/
  sqrt : Pattern w → Pattern w
  /-- Rounding to an integral value. -/
  round : Rounding → Pattern w → Pattern w
  /-- Equality. -/
  eq : Pattern w → Pattern w → Bool
  /-- Less than. -/
  lt : Pattern w → Pattern w → Bool
  /-- At most. -/
  le : Pattern w → Pattern w → Bool
  /-- The float nearest to an integer. -/
  ofInt : IntTarget → Raw → Pattern w
  /-- The integer toward zero, or a trap. -/
  toInt : IntTarget → Pattern w → Except Trap Raw

namespace FloatOps

variable {w : Width} (ops : FloatOps w)

/-! ### Derived operations -/

/-- The smaller of two floats; of the zeros, the negative one. -/
def min (a b : Pattern w) : Pattern w :=
  match w.format.propagate a.toNat b.toNat with
  | some nan => BitVec.ofNat _ nan
  | none =>
    if w.format.isZero a.toNat ∧ w.format.isZero b.toNat then a ||| b
    else if ops.lt a b then a else b

/-- The larger of two floats; of the zeros, the positive one. -/
def max (a b : Pattern w) : Pattern w :=
  match w.format.propagate a.toNat b.toNat with
  | some nan => BitVec.ofNat _ nan
  | none =>
    if w.format.isZero a.toNat ∧ w.format.isZero b.toNat then a &&& b
    else if ops.lt b a then a else b

/-- The integer toward zero, clamped to the range; zero for a NaN. -/
def toIntSat (t : IntTarget) (a : Pattern w) : Raw :=
  match ops.toInt t a with
  | .ok r => r
  | .error .invalidConversion => 0
  | .error _ => if w.format.negative a.toNat then t.minRaw else t.maxRaw

/-- The sign bit as a mask. -/
def signMask (w : Width) : Pattern w := BitVec.ofNat _ w.format.signBit

/-- A float operation with one operand. -/
def unary (op : FloatUnary) (a : Pattern w) : Pattern w :=
  match op with
  | .abs => a &&& ~~~ signMask w
  | .neg => a ^^^ signMask w
  | .ceil => ops.round .ceil a
  | .floor => ops.round .floor a
  | .trunc => ops.round .trunc a
  | .nearest => ops.round .nearest a
  | .sqrt => ops.sqrt a

/-- A float operation with two operands. -/
def binary (op : FloatBinary) (a b : Pattern w) : Pattern w :=
  match op with
  | .add => ops.add a b
  | .sub => ops.sub a b
  | .mul => ops.mul a b
  | .div => ops.div a b
  | .min => ops.min a b
  | .max => ops.max a b
  | .copysign => (a &&& ~~~ signMask w) ||| (b &&& signMask w)

/-- A comparison of floats. -/
def compare (op : FloatCompare) (a b : Pattern w) : Bool :=
  match op with
  | .eq => ops.eq a b
  | .ne => !ops.eq a b
  | .lt => ops.lt a b
  | .gt => ops.lt b a
  | .le => ops.le a b
  | .ge => ops.le b a

end FloatOps

/-- How float operations are carried out. -/
structure FloatPolicy where
  /-- A short name. -/
  name : String
  /-- The operations at a width. -/
  ops : (w : Width) → FloatOps w
  /-- A 64-bit float at 32 bits. -/
  demote : Pattern .w64 → Pattern .w32
  /-- A 32-bit float at 64 bits. -/
  promote : Pattern .w32 → Pattern .w64

/-! ### The policy that computes on integers -/

namespace FloatOps

/-- A function on two patterns, on bit vectors. -/
def lift₂ (w : Width) (f : Nat → Nat → Nat) (a b : Pattern w) : Pattern w :=
  BitVec.ofNat _ (f a.toNat b.toNat)

/-- A function on a pattern, on bit vectors. -/
def lift (w : Width) (f : Nat → Nat) (a : Pattern w) : Pattern w := BitVec.ofNat _ (f a.toNat)

/-- The operations on integers. -/
def soft (w : Width) : FloatOps w where
  add := lift₂ w w.format.add
  sub := lift₂ w w.format.sub
  mul := lift₂ w w.format.mul
  div := lift₂ w w.format.div
  sqrt := lift w w.format.sqrt
  round mode := lift w (w.format.roundToInt mode)
  eq a b := w.format.eq a.toNat b.toNat
  lt a b := w.format.lt a.toNat b.toNat
  le a b := w.format.le a.toNat b.toNat
  ofInt t r := BitVec.ofNat _ (w.format.ofInt t r)
  toInt t a := w.format.toInt t a.toNat

end FloatOps

namespace FloatPolicy

/-- **The soft policy**: everything is computed on integers. -/
def soft : FloatPolicy where
  name := "softfloat"
  ops := FloatOps.soft
  demote a := BitVec.ofNat _ (softDemote a.toNat)
  promote a := BitVec.ofNat _ (softPromote a.toNat)

end FloatPolicy

end WasmEngine
