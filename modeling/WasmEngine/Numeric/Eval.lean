import WasmEngine.Float.Policy

/-!
# Evaluation of numeric operations

What each numeric operation computes on words. An operation at 32 bits looks at
the low half of its operands only and leaves the high half of its result zero;
the one exception is a reinterpretation, which hands its operand on as it is.
Integer arithmetic is that of bit vectors; the divisions trap, shifts and
rotations take their count modulo the width.
-/

namespace WasmEngine

namespace Width

/-- The part of a word that an operation of the width looks at. -/
def ofRaw (w : Width) (r : Raw) : BitVec w.bits := r.setWidth w.bits

/-- The word of a result of the width. -/
def toRaw {w : Width} (b : BitVec w.bits) : Raw := b.setWidth 64

end Width

namespace IntCount

/-- A bit count. -/
def eval {n : Nat} (op : IntCount) (a : BitVec n) : BitVec n :=
  match op with
  | .clz => a.clz
  | .ctz => a.ctz
  | .popcnt => a.cpop

end IntCount

namespace IntBinary

/-- The count of a shift: the low 32 bits of the operand. -/
def count {n : Nat} (b : BitVec n) : Nat := (b.setWidth 32).toNat

/-- Integer arithmetic. -/
def eval {n : Nat} (op : IntBinary) (a b : BitVec n) : Except Trap (BitVec n) :=
  match op with
  | .add => .ok (a + b)
  | .sub => .ok (a - b)
  | .mul => .ok (a * b)
  | .divS =>
    if b = 0 then .error .divisionByZero
    else if a = BitVec.intMin n ∧ b = -1 then .error .integerOverflow
    else .ok (a.sdiv b)
  | .divU => if b = 0 then .error .divisionByZero else .ok (a / b)
  | .remS => if b = 0 then .error .divisionByZero else .ok (a.srem b)
  | .remU => if b = 0 then .error .divisionByZero else .ok (a % b)
  | .and => .ok (a &&& b)
  | .or => .ok (a ||| b)
  | .xor => .ok (a ^^^ b)
  | .shl => .ok (a <<< (count b % n))
  | .shrS => .ok (a.sshiftRight (count b % n))
  | .shrU => .ok (a >>> (count b % n))
  | .rotl => .ok (a.rotateLeft (count (b % .ofNat n n)))
  | .rotr => .ok (a.rotateRight (count (b % .ofNat n n)))

end IntBinary

namespace IntCompare

/-- A comparison of integers. -/
def eval {n : Nat} (op : IntCompare) (a b : BitVec n) : Bool :=
  match op with
  | .eq => a == b
  | .ne => a != b
  | .ltS => a.slt b
  | .ltU => a.ult b
  | .gtS => b.slt a
  | .gtU => b.ult a
  | .leS => a.sle b
  | .leU => a.ule b
  | .geS => b.sle a
  | .geU => b.ule a

end IntCompare

/-- An operation with one operand. -/
def Unary.eval (p : FloatPolicy) (op : Unary) (r : Raw) : Except Trap Raw :=
  match op with
  | .eqz w => .ok (Raw.ofBool (w.ofRaw r == 0))
  | .count w op => .ok (Width.toRaw (op.eval (w.ofRaw r)))
  | .extend8 w => .ok (Width.toRaw (w := w) ((r.setWidth 8).signExtend w.bits))
  | .extend16 w => .ok (Width.toRaw (w := w) ((r.setWidth 16).signExtend w.bits))
  | .extend32 => .ok (r.low.signExtend 64)
  | .float w op => .ok (Width.toRaw ((p.ops w).unary op (w.ofRaw r)))
  | .wrap => .ok (Raw.ofLow r.low)
  | .extend true => .ok (r.low.signExtend 64)
  | .extend false => .ok (Raw.ofLow r.low)
  | .truncate w t => (p.ops w).toInt t (w.ofRaw r)
  | .saturate w t => .ok ((p.ops w).toIntSat t (w.ofRaw r))
  | .convert w t => .ok (Width.toRaw ((p.ops w).ofInt t r))
  | .demote => .ok (Width.toRaw (w := .w32) (p.demote (Width.w64.ofRaw r)))
  | .promote => .ok (Width.toRaw (w := .w64) (p.promote (Width.w32.ofRaw r)))
  | .reinterpret _ => .ok r

/-- An operation with two operands, of which the second was on top. -/
def Binary.eval (p : FloatPolicy) (op : Binary) (a b : Raw) : Except Trap Raw :=
  match op with
  | .int w op => (op.eval (w.ofRaw a) (w.ofRaw b)).map Width.toRaw
  | .intCompare w op => .ok (Raw.ofBool (op.eval (w.ofRaw a) (w.ofRaw b)))
  | .float w op => .ok (Width.toRaw ((p.ops w).binary op (w.ofRaw a) (w.ofRaw b)))
  | .floatCompare w op => .ok (Raw.ofBool ((p.ops w).compare op (w.ofRaw a) (w.ofRaw b)))

end WasmEngine
