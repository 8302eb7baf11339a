import Mathlib.Algebra.Order.Floor.Ring
import Mathlib.Analysis.Real.Sqrt
import Mathlib.Tactic.FieldSimp
import WasmEngine.Proofs.Float.Value

/-!
# What arithmetic asks for

Every operation has an **exact result** (`WasmEngine.Exact`): none, an infinity,
or a real number, for which a sign is given in case it is zero. A pattern
**delivers** an exact result (`WasmEngine.Format.Delivers`) if it is what the
standard for binary floating point asks for: a NaN, that infinity, or the number
rounded to nearest with ties to even (`WasmEngine.Format.Rounds`). Which NaN is
left open; all else is determined (`WasmEngine.Format.Delivers.unique`).

Rounding is stated on values. For proofs it comes down to magnitudes, which are
natural numbers (`WasmEngine.Format.Closest`): of two magnitudes equally close,
with none closer in between, one is odd.
-/

namespace WasmEngine

/-- The exact result of an operation. -/
inductive Exact
  /-- There is none: an operand is a NaN or the operation is invalid. -/
  | nan
  /-- An infinity. -/
  | infinite (negative : Bool)
  /-- A number, and the sign that it has if it is zero. -/
  | finite (x : ℝ) (negative : Bool)

namespace Format

variable (F : Format)

/-- A pattern with a finite value. -/
def Finite (a : Nat) : Prop := F.magnitude a < F.expMask

/-- **Correct rounding.** The pattern nearest to a number, of two the one whose
last bit is zero; an infinity if the number is too large. The sign is not
considered here. -/
inductive Rounds (x : ℝ) (r : Nat) : Prop
  /-- A number of moderate size goes to the nearest finite value. -/
  | nearest (hx : |x| < F.threshold) (hr : F.Finite r) (near : ∀ c, F.Finite c →
    |x - F.value r| ≤ |x - F.value c|)
      (even : ∀ c, F.Finite c → F.value c ≠ F.value r → |x - F.value r| = |x - F.value c| → Even r)
  /-- A larger one goes to an infinity. -/
  | overflow (hx : F.threshold ≤ |x|) (hr : F.isInfinite r)

/-- **What a pattern has to be to deliver an exact result.** -/
def Delivers (e : Exact) (r : Nat) : Prop :=
  match e with
  | .nan => F.isNan r
  | .infinite s => r = F.infinity s
  | .finite x s => F.Rounds x r ∧ (F.negative r ↔ x < 0 ∨ (x = 0 ∧ s))

/-! ### The exact results of the operations -/

/-- The exact result of an operation on a pattern, given that for a pattern
other than a NaN. -/
def ofOperand (a : Nat) (e : Exact) : Exact := if F.isNan a then .nan else e

/-- The exact result of an operation on two patterns, given that for patterns
other than NaNs. -/
def ofOperands (a b : Nat) (e : Exact) : Exact := if F.isNan a ∨ F.isNan b then .nan else e

/-- The exact sum. A sum of zero is negative only if both operands are. -/
noncomputable def exactAdd (a b : Nat) : Exact :=
  F.ofOperands a b <|
    if F.isInfinite a ∧ F.isInfinite b ∧ F.negative a ≠ F.negative b then .nan
    else if F.isInfinite a then .infinite (F.negative a)
    else if F.isInfinite b then .infinite (F.negative b)
    else .finite (F.value a + F.value b) (F.negative a && F.negative b)

/-- The exact difference. A difference of zero is negative only if the first
operand is and the second is not. -/
noncomputable def exactSub (a b : Nat) : Exact :=
  F.ofOperands a b <|
    if F.isInfinite a ∧ F.isInfinite b ∧ F.negative a = F.negative b then .nan
    else if F.isInfinite a then .infinite (F.negative a)
    else if F.isInfinite b then .infinite (!F.negative b)
    else .finite (F.value a - F.value b) (F.negative a && !F.negative b)

/-- The exact product. -/
noncomputable def exactMul (a b : Nat) : Exact :=
  F.ofOperands a b <|
    if (F.isInfinite a ∧ F.isZero b) ∨ (F.isInfinite b ∧ F.isZero a) then .nan
    else if F.isInfinite a ∨ F.isInfinite b then .infinite (F.negative a != F.negative b)
    else .finite (F.value a * F.value b) (F.negative a != F.negative b)

/-- The exact quotient. -/
noncomputable def exactDiv (a b : Nat) : Exact :=
  F.ofOperands a b <|
    if (F.isInfinite a ∧ F.isInfinite b) ∨ (F.isZero a ∧ F.isZero b) then .nan
    else if F.isInfinite a ∨ F.isZero b then .infinite (F.negative a != F.negative b)
    else if F.isInfinite b then .finite 0 (F.negative a != F.negative b)
    else .finite (F.value a / F.value b) (F.negative a != F.negative b)

/-- The exact square root. The root of a zero is that zero. -/
noncomputable def exactSqrt (a : Nat) : Exact :=
  F.ofOperand a <|
    if F.negative a ∧ ¬F.isZero a then .nan
    else if F.isInfinite a then .infinite false
    else .finite (√(F.value a)) (F.negative a)

end Format

/-- The integer nearest to a number, of two the even one. -/
noncomputable def nearestEven (x : ℝ) : Int :=
  if x - ⌊x⌋ < ⌊x⌋ + 1 - x ∨ (x - ⌊x⌋ = ⌊x⌋ + 1 - x ∧ Even ⌊x⌋) then ⌊x⌋ else ⌊x⌋ + 1

/-- The integer toward zero. -/
noncomputable def truncate (x : ℝ) : Int := if 0 ≤ x then ⌊x⌋ else ⌈x⌉

/-- The integer next to a number, in the given direction. -/
noncomputable def Rounding.integral (mode : Rounding) (x : ℝ) : Int :=
  match mode with
  | .ceil => ⌈x⌉
  | .floor => ⌊x⌋
  | .trunc => truncate x
  | .nearest => nearestEven x

namespace Format

variable (F : Format)

/-- The exact integral value of a pattern. A zero has the sign of the operand. -/
noncomputable def exactRound (mode : Rounding) (a : Nat) : Exact :=
  F.ofOperand a <|
    if F.isInfinite a then .infinite (F.negative a)
    else .finite (mode.integral (F.value a)) (F.negative a)

/-- The exact value of a pattern, as the result of a change of format. -/
noncomputable def exactValue (a : Nat) : Exact :=
  F.ofOperand a <| if F.isInfinite a then .infinite (F.negative a) else .finite
    (F.value a) (F.negative a)

end Format

end WasmEngine
