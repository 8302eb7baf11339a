import WasmEngine.Decimal.Shortest

/-!
# Float formats and the NaN rule

A binary interchange format is two numbers: how many bits its mantissa and its
exponent have. All the rest, the masks, the special patterns and the tests for
them, follows, so every operation is written once for both formats. A
**pattern** is a natural number below `2 * F.signBit`.

The **NaN rule** is stated here and shared by every policy:

* an operation with a NaN operand returns the first such operand with its quiet
  bit set;
* an invalid operation on other operands returns the positive canonical NaN;
* a change of width keeps sign and payload as far as they fit, and sets the
  quiet bit.
-/

namespace WasmEngine

/-- The layout of a binary float format. -/
structure Format where
  /-- The stored bits of the significand. -/
  mantBits : Nat
  /-- The bits of the biased exponent. -/
  expBits : Nat
  deriving DecidableEq

namespace Format

/-- The 32-bit format. -/
def f32 : Format := ⟨23, 8⟩

/-- The 64-bit format. -/
def f64 : Format := ⟨52, 11⟩

variable (F : Format)

/-- The biased exponent of one. -/
def bias : Nat := 1 <<< (F.expBits - 1) - 1

/-- The biased exponent of infinities and NaNs, all ones. -/
def maxExp : Nat := 1 <<< F.expBits - 1

/-- The sign bit. -/
def signBit : Nat := 1 <<< (F.mantBits + F.expBits)

/-- The leading bit of a significand, which is not stored. -/
def hiddenBit : Nat := 1 <<< F.mantBits

/-- The pattern of the positive infinity: all exponent bits. -/
def expMask : Nat := F.maxExp * F.hiddenBit

/-- The bit that tells a quiet NaN from a signalling one. -/
def quietBit : Nat := 1 <<< (F.mantBits - 1)

/-- The NaN of invalid operations. -/
def canonicalNan : Nat := F.expMask + F.quietBit

/-- The sign bit, if it is wanted. -/
def zero (negative : Bool) : Nat := if negative then F.signBit else 0

/-- The infinity of the given sign. -/
def infinity (negative : Bool) : Nat := F.expMask + F.zero negative

/-- The pattern without its sign. -/
def magnitude (a : Nat) : Nat := a % F.signBit

/-- Whether the sign bit is set. -/
def negative (a : Nat) : Bool := a / F.signBit % 2 == 1

/-- The stored exponent of a pattern. -/
def biasedExp (a : Nat) : Nat := a / F.hiddenBit % (F.maxExp + 1)

/-- The stored significand of a pattern. -/
def mantissa (a : Nat) : Nat := a % F.hiddenBit

/-- Whether the pattern is a NaN. -/
def isNan (a : Nat) : Bool := F.expMask < F.magnitude a

/-- Whether the pattern is an infinity. -/
def isInfinite (a : Nat) : Bool := F.magnitude a == F.expMask

/-- Whether the pattern is one of the zeros. -/
def isZero (a : Nat) : Bool := F.magnitude a == 0

/-- The pattern with its quiet bit set. -/
def quiet (a : Nat) : Nat := a ||| F.quietBit

/-- **The NaN rule for operands**: the first NaN among them, quieted. -/
def propagate (a b : Nat) : Option Nat :=
  if F.isNan a then some (F.quiet a)
  else if F.isNan b then some (F.quiet b)
  else none

/-- **The NaN rule for results**: what an operation whose result is a NaN
returns. -/
def nanResult (a b : Nat) : Nat := (F.propagate a b).getD F.canonicalNan

/-- The exponent of the last bit of the smallest subnormal, below which no
result bit lies. -/
def minLsb : Int := 1 - F.bias - F.mantBits

/-- The decimal text of a pattern: the shortest that reads back, never with an
exponent. -/
def text (a : Nat) : String :=
  if F.isNan a then "NaN"
  else
    let sign := if F.negative a then "-" else ""
    if F.isInfinite a then sign ++ "inf"
    else if F.isZero a then sign ++ "0"
    else
      let e := F.biasedExp a
      let m := F.mantissa a
      let interval : Decimal.Interval :=
        if e = 0 then ⟨m, F.minLsb, 2, m % 2 == 0⟩
        else ⟨m + F.hiddenBit, F.minLsb + e - 1, if m = 0 ∧ 1 < e then 1 else 2, m % 2 == 0⟩
      sign ++ Decimal.positional interval.shortest

end Format

/-! ### NaNs across formats -/

/-- The 32-bit NaN for a 64-bit one: the sign and the upper payload bits,
quieted. -/
def demoteNan (a : Nat) : Nat :=
  Format.f32.zero (Format.f64.negative a) +
    Format.f32.quiet (Format.f32.expMask + Format.f64.mantissa a >>> 29)

/-- The 64-bit NaN for a 32-bit one: the sign and the widened payload, quieted. -/
def promoteNan (a : Nat) : Nat :=
  Format.f64.zero (Format.f32.negative a) +
    Format.f64.quiet (Format.f64.expMask + Format.f32.mantissa a <<< 29)

end WasmEngine
