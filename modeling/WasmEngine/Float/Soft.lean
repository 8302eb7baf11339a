import WasmEngine.Error
import WasmEngine.Float.Format
import WasmEngine.Float.IntTarget

/-!
# Float arithmetic on integers

Every operation takes patterns apart into a sign, an integral **significand**
and the exponent of its last bit, computes on those exactly or with enough extra
bits, and rounds once, to nearest with ties to even (`Format.roundPack`).
Results do not depend on any float unit.

The extra bits are the only thing to see to. A sum is aligned with 64 of them,
and what falls off below is folded into the last (`shiftRightJam`); a quotient
and a root carry a few more bits than the format keeps and tell the rounding by
a **sticky** flag that something non-zero is left below.
-/

namespace WasmEngine

/-- A finite value by its parts: `sig * 2 ^ exp`, negated if `negative` is set. -/
structure Unpacked where
  /-- The sign. -/
  negative : Bool
  /-- The significand, an integer. -/
  sig : Nat
  /-- The exponent of the last bit of the significand. -/
  exp : Int
  deriving DecidableEq

/-- The four ways to round to an integral value. -/
inductive Rounding
  /-- Up. -/
  | ceil
  /-- Down. -/
  | floor
  /-- Toward zero. -/
  | trunc
  /-- To nearest, ties to even. -/
  | nearest
  deriving DecidableEq

/-- Whether rounding moves away from zero, given what a mode to nearest decides. -/
def Rounding.away (mode : Rounding) (negative nearest : Bool) : Bool :=
  match mode with
  | .trunc => false
  | .floor => negative
  | .ceil => !negative
  | .nearest => nearest

/-- A right shift that folds all it drops into the lowest bit. -/
def shiftRightJam (v n : Nat) : Nat :=
  if v % (1 <<< n) = 0 then v >>> n else v >>> n ||| 1

/-- A right shift that rounds to nearest, ties to even. -/
def shiftRightRound (v n : Nat) : Nat :=
  let q := v >>> n
  let rem := v % (1 <<< n)
  let half := 1 <<< (n - 1)
  if half < rem ∨ (rem = half ∧ q % 2 = 1) then q + 1 else q

/-- The digits of a square root, `k` of them still to come: the root so far is
aligned to what is left of the radicand. -/
def isqrtSteps : (k : Nat) → (rem root : Nat) → Nat × Nat
  | 0, rem, root => (root, rem)
  | k + 1, rem, root =>
    let bit := 1 <<< (2 * k)
    if root + bit ≤ rem then isqrtSteps k (rem - (root + bit)) (root / 2 + bit)
    else isqrtSteps k rem (root / 2)

/-- The square root of a number below `2 ^ 128`, rounded down, and the remainder. -/
def isqrt (n : Nat) : Nat × Nat := isqrtSteps 64 n 0

namespace Format

variable (F : Format)

/-! ### Parts of a pattern, and rounding -/

/-- The parts of a finite pattern. -/
def unpack (a : Nat) : Unpacked :=
  if F.biasedExp a = 0 then ⟨F.negative a, F.mantissa a, F.minLsb⟩
  else ⟨F.negative a, F.mantissa a + F.hiddenBit, F.biasedExp a + F.minLsb - 1⟩

/-- The parts of a finite pattern other than zero, with as many bits in the
significand as the format keeps. -/
def unpackNormalized (a : Nat) : Unpacked :=
  let v := F.unpack a
  let shift := F.mantBits - Nat.log2 v.sig
  { v with sig := v.sig <<< shift, exp := v.exp - shift }

/-- **The one rounding.** The pattern nearest to `sig * 2 ^ exp`, or with
`sticky` to any value strictly between that and `(sig + 1) * 2 ^ exp`, ties to
even; infinity if the nearest is too large. With `sticky` the significand has at
least two bits more than the format keeps. -/
def roundPack (negative : Bool) (sig : Nat) (exp : Int) (sticky : Bool) : Nat :=
  let sig' := if sticky then 2 * sig + 1 else sig
  let exp' := if sticky then exp - 1 else exp
  if sig' = 0 then F.zero negative
  else
    let top := exp' + Nat.log2 sig'
    let lsb := max (top - F.mantBits) F.minLsb
    let shift := lsb - exp'
    let q := if shift ≤ 0 then sig' <<< (-shift).toNat else shiftRightRound sig' shift.toNat
    let carry := 2 * F.hiddenBit ≤ q
    let q' := if carry then q / 2 else q
    let lsb' := if carry then lsb + 1 else lsb
    if q' < F.hiddenBit then F.zero negative + q'
    else
      let biased := lsb' + F.mantBits + F.bias
      if F.maxExp ≤ biased then F.infinity negative
      else F.zero negative + biased.toNat * F.hiddenBit + q' % F.hiddenBit

/-! ### Arithmetic -/

/-- The sum of two finite values other than zero, of which the first has the
larger exponent. -/
def addAligned (x y : Unpacked) : Nat :=
  let exp := x.exp - 64
  let big := x.sig <<< 64
  let small := shiftRightJam (y.sig <<< 64) (x.exp - y.exp).toNat
  if x.negative = y.negative then F.roundPack x.negative (big + small) exp false
  else if small < big then F.roundPack x.negative (big - small) exp false
  else if big < small then F.roundPack y.negative (small - big) exp false
  else F.zero false

/-- Addition. -/
def add (a b : Nat) : Nat :=
  match F.propagate a b with
  | some nan => nan
  | none =>
    if F.isInfinite a ∧ F.isInfinite b ∧ F.negative a ≠ F.negative b then F.canonicalNan
    else if F.isInfinite a then a
    else if F.isInfinite b then b
    else if F.isZero a ∧ F.isZero b then a &&& b
    else if F.isZero a then b
    else if F.isZero b then a
    else
      let x := F.unpack a
      let y := F.unpack b
      if y.exp ≤ x.exp then F.addAligned x y else F.addAligned y x

/-- Subtraction. -/
def sub (a b : Nat) : Nat :=
  match F.propagate a b with
  | some nan => nan
  | none => F.add a (b ^^^ F.signBit)

/-- Multiplication. -/
def mul (a b : Nat) : Nat :=
  match F.propagate a b with
  | some nan => nan
  | none =>
    let negative := F.negative a != F.negative b
    if (F.isInfinite a ∧ F.isZero b) ∨ (F.isInfinite b ∧ F.isZero a) then F.canonicalNan
    else if F.isInfinite a ∨ F.isInfinite b then F.infinity negative
    else if F.isZero a ∨ F.isZero b then F.zero negative
    else
      let x := F.unpack a
      let y := F.unpack b
      F.roundPack negative (x.sig * y.sig) (x.exp + y.exp) false

/-- Division. -/
def div (a b : Nat) : Nat :=
  match F.propagate a b with
  | some nan => nan
  | none =>
    let negative := F.negative a != F.negative b
    if (F.isInfinite a ∧ F.isInfinite b) ∨ (F.isZero a ∧ F.isZero b) then F.canonicalNan
    else if F.isInfinite a ∨ F.isZero b then F.infinity negative
    else if F.isInfinite b ∨ F.isZero a then F.zero negative
    else
      let x := F.unpackNormalized a
      let y := F.unpackNormalized b
      let shift := F.mantBits + 4
      let dividend := x.sig <<< shift
      F.roundPack negative (dividend / y.sig) (x.exp - y.exp - shift) (dividend % y.sig != 0)

/-- Square root. -/
def sqrt (a : Nat) : Nat :=
  if F.isNan a then F.quiet a
  else if F.isZero a then a
  else if F.negative a then F.canonicalNan
  else if F.isInfinite a then a
  else
    let v := F.unpackNormalized a
    let odd := v.exp % 2 ≠ 0
    let sig := if odd then 2 * v.sig else v.sig
    let exp := if odd then v.exp - 1 else v.exp
    let shift := (F.mantBits + 6) / 2 * 2
    let r := isqrt (sig <<< shift)
    F.roundPack false r.1 ((exp - shift) / 2) (r.2 != 0)

/-! ### Integral values -/

/-- The integral value next to a pattern, in the given direction. Adding a unit
of the last integral place to the pattern carries into the exponent where it has
to. -/
def roundToInt (mode : Rounding) (a : Nat) : Nat :=
  if F.isNan a then F.quiet a
  else if F.isInfinite a ∨ F.isZero a then a
  else
    let negative := F.negative a
    let biased := F.biasedExp a
    if F.bias + F.mantBits ≤ biased then a
    else if biased < F.bias then
      let away := mode.away negative (biased + 1 == F.bias && F.mantissa a != 0)
      F.zero negative + if away then F.bias * F.hiddenBit else 0
    else
      let unit := 1 <<< (F.bias + F.mantBits - biased)
      let frac := a % unit
      if frac = 0 then a
      else
        let base := a - frac
        let half := unit / 2
        let odd := base / unit % 2 == 1
        let away := mode.away negative (half < frac || (frac == half && odd))
        if away then base + unit else base

/-! ### Comparisons -/

/-- Equality of values. -/
def eq (a b : Nat) : Bool :=
  !F.isNan a && !F.isNan b && (a == b || (F.isZero a && F.isZero b))

/-- The order of values. -/
def lt (a b : Nat) : Bool :=
  if F.isNan a ∨ F.isNan b ∨ (F.isZero a ∧ F.isZero b) then false
  else
    match F.negative a, F.negative b with
    | true, false => true
    | false, true => false
    | false, false => a < b
    | true, true => F.magnitude b < F.magnitude a

/-- The order of values, equality included. -/
def le (a b : Nat) : Bool := F.lt a b || F.eq a b

/-! ### Conversions -/

/-- A finite pattern of another format. -/
def ofFormat (G : Format) (a : Nat) : Nat :=
  let v := G.unpack a
  F.roundPack v.negative v.sig v.exp false

/-- An integer, given as a word. -/
def ofInt (t : IntTarget) (r : Raw) : Nat :=
  let v := t.signMagnitude r
  F.roundPack v.1 v.2 0 false

/-- The word of a pattern rounded toward zero. -/
def toInt (t : IntTarget) (a : Nat) : Except Trap Raw :=
  if F.isNan a then .error .invalidConversion
  else if F.isInfinite a then .error .integerOverflow
  else if F.isZero a then .ok 0
  else
    let v := F.unpack a
    if 64 - (F.mantBits : Int) < v.exp then .error .integerOverflow
    else
      let magnitude := if 0 ≤ v.exp then v.sig <<< v.exp.toNat else v.sig >>> (-v.exp).toNat
      match t.ofSignMagnitude? v.negative magnitude with
      | some r => .ok r
      | none => .error .integerOverflow

end Format

/-! ### Between the formats -/

/-- A 64-bit pattern at 32 bits. -/
def softDemote (a : Nat) : Nat :=
  if Format.f64.isNan a then demoteNan a
  else if Format.f64.isInfinite a then Format.f32.infinity (Format.f64.negative a)
  else if Format.f64.isZero a then Format.f32.zero (Format.f64.negative a)
  else Format.f32.ofFormat .f64 a

/-- A 32-bit pattern at 64 bits. -/
def softPromote (a : Nat) : Nat :=
  if Format.f32.isNan a then promoteNan a
  else if Format.f32.isInfinite a then Format.f64.infinity (Format.f32.negative a)
  else if Format.f32.isZero a then Format.f64.zero (Format.f32.negative a)
  else Format.f64.ofFormat .f32 a

end WasmEngine
