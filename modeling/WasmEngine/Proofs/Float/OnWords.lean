import WasmEngine.Float.Policy
import WasmEngine.Proofs.Float.Words

/-!
# Float arithmetic on machine words

The soft policy computes on unbounded integers. A machine has words: patterns
and significands of 64 bits, 128 for what an operation makes of them, and
exponents of 32 bits with a sign. Here are the same algorithms on words, step by
step, with every step checked for what a word cannot hold (`WasmEngine.Breach`).

The masks of a format and the tests for its special patterns are computed on
words as well. Where bits are cut off or set twice on purpose, the step is not a
checked one: the quiet bit of a NaN, the payload of a NaN in the narrower
format, the low half of a raw integer, and the two's complement of a magnitude.
Nor are the shifts in the loops of the root, which are by one bit and by two.
-/

namespace WasmEngine

namespace OnWords

open Word

/-- A finite value by its parts, on words. -/
structure Parts where
  /-- The sign. -/
  negative : Bool
  /-- The significand. -/
  sig : U64
  /-- The exponent of the last bit of the significand. -/
  exp : I32

/-! ### Numbers without a format -/

/-- A right shift that folds all it drops into the lowest bit. The bits dropped
are told by shifting out the others. -/
def shiftRightJam (v : U128) (n : U32) : Checked U128 :=
  if n = 0 then .ok v
  else if n < 128 then do
    let kept ← shiftRight v n
    let distance ← sub 128 n
    let dropped ← shiftOut v distance
    return kept ||| if dropped = 0 then 0 else 1
  else .ok (if v = 0 then 0 else 1)

/-- A significand split at a place, up to that of its own width: what is above
and what is below. -/
def splitAt (sig : U128) (shift : I32) : Checked (U128 × U128) :=
  if shift = 128 then .ok (0, sig)
  else do
    let q ← shiftRight sig shift
    let unit ← shiftLeft (1 : U128) shift
    let mask ← sub unit 1
    return (q, sig &&& mask)

/-- The significand in units of the last place, `shift` places above its own,
rounded to nearest with ties to even. -/
def scale (sig : U128) (shift : I32) : Checked U128 :=
  if shift.sle 0 then do
    let distance ← negSigned shift
    shiftLeft sig distance
  else if (128 : I32).slt shift then .ok 0
  else do
    let r ← splitAt sig shift
    let place ← subSigned shift 1
    let half ← shiftLeft (1 : U128) place
    if half < r.2 ∨ (r.2 = half ∧ r.1 &&& 1 = 1) then add r.1 1 else .ok r.1

/-- The first digit of a root: the highest power of four, from the given one on,
that is not too large. -/
def firstDigit (n bit : U128) : U128 :=
  if n < bit then firstDigit n (bit >>> 2) else bit
termination_by bit.toNat
decreasing_by
  have : n.toNat < bit.toNat := ‹n < bit›
  rw [BitVec.toNat_ushiftRight, Nat.shiftRight_eq_div_pow]
  omega

/-- The digits of a square root, from that of `bit` on. -/
def rootDigits (rem root bit : U128) : Checked (U128 × U128) :=
  if bit = 0 then .ok (root, rem)
  else do
    let trial ← add root bit
    if trial ≤ rem then do
      let rem' ← sub rem trial
      let root' ← add (root >>> 1) bit
      rootDigits rem' root' (bit >>> 2)
    else rootDigits rem (root >>> 1) (bit >>> 2)
termination_by bit.toNat
decreasing_by
  all_goals
    have : bit.toNat ≠ 0 := fun h0 => ‹¬bit = 0› (BitVec.eq_of_toNat_eq h0)
    rw [BitVec.toNat_ushiftRight, Nat.shiftRight_eq_div_pow]
    omega

/-- The square root rounded down, and the remainder. -/
def isqrt (n : U128) : Checked (U128 × U128) := do
  let bit ← shiftLeft (1 : U128) (126 : U32)
  rootDigits n 0 (firstDigit n bit)

section Formats

variable (F : Format)

/-! ### The constants of a format -/

/-- The stored bits of the significand. -/
def mantBits : U32 := BitVec.ofNat 32 F.mantBits

/-- The bits of the biased exponent. -/
def expBits : U32 := BitVec.ofNat 32 F.expBits

/-- The biased exponent of one. -/
def bias : Checked I32 := do
  let place ← sub (expBits F) 1
  let top ← shiftLeft (1 : U32) place
  subSigned (← toSigned top) 1

/-- The biased exponent of infinities and NaNs. -/
def maxExp : Checked U64 := do
  let top ← shiftLeft (1 : U64) (expBits F)
  sub top 1

/-- The sign bit. -/
def signBit : Checked U64 := do
  let place ← add (mantBits F) (expBits F)
  shiftLeft 1 place

/-- The leading bit of a significand. -/
def hiddenBit : Checked U64 := shiftLeft 1 (mantBits F)

/-- The stored bits of a significand, as a mask. -/
def mantMask : Checked U64 := do
  let hidden ← hiddenBit F
  sub hidden 1

/-- The pattern of the positive infinity. -/
def expMask : Checked U64 := do
  let e ← maxExp F
  shiftLeft e (mantBits F)

/-- The bit that tells a quiet NaN from a signalling one. -/
def quietBit : Checked U64 := do
  let place ← sub (mantBits F) 1
  shiftLeft 1 place

/-- The NaN of invalid operations. -/
def canonicalNan : Checked U64 := do
  let e ← expMask F
  let q ← quietBit F
  join e q

/-- The zero of the given sign. -/
def zero (negative : Bool) : Checked U64 := if negative then signBit F else .ok 0

/-- The infinity of the given sign. -/
def infinity (negative : Bool) : Checked U64 := do
  let s ← zero F negative
  let e ← expMask F
  join s e

/-- The exponent of the last bit of the smallest subnormal. -/
def minLsb : Checked I32 := do
  let b ← bias F
  let d ← subSigned 1 b
  subSigned d (← toSigned (mantBits F))

/-! ### Parts of a pattern -/

/-- The pattern without its sign. -/
def magnitude (a : U64) : Checked U64 := do
  let s ← signBit F
  return a &&& ~~~s

/-- Whether the sign bit is set. -/
def negative (a : U64) : Checked Bool := do
  let s ← signBit F
  return a &&& s != 0

/-- The stored exponent. -/
def biasedExp (a : U64) : Checked I32 := do
  let high ← shiftRight a (mantBits F)
  let mask ← maxExp F
  toSigned (high &&& mask)

/-- The stored significand. -/
def mantissa (a : U64) : Checked U64 := do
  let mask ← mantMask F
  return a &&& mask

/-- Whether the pattern is a NaN. -/
def isNan (a : U64) : Checked Bool := do
  let m ← magnitude F a
  let e ← expMask F
  return e < m

/-- Whether the pattern is an infinity. -/
def isInfinite (a : U64) : Checked Bool := do
  let m ← magnitude F a
  let e ← expMask F
  return m == e

/-- Whether the pattern is one of the zeros. -/
def isZero (a : U64) : Checked Bool := do
  let m ← magnitude F a
  return m == 0

/-- The pattern with its quiet bit set. -/
def quiet (a : U64) : Checked U64 := do
  let q ← quietBit F
  return a ||| q

/-- The first NaN among the operands, quieted. -/
def propagate (a b : U64) : Checked (Option U64) := do
  if ← isNan F a then return some (← quiet F a)
  else if ← isNan F b then return some (← quiet F b)
  else return none

/-- The parts of a finite pattern. -/
def unpack (a : U64) : Checked Parts := do
  let s ← negative F a
  let biased ← biasedExp F a
  let mant ← mantissa F a
  let least ← minLsb F
  if biased = 0 then return ⟨s, mant, least⟩
  else do
    let hidden ← hiddenBit F
    let sig ← join hidden mant
    let e ← addSigned biased least
    let exp ← subSigned e 1
    return ⟨s, sig, exp⟩

/-- The parts of a finite pattern other than zero, with the leading bit of the
significand moved to its place. -/
def unpackNormalized (a : U64) : Checked Parts := do
  let v ← unpack F a
  let spare ← sub 63 (mantBits F)
  let shift ← sub (leadingZeros v.sig) spare
  let sig ← shiftLeft v.sig shift
  let d ← toSigned shift
  let exp ← subSigned v.exp d
  return ⟨v.negative, sig, exp⟩

/-! ### Rounding -/

/-- A significand in units of the last place, after the carry that rounding may
have made, and its last place. -/
def carried (q : U128) (lsb : I32) : Checked (U128 × I32) := do
  let beyond ← add (mantBits F) 1
  let carry ← shiftRight q beyond
  if carry = 0 then return (q, lsb)
  else do
    let q' ← shiftRight q (1 : U32)
    let lsb' ← addSigned lsb 1
    return (q', lsb')

/-- The pattern of `q` units of the last place, with no more bits than the
format keeps. -/
def encode (s : Bool) (q : U128) (lsb : I32) : Checked U64 := do
  let sign ← zero F s
  let leading ← shiftRight q (mantBits F)
  let low ← resize 64 q
  -- without the leading bit the value is subnormal, and its exponent is stored as zero
  if leading = 0 then join sign low
  else do
    let mant ← toSigned (mantBits F)
    let b ← bias F
    let e ← addSigned lsb mant
    let biased ← addSigned e b
    let top ← maxExp F
    let top' ← toSigned top
    if top'.sle biased then infinity F s
    else do
      let field ← toUnsigned 64 biased
      let field' ← shiftLeft field (mantBits F)
      let mask ← mantMask F
      let high ← join sign field'
      join high (low &&& mask)

/-- The pattern nearest to `sig * 2 ^ exp`. -/
def roundExact (s : Bool) (sig : U128) (exp : I32) : Checked U64 :=
  if sig = 0 then zero F s
  else do
    let zeros ← toSigned (leadingZeros sig)
    let bits ← subSigned 127 zeros
    let top ← addSigned exp bits
    let mant ← toSigned (mantBits F)
    let last ← subSigned top mant
    let least ← minLsb F
    -- the last place is that of the format, or the lowest there is
    let shift ← subSigned (maxSigned last least) exp
    let q ← scale sig shift
    let r ← carried F q (maxSigned last least)
    encode F s r.1 r.2

/-- **The one rounding**, on words. What is left below the significand makes for
one more bit, which is set. -/
def roundPack (s : Bool) (sig : U128) (exp : I32) (sticky : Bool) : Checked U64 :=
  if sticky then do
    let twice ← shiftLeft sig (1 : U32)
    let sig' ← join twice 1
    let exp' ← subSigned exp 1
    roundExact F s sig' exp'
  else roundExact F s sig exp

/-! ### Arithmetic -/

/-- A significand with 64 extra bits. -/
def extended (sig : U64) : Checked U128 := do
  let wide ← resize 128 sig
  shiftLeft wide (64 : U32)

/-- The sum of two aligned significands with their signs. -/
def combine (s t : Bool) (big small : U128) (exp : I32) : Checked U64 :=
  if s = t then do
    let sum ← add big small
    roundPack F s sum exp false
  else if small < big then do
    let difference ← sub big small
    roundPack F s difference exp false
  else if big < small then do
    let difference ← sub small big
    roundPack F t difference exp false
  else zero F false

/-- The sum of two finite values other than zero, of which the first has the
larger exponent. -/
def addAligned (x y : Parts) : Checked U64 := do
  let exp ← subSigned x.exp 64
  let big ← extended x.sig
  let wide ← extended y.sig
  let apart ← subSigned x.exp y.exp
  let distance ← toUnsigned 32 apart
  let small ← shiftRightJam wide distance
  combine F x.negative y.negative big small exp

/-- The sum of two finite patterns other than zero. -/
def addFinite (a b : U64) : Checked U64 := do
  let x ← unpack F a
  let y ← unpack F b
  if y.exp.sle x.exp then addAligned F x y else addAligned F y x

/-- Addition. -/
def add (a b : U64) : Checked U64 := do
  match ← propagate F a b with
  | some nan => return nan
  | none =>
    let aInf ← isInfinite F a
    let bInf ← isInfinite F b
    let aNeg ← negative F a
    let bNeg ← negative F b
    let aZero ← isZero F a
    let bZero ← isZero F b
    if aInf ∧ bInf ∧ aNeg ≠ bNeg then canonicalNan F
    else if aInf then return a
    else if bInf then return b
    else if aZero ∧ bZero then return a &&& b
    else if aZero then return b
    else if bZero then return a
    else addFinite F a b

/-- Subtraction. -/
def sub (a b : U64) : Checked U64 := do
  match ← propagate F a b with
  | some nan => return nan
  | none =>
    let s ← signBit F
    add F a (b ^^^ s)

/-- Multiplication. -/
def mul (a b : U64) : Checked U64 := do
  match ← propagate F a b with
  | some nan => return nan
  | none =>
    let aInf ← isInfinite F a
    let bInf ← isInfinite F b
    let aNeg ← negative F a
    let bNeg ← negative F b
    let aZero ← isZero F a
    let bZero ← isZero F b
    let s := aNeg != bNeg
    if (aInf ∧ bZero) ∨ (bInf ∧ aZero) then canonicalNan F
    else if aInf ∨ bInf then infinity F s
    else if aZero ∨ bZero then zero F s
    else do
      let x ← unpack F a
      let y ← unpack F b
      let xsig ← resize 128 x.sig
      let ysig ← resize 128 y.sig
      let product ← Word.mul xsig ysig
      let exp ← addSigned x.exp y.exp
      roundPack F s product exp false

/-- The quotient of two finite patterns other than zero, with that sign. -/
def quotient (s : Bool) (a b : U64) : Checked U64 := do
  let x ← unpackNormalized F a
  let y ← unpackNormalized F b
  let shift ← Word.add (mantBits F) 4
  let wide ← resize 128 x.sig
  let dividend ← shiftLeft wide shift
  let divisor ← resize 128 y.sig
  let q ← Word.div dividend divisor
  let r ← rem dividend divisor
  let e ← subSigned x.exp y.exp
  let d ← toSigned shift
  let exp ← subSigned e d
  roundPack F s q exp (r != 0)

/-- Division. -/
def div (a b : U64) : Checked U64 := do
  match ← propagate F a b with
  | some nan => return nan
  | none =>
    let aInf ← isInfinite F a
    let bInf ← isInfinite F b
    let aNeg ← negative F a
    let bNeg ← negative F b
    let aZero ← isZero F a
    let bZero ← isZero F b
    let s := aNeg != bNeg
    if (aInf ∧ bInf) ∨ (aZero ∧ bZero) then canonicalNan F
    else if aInf ∨ bZero then infinity F s
    else if bInf ∨ aZero then zero F s
    else quotient F s a b

/-- The extra bits of a radicand: an even number, so that its exponent can be
halved. -/
def rootShift : Checked U32 := do
  let extra ← Word.add (mantBits F) 6
  return extra &&& ~~~1

/-- The same value with an even exponent: its significand and that exponent. -/
def evened (v : Parts) : Checked (U64 × I32) :=
  if v.exp &&& 1 != 0 then do
    let sig ← shiftLeft v.sig (1 : U32)
    let exp ← subSigned v.exp 1
    return (sig, exp)
  else return (v.sig, v.exp)

/-- The root of a finite positive pattern other than zero. -/
def root (a : U64) : Checked U64 := do
  let v ← unpackNormalized F a
  let x ← evened v
  let shift ← rootShift F
  let wide ← resize 128 x.1
  let radicand ← shiftLeft wide shift
  let r ← isqrt radicand
  let d ← toSigned shift
  let e ← subSigned x.2 d
  let half ← divSigned e 2
  roundPack F false r.1 half (r.2 != 0)

/-- Square root. -/
def sqrt (a : U64) : Checked U64 := do
  if ← isNan F a then quiet F a
  else if ← isZero F a then return a
  else if ← negative F a then canonicalNan F
  else if ← isInfinite F a then return a
  else root F a

/-! ### Integral values -/

/-- A pattern of the given exponent, which is one of those between one and the
last with a fraction, at an integral value next to it. -/
def dropFraction (mode : Rounding) (s : Bool) (exp : I32) (a : U64) : Checked U64 := do
  let places ← toUnsigned 32 exp
  let fraction ← Word.sub (mantBits F) places
  let unit ← shiftLeft (1 : U64) fraction
  let below ← Word.sub unit 1
  let frac := a &&& below
  let base := a &&& ~~~below
  let half ← shiftRight unit (1 : U32)
  -- a unit more carries into the exponent where it has to
  if frac = 0 then return a
  else if mode.away s (half < frac || (frac == half && base &&& unit != 0)) then Word.add base unit
  else return base

/-- The integral value next to one below one, which is zero or one. -/
def belowOne (mode : Rounding) (s : Bool) (b exp : I32) (m : U64) : Checked U64 := do
  let field ← toUnsigned 64 b
  let one ← shiftLeft field (mantBits F)
  let sign ← zero F s
  join sign (if mode.away s (exp == -1 && m != 0) then one else 0)

/-- The integral value next to a pattern, in the given direction. -/
def roundToInt (mode : Rounding) (a : U64) : Checked U64 := do
  if ← isNan F a then quiet F a
  else if (← isInfinite F a) ∨ (← isZero F a) then return a
  else do
    let s ← negative F a
    let biased ← biasedExp F a
    let m ← mantissa F a
    let b ← bias F
    let exp ← subSigned biased b
    let mant ← toSigned (mantBits F)
    if mant.sle exp then return a
    else if exp.slt 0 then belowOne F mode s b exp m
    else dropFraction F mode s exp a

/-! ### Comparisons -/

/-- Equality of values. -/
def eq (a b : U64) : Checked Bool := do
  let aNan ← isNan F a
  let bNan ← isNan F b
  let aZero ← isZero F a
  let bZero ← isZero F b
  return !aNan && !bNan && (a == b || (aZero && bZero))

/-- The order of values. -/
def lt (a b : U64) : Checked Bool := do
  let aNan ← isNan F a
  let bNan ← isNan F b
  let aZero ← isZero F a
  let bZero ← isZero F b
  if aNan ∨ bNan ∨ (aZero ∧ bZero) then return false
  else do
    let aNeg ← negative F a
    let bNeg ← negative F b
    let aMag ← magnitude F a
    let bMag ← magnitude F b
    match aNeg, bNeg with
    | true, false => return true
    | false, true => return false
    | false, false => return a < b
    | true, true => return bMag < aMag

/-- The order of values, equality included. -/
def le (a b : U64) : Checked Bool := do
  let less ← lt F a b
  let same ← eq F a b
  return less || same

/-! ### Conversions -/

/-- A finite pattern of another format. -/
def ofFormat (G : Format) (a : U64) : Checked U64 := do
  let v ← unpack G a
  let sig ← resize 128 v.sig
  roundPack F v.negative sig v.exp false

/-- The sign and the magnitude of the integer a word denotes. -/
def signMagnitude : IntTarget → Raw → Bool × U64
  | .i32, r => (r.low.msb, r.low.abs.setWidth 64)
  | .u32, r => (false, r.low.setWidth 64)
  | .i64, r => (r.msb, r.abs)
  | .u64, r => (false, r)

/-- An integer, given as a word. -/
def ofInt (t : IntTarget) (r : Raw) : Checked U64 := do
  let v := signMagnitude t r
  let sig ← resize 128 v.2
  roundPack F v.1 sig 0 false

/-- The word for a sign and a magnitude that the range has. -/
def twosComplement : IntTarget → Bool → U64 → Checked Raw
  | .i32, true, m => do
    let low ← resize 32 m
    return (-low).setWidth 64
  | .i64, true, m => return -m
  | _, _, m => return m

/-- The word for a sign and a magnitude, if the range has that integer. -/
def ofSignMagnitude? (t : IntTarget) (s : Bool) (m : U64) : Checked (Option Raw) :=
  if BitVec.ofNat 64 (t.limit s) < m then .ok none
  else do
    let r ← twosComplement t s m
    return some r

/-- The magnitude of a value without its fraction, if it is not too large. -/
def integerPart (v : Parts) : Checked U128 :=
  if (0 : I32).sle v.exp then do
    let wide ← resize 128 v.sig
    shiftLeft wide v.exp
  else if (-64 : I32).slt v.exp then do
    let distance ← negSigned v.exp
    let low ← shiftRight v.sig distance
    resize 128 low
  else .ok 0

/-- The word for a sign and a wide magnitude, or a trap. -/
def integerOf (t : IntTarget) (s : Bool) (m : U128) : Checked (Except Trap Raw) :=
  if 2 ^ 64 ≤ m.toNat then .ok (.error .integerOverflow)
  else do
    let low ← resize 64 m
    match ← ofSignMagnitude? t s low with
    | some r => return .ok r
    | none => return .error .integerOverflow

/-- The word of a pattern rounded toward zero. -/
def toInt (t : IntTarget) (a : U64) : Checked (Except Trap Raw) := do
  if ← isNan F a then return .error .invalidConversion
  else if ← isInfinite F a then return .error .integerOverflow
  else if ← isZero F a then return .ok 0
  else do
    let v ← unpack F a
    let mant ← toSigned (mantBits F)
    let most ← subSigned 64 mant
    -- at least `2 ^ 64`, and out of every range
    if most.slt v.exp then return .error .integerOverflow
    else do
      let m ← integerPart v
      integerOf t v.negative m

/-! ### Between the formats -/

/-- The 32-bit NaN for a 64-bit one. -/
def demoteNan (a : U64) : Checked U32 := do
  let top ← shiftRight a (63 : U32)
  let top' ← resize 32 top
  let sign ← shiftLeft top' (31 : U32)
  let nan ← canonicalNan .f32
  let nan' ← resize 32 nan
  let narrowing ← Word.sub (mantBits .f64) (mantBits .f32)
  let high ← shiftRight a narrowing
  let mask ← mantMask .f32
  let mask' ← resize 32 mask
  return sign ||| nan' ||| (high.setWidth 32 &&& mask')

/-- The 64-bit NaN for a 32-bit one. -/
def promoteNan (a : U32) : Checked U64 := do
  let top ← shiftRight a (31 : U32)
  let top' ← resize 64 top
  let sign ← shiftLeft top' (63 : U32)
  let nan ← canonicalNan .f64
  let wide ← resize 64 a
  let mask ← mantMask .f32
  let widening ← Word.sub (mantBits .f64) (mantBits .f32)
  let payload ← shiftLeft (wide &&& mask) widening
  return sign ||| nan ||| payload

end Formats

/-! ### The policy -/

/-- A 64-bit pattern at 32 bits. -/
def demote (a : U64) : Checked U32 := do
  if ← isNan .f64 a then demoteNan a
  else if ← isInfinite .f64 a then resize 32 (← infinity .f32 (← negative .f64 a))
  else if ← isZero .f64 a then resize 32 (← zero .f32 (← negative .f64 a))
  else resize 32 (← ofFormat .f32 .f64 a)

/-- A 32-bit pattern at 64 bits. -/
def promote (a : U32) : Checked U64 := do
  let wide ← resize 64 a
  if ← isNan .f32 wide then promoteNan a
  else if ← isInfinite .f32 wide then infinity .f64 (← negative .f32 wide)
  else if ← isZero .f32 wide then zero .f64 (← negative .f32 wide)
  else ofFormat .f64 .f32 wide

variable {w : Width}

/-- A function on 64-bit words, at the width of the patterns. -/
def lift (f : U64 → Checked U64) (a : Pattern w) : Checked (Pattern w) := do
  let x ← resize 64 a
  let r ← f x
  resize w.bits r

/-- A function on two 64-bit words, at the width of the patterns. -/
def lift₂ (f : U64 → U64 → Checked U64) (a b : Pattern w) : Checked (Pattern w) := do
  let x ← resize 64 a
  let y ← resize 64 b
  let r ← f x y
  resize w.bits r

/-- A test of two 64-bit words, at the width of the patterns. -/
def test (f : U64 → U64 → Checked Bool) (a b : Pattern w) : Checked Bool := do
  let x ← resize 64 a
  let y ← resize 64 b
  f x y

/-- One of two operands, by the NaN rule, by what there is to say of two zeros,
or else by a test. -/
def choose (zeros : Pattern w → Pattern w → Pattern w) (less : Pattern w → Pattern w → Checked Bool)
    (a b : Pattern w) : Checked (Pattern w) := do
  let x ← resize 64 a
  let y ← resize 64 b
  match ← propagate w.format x y with
  | some nan => resize w.bits nan
  | none =>
    let aZero ← isZero w.format x
    let bZero ← isZero w.format y
    if aZero ∧ bZero then return zeros a b
    else if ← less a b then return a
    else return b

/-- A float operation with one operand. -/
def unary (op : FloatUnary) (a : Pattern w) : Checked (Pattern w) :=
  match op with
  | .abs => return a &&& ~~~ FloatOps.signMask w
  | .neg => return a ^^^ FloatOps.signMask w
  | .ceil => lift (roundToInt w.format .ceil) a
  | .floor => lift (roundToInt w.format .floor) a
  | .trunc => lift (roundToInt w.format .trunc) a
  | .nearest => lift (roundToInt w.format .nearest) a
  | .sqrt => lift (sqrt w.format) a

/-- A float operation with two operands. -/
def binary (op : FloatBinary) (a b : Pattern w) : Checked (Pattern w) :=
  match op with
  | .add => lift₂ (add w.format) a b
  | .sub => lift₂ (sub w.format) a b
  | .mul => lift₂ (mul w.format) a b
  | .div => lift₂ (div w.format) a b
  | .min => choose (· ||| ·) (fun a b => test (lt w.format) a b) a b
  | .max => choose (· &&& ·) (fun a b => test (lt w.format) b a) a b
  | .copysign => return (a &&& ~~~ FloatOps.signMask w) ||| (b &&& FloatOps.signMask w)

/-- A comparison of floats. -/
def compare (op : FloatCompare) (a b : Pattern w) : Checked Bool :=
  match op with
  | .eq => test (eq w.format) a b
  | .ne => return !(← test (eq w.format) a b)
  | .lt => test (lt w.format) a b
  | .gt => test (lt w.format) b a
  | .le => test (le w.format) a b
  | .ge => test (le w.format) b a

/-- The float nearest to an integer. -/
def convert (w : Width) (t : IntTarget) (r : Raw) : Checked (Pattern w) := do
  let a ← ofInt w.format t r
  resize w.bits a

/-- The integer toward zero, or a trap. -/
def truncate (t : IntTarget) (a : Pattern w) : Checked (Except Trap Raw) := do
  let x ← resize 64 a
  toInt w.format t x

/-- The integer toward zero, clamped to the range; zero for a NaN. -/
def truncateSat (t : IntTarget) (a : Pattern w) : Checked Raw := do
  let x ← resize 64 a
  let s ← negative w.format x
  match ← truncate t a with
  | .ok r => return r
  | .error .invalidConversion => return 0
  | .error _ => return if s then t.minRaw else t.maxRaw

end OnWords

end WasmEngine
