import Mathlib.Data.Nat.Bitwise
import Mathlib.Tactic.Ring
import WasmEngine.Numeric.Eval

/-!
# Integer instructions compute integers

A word of 64 bits stands for an integer of either width, and for two of them:
one without a sign (`WasmEngine.Width.unsigned`) and one in two's complement
(`WasmEngine.Width.signed`). Both look at the low bits of the word only, so that
at 32 bits the high half of an operand does not matter.

The integer instructions are described by these integers alone
(`WasmEngine.Integers.Exact`). Divisions trap where there is no quotient of the
width and else divide toward zero (`Divisions`); sums, differences and products
are taken modulo the width (`Wrapping`); shifts are products and quotients with
powers of two, and rotations move bits around, both by a count modulo the width
(`Shifts`); the bit counts look for bits that are set (`Counts`); and
comparisons are those of the integers (`Comparisons`). This holds of all
operands (`WasmEngine.Integers.instructions_exact`).
-/

namespace WasmEngine

/-! ### The integers of a word -/

namespace Width

variable (w : Width)

/-- The integer that a word stands for without a sign. -/
def unsigned (r : Raw) : Nat := r.toNat % 2 ^ w.bits

/-- The integer that a word stands for in two's complement. -/
def signed (r : Raw) : Int :=
  if 2 * w.unsigned r < 2 ^ w.bits then w.unsigned r else w.unsigned r - 2 ^ w.bits

/-- The word of an integer modulo the width. -/
def word (v : Int) : Raw := BitVec.ofInt 64 (v % 2 ^ w.bits)

theorem bits_le : w.bits ≤ 64 := by cases w <;> decide

theorem bits_pos : 0 < w.bits := by cases w <;> decide

theorem toNat_ofRaw (r : Raw) : (w.ofRaw r).toNat = w.unsigned r := BitVec.toNat_setWidth ..

theorem toInt_ofRaw (r : Raw) : (w.ofRaw r).toInt = w.signed r := by
  rw [BitVec.toInt_eq_toNat_cond, toNat_ofRaw, signed]
  norm_cast

variable {w}

theorem ofRaw_toRaw (b : BitVec w.bits) : w.ofRaw (toRaw b) = b := by
  rw [ofRaw, toRaw, BitVec.setWidth_setWidth_of_le _ w.bits_le, BitVec.setWidth_eq]

theorem unsigned_toRaw (b : BitVec w.bits) : w.unsigned (toRaw b) = b.toNat := by
  rw [← toNat_ofRaw, ofRaw_toRaw]

theorem signed_toRaw (b : BitVec w.bits) : w.signed (toRaw b) = b.toInt := by
  rw [← toInt_ofRaw, ofRaw_toRaw]

theorem toNat_toRaw (b : BitVec w.bits) : (toRaw b).toNat = b.toNat :=
  BitVec.toNat_setWidth_of_le w.bits_le

/-- A result is the word of any integer with the same remainder. -/
theorem toRaw_eq_word {b : BitVec w.bits} {v : Int} (h : (b.toNat : Int) = v % 2 ^ w.bits) :
    toRaw b = w.word v := by
  apply BitVec.eq_of_toNat_eq
  rw [toNat_toRaw, word, ← h, BitVec.ofInt_natCast, BitVec.toNat_ofNat]
  have hb : b.toNat < 2 ^ 64 :=
    Nat.lt_of_lt_of_le b.isLt (Nat.pow_le_pow_right (by decide) w.bits_le)
  exact (Nat.mod_eq_of_lt hb).symm

theorem toRaw_ofInt (v : Int) : toRaw (BitVec.ofInt w.bits v) = w.word v := by
  have hpow : ((2 ^ w.bits : Nat) : Int) ≠ 0 := by exact_mod_cast (Nat.two_pow_pos w.bits).ne'
  apply toRaw_eq_word
  rw [BitVec.toNat_ofInt, Int.toNat_of_nonneg (Int.emod_nonneg _ hpow)]
  norm_cast

theorem toRaw_eq_word_toNat (b : BitVec w.bits) : toRaw b = w.word b.toNat := by
  apply toRaw_eq_word
  rw [Int.emod_eq_of_lt (Int.natCast_nonneg _) (by exact_mod_cast b.isLt)]

theorem ofRaw_eq_zero_iff_signed {b : Raw} : w.ofRaw b = 0 ↔ w.signed b = 0 := by
  rw [← toInt_ofRaw, ← BitVec.toInt_inj]
  simp

theorem ofRaw_eq_zero_iff_unsigned {b : Raw} : w.ofRaw b = 0 ↔ w.unsigned b = 0 := by
  rw [← toNat_ofRaw, ← BitVec.toNat_inj]
  simp

theorem ofRaw_eq_intMin_iff {a : Raw} : w.ofRaw a = BitVec.intMin w.bits ↔
    w.signed a = -2 ^ (w.bits - 1) := by
  rw [← toInt_ofRaw, ← BitVec.toInt_inj, BitVec.toInt_intMin_of_pos w.bits_pos]

theorem ofRaw_eq_neg_one_iff {b : Raw} : w.ofRaw b = -1 ↔ w.signed b = -1 := by
  have h : (-1 : BitVec w.bits).toInt = -1 := by cases w <;> decide
  rw [← toInt_ofRaw, ← BitVec.toInt_inj, h]

end Width

namespace Integers

variable (p : FloatPolicy) (w : Width) (a b : Raw)

/-! ### Divisions -/

/-- **Division toward zero.** -/
structure Truncating (a b q r : Int) : Prop where
  /-- Quotient and remainder make up the dividend. -/
  split : a = q * b + r
  /-- The remainder is smaller than the divisor. -/
  small : |r| < |b|
  /-- The remainder is zero or of the sign of the dividend. -/
  sign : r = 0 ∨ r.sign = a.sign

theorem truncating_tdiv (a : Int) {b : Int} (hb : b ≠ 0) :
    Truncating a b (a.tdiv b) (a.tmod b) where
  split := by
    rw [Int.mul_comm]
    exact (Int.mul_tdiv_add_tmod a b).symm
  small := by
    rw [Int.abs_eq_natAbs, Int.abs_eq_natAbs, Int.natAbs_tmod]
    exact_mod_cast Nat.mod_lt _ (Int.natAbs_pos.2 hb)
  sign := by
    rw [Int.sign_tmod]
    split
    · next hdvd => exact .inl (Int.tmod_eq_zero_of_dvd hdvd)
    · exact .inr rfl

/-- **The divisions**: when they trap, and what they give if they do not. -/
structure Divisions : Prop where
  /-- Signed division by zero. -/
  divS_zero : Binary.eval p (.int w .divS) a b = .error .divisionByZero ↔ w.signed b = 0
  /-- The one quotient that is too large. -/
  divS_overflow : Binary.eval p (.int w .divS) a b = .error .integerOverflow ↔
    w.signed a = -2 ^ (w.bits - 1) ∧ w.signed b = -1
  /-- Signed remainder by zero. -/
  remS_zero : Binary.eval p (.int w .remS) a b = .error .divisionByZero ↔ w.signed b = 0
  /-- Unsigned division by zero. -/
  divU_zero : Binary.eval p (.int w .divU) a b = .error .divisionByZero ↔ w.unsigned b = 0
  /-- Unsigned remainder by zero. -/
  remU_zero : Binary.eval p (.int w .remU) a b = .error .divisionByZero ↔ w.unsigned b = 0
  /-- All other signed quotients, with their remainders. -/
  signed : w.signed b ≠ 0 → ¬(w.signed a = -2 ^ (w.bits - 1) ∧ w.signed b = -1) →
    ∃ q r, Binary.eval p (.int w .divS) a b = .ok q ∧ Binary.eval p (.int w .remS) a b = .ok r ∧
      Truncating (w.signed a) (w.signed b) (w.signed q) (w.signed r)
  /-- The remainder that goes with the quotient that is too large. -/
  least : w.signed a = -2 ^ (w.bits - 1) → w.signed b = -1 →
    Binary.eval p (.int w .remS) a b = .ok 0
  /-- All other unsigned quotients, with their remainders. -/
  unsigned : w.unsigned b ≠ 0 →
    ∃ q r, Binary.eval p (.int w .divU) a b = .ok q ∧ Binary.eval p (.int w .remU) a b = .ok r ∧
      Truncating (w.unsigned a) (w.unsigned b) (w.unsigned q) (w.unsigned r)

theorem eval_divS : Binary.eval p (.int w .divS) a b =
    if w.signed b = 0 then .error .divisionByZero
    else if w.signed a = -2 ^ (w.bits - 1) ∧ w.signed b = -1 then .error .integerOverflow
    else .ok (Width.toRaw ((w.ofRaw a).sdiv (w.ofRaw b))) := by
  simp only [Binary.eval, IntBinary.eval, Width.ofRaw_eq_zero_iff_signed, Width.ofRaw_eq_intMin_iff,
    Width.ofRaw_eq_neg_one_iff]
  split
  · rfl
  · split <;> rfl

theorem eval_remS : Binary.eval p (.int w .remS) a b =
    if w.signed b = 0 then .error .divisionByZero
    else .ok (Width.toRaw ((w.ofRaw a).srem (w.ofRaw b))) := by
  simp only [Binary.eval, IntBinary.eval, Width.ofRaw_eq_zero_iff_signed]
  split <;> rfl

theorem eval_divU : Binary.eval p (.int w .divU) a b =
    if w.unsigned b = 0 then .error .divisionByZero
    else .ok (Width.toRaw (w.ofRaw a / w.ofRaw b)) := by
  simp only [Binary.eval, IntBinary.eval, Width.ofRaw_eq_zero_iff_unsigned]
  split <;> rfl

theorem eval_remU : Binary.eval p (.int w .remU) a b =
    if w.unsigned b = 0 then .error .divisionByZero
    else .ok (Width.toRaw (w.ofRaw a % w.ofRaw b)) := by
  simp only [Binary.eval, IntBinary.eval, Width.ofRaw_eq_zero_iff_unsigned]
  split <;> rfl

theorem divisions : Divisions p w a b where
  divS_zero := by
    rw [eval_divS]
    split
    · simp [*]
    · split <;> simp [*]
  divS_overflow := by
    rw [eval_divS]
    split
    · next hb => simp [hb]
    · split <;> simp [*]
  remS_zero := by rw [eval_remS]; split <;> simp [*]
  divU_zero := by rw [eval_divU]; split <;> simp [*]
  remU_zero := by rw [eval_remU]; split <;> simp [*]
  signed hb hover := by
    refine ⟨_, _, (eval_divS ..).trans (by rw [if_neg hb, if_neg hover]),
      (eval_remS ..).trans (if_neg hb), ?_⟩
    -- but for the quotient that is too large, what the bits give is the quotient of the integers
    have hfits : w.ofRaw a ≠ BitVec.intMin w.bits ∨ w.ofRaw b ≠ -1 := by
      rw [← not_and_or, Width.ofRaw_eq_intMin_iff, Width.ofRaw_eq_neg_one_iff]
      exact hover
    rw [Width.signed_toRaw, Width.signed_toRaw, BitVec.toInt_sdiv_of_ne_or_ne _ _ hfits,
      BitVec.toInt_srem, Width.toInt_ofRaw, Width.toInt_ofRaw]
    exact truncating_tdiv _ hb
  least _ hb := by
    have hrem : (w.ofRaw a).srem (w.ofRaw b) = 0 := by
      apply BitVec.eq_of_toInt_eq
      rw [BitVec.toInt_srem, Width.toInt_ofRaw w b, hb, Int.tmod_neg, Int.tmod_one]
      exact BitVec.toInt_zero.symm
    rw [eval_remS, if_neg (by rw [hb]; decide), hrem]
    cases w <;> rfl
  unsigned hb := by
    refine ⟨_, _, (eval_divU ..).trans (if_neg hb), (eval_remU ..).trans (if_neg hb), ?_⟩
    rw [Width.unsigned_toRaw, Width.unsigned_toRaw, BitVec.toNat_udiv, BitVec.toNat_umod,
      Width.toNat_ofRaw, Width.toNat_ofRaw, Int.ofNat_tdiv, Int.ofNat_tmod]
    exact truncating_tdiv _ (by exact_mod_cast hb)

/-! ### Sums, differences, products and bits -/

/-- **Arithmetic modulo the width**, and the operations on single bits. -/
structure Wrapping : Prop where
  /-- Sums. -/
  add : Binary.eval p (.int w .add) a b = .ok (w.word (w.unsigned a + w.unsigned b))
  /-- Differences. -/
  sub : Binary.eval p (.int w .sub) a b = .ok (w.word (w.unsigned a - w.unsigned b))
  /-- Products. -/
  mul : Binary.eval p (.int w .mul) a b = .ok (w.word (w.unsigned a * w.unsigned b))
  /-- Bits that are set in both. -/
  and : Binary.eval p (.int w .and) a b = .ok (w.word (w.unsigned a &&& w.unsigned b : Nat))
  /-- Bits that are set in one at least. -/
  or : Binary.eval p (.int w .or) a b = .ok (w.word (w.unsigned a ||| w.unsigned b : Nat))
  /-- Bits that are set in one only. -/
  xor : Binary.eval p (.int w .xor) a b = .ok (w.word (w.unsigned a ^^^ w.unsigned b : Nat))

theorem wrapping : Wrapping p w a b where
  add := by
    rw [← Width.toRaw_eq_word (b := w.ofRaw a + w.ofRaw b)]
    · rfl
    rw [BitVec.toNat_add, Width.toNat_ofRaw, Width.toNat_ofRaw]
    norm_cast
  sub := by
    rw [← Width.toRaw_eq_word (b := w.ofRaw a - w.ofRaw b)]
    · rfl
    -- on bits a difference is a sum with the complement
    have hb : w.unsigned b < 2 ^ w.bits := Nat.mod_lt _ (Nat.two_pow_pos _)
    have hsum : (2 ^ w.bits - w.unsigned b + w.unsigned a : Int) = w.unsigned a - w.unsigned
      b + 2 ^ w.bits := by ring
    rw [BitVec.toNat_sub, Width.toNat_ofRaw, Width.toNat_ofRaw, Int.natCast_emod, Int.natCast_add,
      Int.natCast_sub hb.le]
    push_cast
    rw [hsum, Int.add_emod_right]
  mul := by
    rw [← Width.toRaw_eq_word (b := w.ofRaw a * w.ofRaw b)]
    · rfl
    rw [BitVec.toNat_mul, Width.toNat_ofRaw, Width.toNat_ofRaw]
    norm_cast
  and := by
    rw [← Width.toNat_ofRaw, ← Width.toNat_ofRaw, ← BitVec.toNat_and, ← Width.toRaw_eq_word_toNat]
    rfl
  or := by
    rw [← Width.toNat_ofRaw, ← Width.toNat_ofRaw, ← BitVec.toNat_or, ← Width.toRaw_eq_word_toNat]
    rfl
  xor := by
    rw [← Width.toNat_ofRaw, ← Width.toNat_ofRaw, ← BitVec.toNat_xor, ← Width.toRaw_eq_word_toNat]
    rfl

/-! ### Shifts and rotations -/

/-- **Shifts and rotations**, by a count that is taken modulo the width. -/
structure Shifts : Prop where
  /-- To the left: a product. -/
  shl : Binary.eval p (.int w .shl) a b = .ok (w.word (w.unsigned a * 2 ^ (w.unsigned b % w.bits)))
  /-- To the right with the sign: a quotient toward negative infinity. -/
  shrS : Binary.eval p (.int w .shrS) a b = .ok (w.word (w.signed a / 2 ^ (w.unsigned b % w.bits)))
  /-- To the right without a sign: a quotient. -/
  shrU :
    Binary.eval p (.int w .shrU) a b = .ok (w.word (w.unsigned a / 2 ^ (w.unsigned b % w.bits)))
  /-- A rotation to the left takes each bit up, from the top around to the
  bottom; the one to the right undoes it. -/
  rotl : ∃ r, Binary.eval p (.int w .rotl) a b = .ok r ∧
    (∀ i < w.bits, (w.unsigned r).testBit ((i + w.unsigned b) % w.bits) =
      (w.unsigned a).testBit i) ∧
    Binary.eval p (.int w .rotr) r b = .ok (w.word (w.unsigned a))
  /-- A rotation to the right takes each bit down, from the bottom around to the
  top. -/
  rotr : ∃ r, Binary.eval p (.int w .rotr) a b = .ok r ∧
    ∀ i < w.bits, (w.unsigned r).testBit i = (w.unsigned a).testBit ((i + w.unsigned b) % w.bits)

section Rotation

variable {n : Nat} (x : BitVec n) (k : Nat)

theorem getLsbD_rotateRight_mod {i : Nat} (hi : i < n) : (x.rotateRight k).getLsbD i =
    x.getLsbD ((i + k) % n) := by
  have hk : k % n < n := Nat.mod_lt _ (Nat.zero_lt_of_lt hi)
  rw [BitVec.getLsbD_rotateRight, Nat.add_mod, Nat.mod_eq_of_lt hi]
  by_cases h : i < n - k % n
  · have hsum : (i + k % n) % n = k % n + i := by
      rw [Nat.mod_eq_of_lt (by omega), Nat.add_comm]
    simp [h, hsum]
  · have hsum : (i + k % n) % n = i - (n - k % n) := by
      rw [Nat.mod_eq_sub_mod (by omega), Nat.mod_eq_of_lt (by omega)]
      omega
    simp [h, hsum, hi]

theorem rotateRight_rotateLeft : (x.rotateLeft k).rotateRight k = x := by
  apply BitVec.eq_of_getLsbD_eq
  intro i hi
  have hk : k % n < n := Nat.mod_lt _ (Nat.zero_lt_of_lt hi)
  rw [getLsbD_rotateRight_mod _ _ hi, BitVec.getLsbD_rotateLeft, Nat.add_mod, Nat.mod_eq_of_lt hi]
  by_cases h : i + k % n < n
  · rw [Nat.mod_eq_of_lt h]
    simp [h]
  · -- the bit went around
    have hlt : i + k % n - n < k % n := by omega
    have hback : n - k % n + (i + k % n - n) = i := by omega
    rw [Nat.mod_eq_sub_mod (by omega), Nat.mod_eq_of_lt (by omega)]
    simp [hlt, hback]

end Rotation

/-- A shift looks at the low 32 bits of its count only. That does not matter,
for what stands above them is a multiple of the width. -/
theorem count_mod (b : Raw) : IntBinary.count (w.ofRaw b) % w.bits = w.unsigned b % w.bits := by
  have hdvd : w.bits ∣ 2 ^ 32 := by cases w <;> decide
  rw [IntBinary.count, BitVec.toNat_setWidth, Width.toNat_ofRaw, Nat.mod_mod_of_dvd _ hdvd]

/-- A rotation takes its count modulo the width first, so that it fits into 32
bits. -/
theorem count_umod (b : Raw) :
    IntBinary.count (w.ofRaw b % .ofNat w.bits w.bits) = w.unsigned b % w.bits := by
  have hwidth : w.bits % 2 ^ w.bits = w.bits := by cases w <;> decide
  have hfits : w.unsigned b % w.bits < 2 ^ 32 := by
    cases w <;> exact (Nat.mod_lt _ (by decide)).trans (by decide)
  rw [IntBinary.count, BitVec.toNat_setWidth, BitVec.toNat_umod, BitVec.toNat_ofNat, hwidth,
    Width.toNat_ofRaw, Nat.mod_eq_of_lt hfits]

theorem shifts : Shifts p w a b where
  shl := by
    simp only [Binary.eval, IntBinary.eval, Except.map, count_mod]
    rw [Width.toRaw_eq_word]
    rw [BitVec.toNat_shiftLeft, Width.toNat_ofRaw, Nat.shiftLeft_eq]
    norm_cast
  shrS := by
    simp only [Binary.eval, IntBinary.eval, Except.map, count_mod]
    rw [BitVec.sshiftRight_eq, Width.toRaw_ofInt, Width.toInt_ofRaw, Int.shiftRight_eq_div_pow]
    norm_cast
  shrU := by
    simp only [Binary.eval, IntBinary.eval, Except.map, count_mod]
    rw [Width.toRaw_eq_word_toNat, BitVec.toNat_ushiftRight, Width.toNat_ofRaw,
      Nat.shiftRight_eq_div_pow]
    norm_cast
  rotl := by
    refine ⟨_, rfl, fun i hi => ?_, ?_⟩
    · rw [Width.unsigned_toRaw, count_umod, BitVec.rotateLeft_mod_eq_rotateLeft,
        ← Width.toNat_ofRaw w a]
      simp only [BitVec.testBit_toNat]
      rw [← getLsbD_rotateRight_mod _ _ hi, rotateRight_rotateLeft]
    · simp only [Binary.eval, IntBinary.eval, Except.map, Width.ofRaw_toRaw, count_umod,
        BitVec.rotateLeft_mod_eq_rotateLeft, BitVec.rotateRight_mod_eq_rotateRight,
        rotateRight_rotateLeft]
      rw [Width.toRaw_eq_word_toNat, Width.toNat_ofRaw]
  rotr := by
    refine ⟨_, rfl, fun i hi => ?_⟩
    rw [Width.unsigned_toRaw, count_umod, BitVec.rotateRight_mod_eq_rotateRight,
      ← Width.toNat_ofRaw w a]
    simp only [BitVec.testBit_toNat]
    exact getLsbD_rotateRight_mod _ _ hi

/-! ### Bit counts -/

/-- The number of zero bits above the highest bit that is set; all of them if
none is. -/
def leadingZeros (n : Nat) : Nat := (List.range w.bits).findIdx fun i => n.testBit (w.bits - 1 - i)

/-- The number of zero bits below the lowest bit that is set; all of them if
none is. -/
def trailingZeros (n : Nat) : Nat := (List.range w.bits).findIdx n.testBit

/-- The number of bits that are set. -/
def ones (n : Nat) : Nat := (List.range w.bits).countP n.testBit

/-- **The bit counts**; zero has all of its bits before and behind a bit that is
set. -/
structure Counts : Prop where
  /-- Leading zeros. -/
  clz : Unary.eval p (.count w .clz) a = .ok (w.word (leadingZeros w (w.unsigned a)))
  /-- Trailing zeros. -/
  ctz : Unary.eval p (.count w .ctz) a = .ok (w.word (trailingZeros w (w.unsigned a)))
  /-- Bits that are set. -/
  popcnt : Unary.eval p (.count w .popcnt) a = .ok (w.word (ones w (w.unsigned a)))
  /-- The counts of zero. -/
  zero : w.unsigned a = 0 → Unary.eval p (.count w .clz) a = .ok (w.word w.bits) ∧
    Unary.eval p (.count w .ctz) a = .ok (w.word w.bits)

/-- The first position at which something holds, or the number of positions. -/
theorem findIdx_range {n k : Nat} {f : Nat → Bool} (hk : k ≤ n) (hbefore : ∀ i < k, f i = false)
    (hat : k < n → f k = true) : (List.range n).findIdx f = k := by
  rcases Nat.lt_or_eq_of_le hk with hlt | rfl
  · rw [List.findIdx_eq (by simpa using hlt)]
    simpa using ⟨hat hlt, hbefore⟩
  · rw [List.findIdx_eq_length.2] <;> simp
    exact hbefore

section

variable {w} (x : BitVec w.bits)

theorem toNat_clz_le : x.clz.toNat ≤ w.bits :=
  Nat.le_trans (BitVec.le_def.1 BitVec.clz_le) (Nat.mod_le _ _)

theorem toNat_clz_zero : (0#w.bits).clz.toNat = w.bits := by
  rw [BitVec.clz_eq_iff_eq_zero.2 rfl]
  exact Nat.mod_eq_of_lt Nat.lt_two_pow_self

theorem toNat_clz : x.clz.toNat = leadingZeros w x.toNat := by
  refine (findIdx_range (toNat_clz_le x) (fun i hi => ?_) fun hlt => ?_).symm
  · have hle : w.bits - x.clz.toNat ≤ w.bits - 1 - i := by omega
    have hpow : (2 : Nat) ^ (w.bits - x.clz.toNat) ≤ 2 ^ (w.bits - 1 - i) :=
      Nat.pow_le_pow_right (by decide) hle
    exact Nat.testBit_lt_two_pow (Nat.lt_of_lt_of_le BitVec.toNat_lt_two_pow_sub_clz hpow)
  · have hx : x ≠ 0#w.bits := fun h => hlt.ne (h ▸ toNat_clz_zero)
    exact BitVec.getLsbD_true_clz_of_ne_zero w.bits_pos hx

theorem toNat_ctz : x.ctz.toNat = trailingZeros w x.toNat := by
  -- trailing zeros are the leading ones of the bits in reverse
  refine (findIdx_range (toNat_clz_le x.reverse) (fun i hi => ?_) fun hlt => ?_).symm
  · exact BitVec.getLsbD_false_of_lt_ctz hi
  · have hx : x ≠ 0#w.bits := fun h => by
      rw [BitVec.reverse_eq_zero_iff.2 h, toNat_clz_zero] at hlt
      exact hlt.ne rfl
    exact BitVec.getLsbD_true_ctz_of_ne_zero hx

theorem cpopNatRec_eq_countP (k : Nat) :
    x.cpopNatRec k 0 = (List.range k).countP x.toNat.testBit := by
  induction k with
  | zero => rfl
  | succ k ih =>
    rw [BitVec.cpopNatRec_succ, BitVec.cpopNatRec_eq, ih, List.range_succ, List.countP_append,
      List.countP_singleton, BitVec.testBit_toNat]
    cases x.getLsbD k <;> rfl

end

theorem counts : Counts p w a := by
  have hclz : Unary.eval p (.count w .clz) a = .ok (w.word (leadingZeros w (w.unsigned a))) := by
    rw [← Width.toNat_ofRaw, ← toNat_clz, ← Width.toRaw_eq_word_toNat]
    rfl
  have hctz : Unary.eval p (.count w .ctz) a = .ok (w.word (trailingZeros w (w.unsigned a))) := by
    rw [← Width.toNat_ofRaw, ← toNat_ctz, ← Width.toRaw_eq_word_toNat]
    rfl
  refine ⟨hclz, hctz, ?_, fun hzero => ?_⟩
  · rw [← Width.toNat_ofRaw, ones, ← cpopNatRec_eq_countP, ← BitVec.toNat_cpop,
      ← Width.toRaw_eq_word_toNat]
    rfl
  · have hnone {f : Nat → Bool} (hf : ∀ i, f i = false) : (List.range w.bits).findIdx f = w.bits :=
      findIdx_range (Nat.le_refl _) (fun i _ => hf i) fun h => absurd h (Nat.lt_irrefl _)
    rw [hclz, hctz, hzero, leadingZeros, trailingZeros, hnone fun _ => Nat.zero_testBit _,
      hnone Nat.zero_testBit]
    exact ⟨rfl, rfl⟩

/-! ### Comparisons -/

/-- Whether a comparison holds of the integers of two words. -/
def Holds : IntCompare → Prop
  | .eq => w.unsigned a = w.unsigned b
  | .ne => w.unsigned a ≠ w.unsigned b
  | .ltS => w.signed a < w.signed b
  | .ltU => w.unsigned a < w.unsigned b
  | .gtS => w.signed b < w.signed a
  | .gtU => w.unsigned b < w.unsigned a
  | .leS => w.signed a ≤ w.signed b
  | .leU => w.unsigned a ≤ w.unsigned b
  | .geS => w.signed b ≤ w.signed a
  | .geU => w.unsigned b ≤ w.unsigned a

/-- **The comparisons**: one if they hold of the integers, zero if not. -/
structure Comparisons : Prop where
  /-- A comparison that holds. -/
  holds : ∀ op, Holds w a b op → Binary.eval p (.intCompare w op) a b = .ok 1
  /-- A comparison that does not. -/
  fails : ∀ op, ¬Holds w a b op → Binary.eval p (.intCompare w op) a b = .ok 0
  /-- The comparison with zero. -/
  eqz : Unary.eval p (.eqz w) a = .ok (if w.unsigned a = 0 then 1 else 0)

theorem eval_eq_true_iff (op : IntCompare) : op.eval (w.ofRaw a) (w.ofRaw b) = true ↔
    Holds w a b op := by
  cases op <;> simp [IntCompare.eval, Holds, BitVec.slt, BitVec.sle, BitVec.ult, BitVec.ule,
    Width.toInt_ofRaw, Width.toNat_ofRaw, ← BitVec.toNat_inj]

theorem comparisons : Comparisons p w a b where
  holds op h := by
    rw [Binary.eval, (eval_eq_true_iff w a b op).2 h]
    rfl
  fails op h := by
    rw [Binary.eval, Bool.eq_false_iff.2 (mt (eval_eq_true_iff w a b op).1 h)]
    rfl
  eqz := by
    simp only [Unary.eval, Raw.ofBool, beq_iff_eq, Width.ofRaw_eq_zero_iff_unsigned]

/-! ### All instructions -/

/-- **What integer instructions do to two words**, in terms of the integers that
they stand for. -/
structure Exact : Prop where
  /-- Quotients and remainders. -/
  divisions : Divisions p w a b
  /-- Sums, differences, products and bits. -/
  wrapping : Wrapping p w a b
  /-- Shifts and rotations. -/
  shifts : Shifts p w a b
  /-- Bit counts. -/
  counts : Counts p w a
  /-- Comparisons. -/
  comparisons : Comparisons p w a b
  /-- Whatever arithmetic gives has no bits outside of the width. -/
  extended : ∀ {op r}, Binary.eval p (.int w op) a b = .ok r → r.toNat < 2 ^ w.bits

/-- **Integer instructions compute integers**, at both widths and on all words. -/
theorem instructions_exact : Exact p w a b where
  divisions := divisions p w a b
  wrapping := wrapping p w a b
  shifts := shifts p w a b
  counts := counts p w a
  comparisons := comparisons p w a b
  extended {op r} h := by
    rw [Binary.eval] at h
    cases hc : op.eval (w.ofRaw a) (w.ofRaw b) with
    | error e =>
      rw [hc] at h
      cases h
    | ok c =>
      rw [hc] at h
      obtain rfl := Except.ok.inj h
      exact Width.toNat_toRaw c ▸ c.isLt

/-- A count above the width shifts by what it leaves modulo the width, also if
it needs more than 32 bits. -/
example : Binary.eval FloatPolicy.soft (.int .w64 .shl) 1 0x100000041 = .ok 2 := by decide

end Integers

end WasmEngine
