import Mathlib.Tactic.Ring
import WasmEngine.Float.Policy

/-!
# Patterns by sign and magnitude

A pattern is a sign and a **magnitude**, a number below the sign bit:
`F.zero s + p`. Every other reading of a pattern depends on these two, and the
operations that work on its bits (`Format.quiet`, flipping the sign, the
conjunction and the disjunction of two zeros) are described by what they do to
them. The magnitudes of finite values lie below `F.expMask`, which is that of
the infinities, and those of NaNs above.

What the proofs about formats need of the numbers of bits is collected in
`Format.Regular`; both formats in use are regular.
-/

namespace WasmEngine

namespace Format

/-- **A regular format**: a significand has a quiet bit and others, 64 bits hold
a significand and a few bits more, and there are normal values from below a half
up to where all values are integers. -/
structure Regular (F : Format) : Prop where
  /-- There is a bit next to the quiet bit. -/
  one_lt_mantBits : 1 < F.mantBits
  /-- There is room for extra bits. -/
  mantBits_le : F.mantBits ≤ 60
  /-- A half is a normal value. -/
  two_lt_expBits : 2 < F.expBits
  /-- All values are integers from some exponent on. -/
  mantBits_le_bias : F.mantBits ≤ F.bias

variable (F : Format)

/-! ### The constants of a format -/

theorem hiddenBit_eq : F.hiddenBit = 2 ^ F.mantBits := Nat.one_shiftLeft _

theorem hiddenBit_pos : 0 < F.hiddenBit := by
  rw [hiddenBit_eq]
  exact Nat.two_pow_pos _

theorem signBit_eq : F.signBit = 2 ^ (F.mantBits + F.expBits) := Nat.one_shiftLeft _

theorem maxExp_add_one : F.maxExp + 1 = 2 ^ F.expBits := by
  rw [maxExp, Nat.one_shiftLeft, Nat.sub_add_cancel (Nat.two_pow_pos _)]

theorem signBit_eq_mul : F.signBit = F.hiddenBit * (F.maxExp + 1) := by
  rw [signBit_eq, hiddenBit_eq, maxExp_add_one, pow_add]

theorem expMask_add_hiddenBit : F.expMask + F.hiddenBit = F.signBit := by
  rw [signBit_eq_mul, expMask]
  ring

theorem expMask_lt_signBit : F.expMask < F.signBit := by
  have := F.expMask_add_hiddenBit
  have := F.hiddenBit_pos
  omega

variable {F}

namespace Regular

variable (hF : F.Regular)
include hF

theorem two_mul_quietBit : 2 * F.quietBit = F.hiddenBit := by
  obtain ⟨k, hk⟩ : ∃ k, F.mantBits = k + 1 := ⟨F.mantBits - 1, by have := hF.one_lt_mantBits; omega⟩
  rw [quietBit, hiddenBit, hk, Nat.one_shiftLeft, Nat.one_shiftLeft, Nat.add_sub_cancel,
    pow_succ, mul_comm]

theorem maxExp_eq : F.maxExp = 2 * F.bias + 1 := by
  obtain ⟨k, hk⟩ : ∃ k, F.expBits = k + 1 := ⟨F.expBits - 1, by have := hF.two_lt_expBits; omega⟩
  have : 1 ≤ 2 ^ k := Nat.one_le_two_pow
  rw [maxExp, bias, hk, Nat.one_shiftLeft, Nat.one_shiftLeft, Nat.add_sub_cancel, pow_succ]
  omega

theorem expMask_pos : 0 < F.expMask :=
  Nat.mul_pos (by have := hF.maxExp_eq; omega) F.hiddenBit_pos

/-- The biased exponent of a half is even. -/
theorem even_bias_sub_one : ∃ k, F.bias = 2 * k + 1 ∧ 0 < k := by
  obtain ⟨k, hk⟩ : ∃ k, F.expBits = k + 3 := ⟨F.expBits - 3, by have := hF.two_lt_expBits; omega⟩
  have hpos := Nat.two_pow_pos k
  refine ⟨2 * 2 ^ k - 1, ?_, by omega⟩
  rw [bias, Nat.one_shiftLeft, hk, show k + 3 - 1 = k + 2 from rfl, pow_add]
  omega

theorem bias_pos : 0 < F.bias := by
  obtain ⟨k, hk, -⟩ := hF.even_bias_sub_one
  omega

end Regular

/-! ### Sign and magnitude -/

variable {a b p : Nat} {s : Bool}

theorem magnitude_zero_add (hp : p < F.signBit) (s : Bool) : F.magnitude (F.zero s + p) = p := by
  cases s <;> simp [magnitude, zero, Nat.mod_eq_of_lt hp]

theorem negative_zero_add (hp : p < F.signBit) (s : Bool) : F.negative (F.zero s + p) = s := by
  have h : 0 < F.signBit := by omega
  cases s <;> simp [negative, zero, Nat.div_eq_of_lt hp, Nat.add_div_left p h]

@[simp]
theorem magnitude_zero (s : Bool) : F.magnitude (F.zero s) = 0 :=
  magnitude_zero_add (p := 0) (by rw [signBit_eq]; exact Nat.two_pow_pos _) s

@[simp]
theorem magnitude_infinity (s : Bool) : F.magnitude (F.infinity s) = F.expMask := by
  rw [infinity, Nat.add_comm, magnitude_zero_add F.expMask_lt_signBit]

@[simp]
theorem negative_infinity (s : Bool) : F.negative (F.infinity s) = s := by
  rw [infinity, Nat.add_comm, negative_zero_add F.expMask_lt_signBit]

@[simp]
theorem negative_zero (s : Bool) : F.negative (F.zero s) = s :=
  negative_zero_add (p := 0) (by rw [signBit_eq]; exact Nat.two_pow_pos _) s

theorem zero_add_lt (hp : p < F.signBit) : F.zero s + p < 2 * F.signBit := by
  cases s <;> simp only [zero] <;> grind

/-- A pattern is a sign and a magnitude. -/
theorem zero_add_magnitude (ha : a < 2 * F.signBit) :
    F.zero (F.negative a) + F.magnitude a = a := by
  have h := Nat.div_add_mod a F.signBit
  have hlt : a / F.signBit < 2 := Nat.div_lt_of_lt_mul (by omega)
  obtain hq | hq := Nat.le_one_iff_eq_zero_or_eq_one.1 (Nat.lt_succ_iff.1 hlt)
  all_goals
    rw [hq] at h
    simp only [negative, zero, magnitude, hq]
    simpa using h

/-- Two patterns of one sign and one magnitude are the same. -/
theorem eq_of_magnitude (ha : a < 2 * F.signBit) (hb : b < 2 * F.signBit)
    (hn : F.negative a = F.negative b) (hm : F.magnitude a = F.magnitude b) : a = b := by
  rw [← zero_add_magnitude ha, ← zero_add_magnitude hb, hn, hm]

theorem biasedExp_eq (a : Nat) : F.biasedExp a = F.magnitude a / F.hiddenBit := by
  rw [magnitude, signBit_eq_mul, Nat.mod_mul_right_div_self, biasedExp]

theorem mantissa_eq (a : Nat) : F.mantissa a = F.magnitude a % F.hiddenBit := by
  rw [magnitude, signBit_eq_mul, Nat.mod_mul_right_mod, mantissa]

theorem testBit_mantissa {i : Nat} (hi : i < F.mantBits) (a : Nat) :
    (F.mantissa a).testBit i = a.testBit i := by
  rw [mantissa, hiddenBit_eq, Nat.testBit_mod_two_pow, decide_eq_true hi, Bool.true_and]

/-! ### The classes of patterns -/

theorem isNan_iff : F.isNan a ↔ F.expMask < F.magnitude a := by simp [isNan]

theorem isInfinite_iff : F.isInfinite a ↔ F.magnitude a = F.expMask := by simp [isInfinite]

theorem isZero_iff : F.isZero a ↔ F.magnitude a = 0 := by simp [isZero]

@[simp]
theorem not_isNan_zero_add (hp : p ≤ F.expMask) : F.isNan (F.zero s + p) = false := by
  have := F.expMask_lt_signBit
  simpa [isNan, magnitude_zero_add (show p < F.signBit by omega)] using hp

@[simp]
theorem not_isNan_infinity (s : Bool) : F.isNan (F.infinity s) = false := by
  simp [isNan]

/-! ### Operations on bits -/

theorem negative_eq_testBit (a : Nat) : F.negative a = a.testBit (F.mantBits + F.expBits) := by
  rw [negative, signBit_eq, Nat.testBit_eq_decide_div_mod_eq]
  rfl

theorem magnitude_xor_signBit (a : Nat) : F.magnitude (a ^^^ F.signBit) = F.magnitude a := by
  rw [magnitude, magnitude, signBit_eq, Nat.xor_mod_two_pow, Nat.mod_self, Nat.xor_zero]

theorem negative_xor_signBit (a : Nat) : F.negative (a ^^^ F.signBit) = !F.negative a := by
  rw [negative_eq_testBit, negative_eq_testBit, Nat.testBit_xor, signBit_eq,
    Nat.testBit_two_pow_self, Bool.xor_true]

theorem xor_signBit_lt (ha : a < 2 * F.signBit) : a ^^^ F.signBit < 2 * F.signBit := by
  rw [signBit_eq, ← pow_succ'] at *
  exact Nat.xor_lt_two_pow ha (Nat.pow_lt_pow_right one_lt_two (Nat.lt_succ_self _))

theorem magnitude_and (a b : Nat) : F.magnitude (a &&& b) = F.magnitude a &&& F.magnitude b := by
  rw [magnitude, magnitude, magnitude, signBit_eq, Nat.and_mod_two_pow]

theorem magnitude_or (a b : Nat) : F.magnitude (a ||| b) = F.magnitude a ||| F.magnitude b := by
  rw [magnitude, magnitude, magnitude, signBit_eq, Nat.or_mod_two_pow]

theorem negative_and (a b : Nat) : F.negative (a &&& b) = (F.negative a && F.negative b) := by
  rw [negative_eq_testBit, negative_eq_testBit, negative_eq_testBit, Nat.testBit_and]

theorem isNan_quiet (h : F.isNan a) : F.isNan (F.quiet a) := by
  rw [isNan_iff] at h ⊢
  rw [quiet, magnitude_or]
  exact lt_of_lt_of_le h Nat.left_le_or

theorem testBit_quiet (a : Nat) : (F.quiet a).testBit (F.mantBits - 1) := by
  rw [quiet, Nat.testBit_or, quietBit, Nat.one_shiftLeft, Nat.testBit_two_pow_self, Bool.or_true]

namespace Regular

variable (hF : F.Regular)
include hF

theorem quietBit_lt : F.quietBit < F.hiddenBit := by
  have := hF.two_mul_quietBit
  have := F.hiddenBit_pos
  omega

theorem quiet_lt (ha : a < 2 * F.signBit) : F.quiet a < 2 * F.signBit := by
  have hq : F.quietBit < 2 * F.signBit := by
    have := hF.quietBit_lt
    have := F.expMask_add_hiddenBit
    omega
  rw [quiet]
  rw [signBit_eq, ← pow_succ'] at *
  exact Nat.or_lt_two_pow ha hq

theorem canonicalNan_lt : F.canonicalNan < F.signBit := by
  have := hF.quietBit_lt
  have := F.expMask_add_hiddenBit
  rw [canonicalNan]
  omega

theorem isNan_canonicalNan : F.isNan F.canonicalNan := by
  have h := hF.two_mul_quietBit
  have := F.hiddenBit_pos
  rw [isNan_iff, magnitude, Nat.mod_eq_of_lt hF.canonicalNan_lt, canonicalNan]
  omega

theorem testBit_canonicalNan : F.canonicalNan.testBit (F.mantBits - 1) := by
  have hq : F.quietBit < 2 ^ F.mantBits := F.hiddenBit_eq ▸ hF.quietBit_lt
  rw [canonicalNan, expMask, hiddenBit_eq, Nat.mul_comm, Nat.testBit_two_pow_mul_add _ hq,
    if_pos (by have := hF.one_lt_mantBits; omega), quietBit, Nat.one_shiftLeft,
    Nat.testBit_two_pow_self]

end Regular

end Format

/-! ### The formats in use -/

namespace Width

variable {w : Width}

theorem regular (w : Width) : w.format.Regular := by
  cases w <;> constructor <;> decide

theorem two_pow_bits (w : Width) : 2 ^ w.bits = 2 * w.format.signBit := by
  cases w <;> rfl

theorem toNat_lt (a : Pattern w) : a.toNat < 2 * w.format.signBit :=
  w.two_pow_bits ▸ a.isLt

theorem toNat_ofNat {a : Nat} (ha : a < 2 * w.format.signBit) :
    (BitVec.ofNat w.bits a).toNat = a := by
  rw [BitVec.toNat_ofNat, Nat.mod_eq_of_lt (w.two_pow_bits ▸ ha)]

theorem negative_toNat (a : Pattern w) : w.format.negative a.toNat = a.msb := by
  rw [Format.negative_eq_testBit, BitVec.testBit_toNat, BitVec.msb_eq_getLsbD_last]
  cases w <;> rfl

end Width

end WasmEngine
