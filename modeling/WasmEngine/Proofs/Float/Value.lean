import Mathlib.Algebra.Order.Field.Power
import Mathlib.Data.EReal.Basic
import Mathlib.Tactic.Linarith
import WasmEngine.Proofs.Float.Pattern

/-!
# The values of patterns

A pattern other than a NaN stands for a real number or for an infinity
(`WasmEngine.Format.extended`). The finite ones are whole multiples of the
smallest positive value, the **quantum** of the format: the magnitude `p` stands
for `F.units p` quanta. The function `F.units` is strictly increasing
(`WasmEngine.Format.units_strictMono`), with gaps that double from one exponent
to the next (`WasmEngine.Format.units_pack`), and it does not stop at the
infinity. So the order of values is that of magnitudes, which is how comparisons
work (`WasmEngine.Format.lt_iff`), and to be nearest can be said of natural
numbers.
-/

namespace WasmEngine

/-- The factor of a sign. -/
def sgn (negative : Bool) : ℝ := if negative then -1 else 1

@[simp]
theorem sgn_mul_sgn (s : Bool) : sgn s * sgn s = 1 := by
  cases s <;> simp [sgn]

@[simp]
theorem abs_sgn (s : Bool) : |sgn s| = 1 := by
  cases s <;> simp [sgn]

@[simp]
theorem sgn_inv (s : Bool) : (sgn s)⁻¹ = sgn s := by
  cases s <;> simp [sgn]

theorem sgn_not (s : Bool) : sgn (!s) = -sgn s := by
  cases s <;> simp [sgn]

theorem sgn_bne (s t : Bool) : sgn (s != t) = sgn s * sgn t := by
  cases s <;> cases t <;> simp [sgn]

/-- The value of a significand, an exponent and a sign. -/
noncomputable def Unpacked.value (v : Unpacked) : ℝ := sgn v.negative * (v.sig * 2 ^ v.exp)

namespace Format

variable (F : Format)

/-- The smallest positive value. -/
noncomputable def quantum : ℝ := 2 ^ F.minLsb

/-- The magnitude from which on numbers are rounded to an infinity: half a unit
of the last place above the largest finite value. -/
noncomputable def threshold : ℝ := 2 ^ F.bias * (2 - 2 ^ (-(F.mantBits + 1 : Int)))

/-- How many quanta a magnitude stands for. -/
def units (p : Nat) : Nat :=
  if p < F.hiddenBit then p else (p % F.hiddenBit + F.hiddenBit) * 2 ^ (p / F.hiddenBit - 1)

/-- The value of a finite pattern. -/
noncomputable def value (a : Nat) : ℝ :=
  sgn (F.negative a) * (F.units (F.magnitude a) * F.quantum)

/-- The value of a pattern other than a NaN. -/
noncomputable def extended (a : Nat) : EReal :=
  if F.isInfinite a then (if F.negative a then ⊥ else ⊤) else F.value a

theorem quantum_pos : 0 < F.quantum := zpow_pos two_pos _

variable {F}

/-! ### Magnitudes in quanta -/

@[simp]
theorem units_zero : F.units 0 = 0 := by
  rw [units, if_pos F.hiddenBit_pos]

/-- The magnitude of a significand at a place, as a number of quanta. The
significand may also be twice the hidden bit, which is what a carry leaves. -/
theorem units_pack {e q : Nat} (hq : q ≤ 2 * F.hiddenBit) (he : F.hiddenBit ≤ q ∨ e = 0) :
    F.units (e * F.hiddenBit + q) = q * 2 ^ e := by
  have hpos := F.hiddenBit_pos
  obtain hlt | ⟨hge, hlt⟩ | rfl : q < F.hiddenBit ∨ (F.hiddenBit ≤ q ∧ q < 2 * F.hiddenBit) ∨
    q = 2 * F.hiddenBit := by omega
  · obtain rfl : e = 0 := by omega
    simp [units, hlt]
  · have hsplit : e * F.hiddenBit + q = q - F.hiddenBit + (e + 1) * F.hiddenBit := by
      rw [Nat.add_mul]
      omega
    have hrest : q - F.hiddenBit < F.hiddenBit := by omega
    have hle : ¬e * F.hiddenBit + q < F.hiddenBit := by
      have := Nat.zero_le (e * F.hiddenBit)
      omega
    rw [units, if_neg hle, hsplit, Nat.add_mul_mod_self_right, Nat.add_mul_div_right _ _ hpos,
      Nat.mod_eq_of_lt hrest, Nat.div_eq_of_lt hrest, Nat.zero_add, Nat.add_sub_cancel,
      Nat.sub_add_cancel hge]
  · have hsum : e * F.hiddenBit + 2 * F.hiddenBit = (e + 2) * F.hiddenBit := by ring
    have hle : ¬(e + 2) * F.hiddenBit < F.hiddenBit :=
      not_lt.2 (Nat.le_mul_of_pos_left _ (by omega))
    rw [hsum, units, if_neg hle, Nat.mul_mod_left, Nat.mul_div_cancel _ hpos, Nat.zero_add,
      show e + 2 - 1 = e + 1 from rfl, pow_succ]
    ring

/-- Every magnitude is a significand at a place. -/
theorem exists_pack (p : Nat) :
    ∃ e q, p = e * F.hiddenBit + q ∧ q < 2 * F.hiddenBit ∧ (F.hiddenBit ≤ q ∨ e = 0) := by
  have hpos := F.hiddenBit_pos
  have hdiv := Nat.div_add_mod' p F.hiddenBit
  have hmod := Nat.mod_lt p hpos
  cases h : p / F.hiddenBit with
  | zero =>
    rw [h] at hdiv
    exact ⟨0, p, by omega, by omega, .inr rfl⟩
  | succ e =>
    rw [h, Nat.add_mul] at hdiv
    exact ⟨e, p % F.hiddenBit + F.hiddenBit, by omega, by omega, .inl (by omega)⟩

/-- The next magnitude stands for more. -/
theorem units_strictMono : StrictMono F.units := by
  refine strictMono_nat_of_lt_succ fun p => ?_
  obtain ⟨e, q, rfl, hq, he⟩ := F.exists_pack p
  rw [Nat.add_assoc, units_pack hq.le he, units_pack hq (by omega)]
  exact Nat.mul_lt_mul_of_pos_right (Nat.lt_succ_self q) (Nat.two_pow_pos e)

theorem units_eq_zero_iff {p : Nat} : F.units p = 0 ↔ p = 0 := by
  rw [← units_strictMono.injective.eq_iff (a := p), units_zero]

/-- The order of magnitudes is that of their values. -/
theorem units_mul_lt_iff {p q : Nat} : F.units p * F.quantum < F.units q * F.quantum ↔ p < q := by
  rw [mul_lt_mul_iff_left₀ F.quantum_pos, Nat.cast_lt, units_strictMono.lt_iff_lt]

/-! ### Values by sign and magnitude -/

/-- **The parts that a pattern is taken apart into have its value.** -/
theorem value_unpack (a : Nat) : (F.unpack a).value = F.value a := by
  have hpos := F.hiddenBit_pos
  rw [value, unpack, biasedExp_eq, mantissa_eq, units, quantum]
  by_cases h : F.magnitude a < F.hiddenBit
  · rw [if_pos (Nat.div_eq_of_lt h), if_pos h, Nat.mod_eq_of_lt h]
    rfl
  · have hexp : F.magnitude a / F.hiddenBit ≠ 0 := by
      rw [Ne, Nat.div_eq_zero_iff]
      omega
    rw [if_neg hexp, if_neg h, Unpacked.value]
    congr 1
    generalize F.magnitude a / F.hiddenBit = k at hexp
    have hsplit : (k : Int) + F.minLsb - 1 = (k - 1 : Nat) + F.minLsb := by omega
    rw [hsplit, zpow_add₀ two_ne_zero, zpow_natCast]
    push_cast
    ring

theorem value_zero_add {p : Nat} (hp : p < F.signBit) (s : Bool) : F.value (F.zero s + p) =
    sgn s * (F.units p * F.quantum) := by
  rw [value, negative_zero_add hp, magnitude_zero_add hp]

theorem value_eq_zero_iff {a : Nat} : F.value a = 0 ↔ F.isZero a := by
  have hq := F.quantum_pos.ne'
  have hs : sgn (F.negative a) ≠ 0 := by
    cases F.negative a <;> simp [sgn]
  rw [value, isZero_iff, mul_eq_zero, mul_eq_zero, or_iff_right hs, or_iff_left hq,
    Nat.cast_eq_zero, units_eq_zero_iff]

theorem value_xor_signBit (a : Nat) : F.value (a ^^^ F.signBit) = -F.value a := by
  rw [value, value, magnitude_xor_signBit, negative_xor_signBit, sgn_not, neg_mul]

/-! ### Comparisons -/

/-- The value of a pattern in quanta, with its sign. -/
def signedUnits (F : Format) (a : Nat) : Int :=
  if F.negative a then -F.units (F.magnitude a) else F.units (F.magnitude a)

theorem value_eq_signedUnits (a : Nat) : F.value a = F.signedUnits a * F.quantum := by
  rw [value, signedUnits]
  cases F.negative a <;> simp [sgn]

section Comparisons

variable {a b : Nat}

/-- What a pattern other than a NaN stands for, and where its quanta lie: the
infinities are beyond all finite values. -/
theorem extended_cases (ha : F.isNan a = false) :
    (F.extended a = ⊥ ∧ F.signedUnits a = -F.units F.expMask) ∨
    (F.extended a = ⊤ ∧ F.signedUnits a = F.units F.expMask) ∨
      (F.extended a = (F.signedUnits a * F.quantum : ℝ) ∧ -F.units F.expMask < F.signedUnits a ∧
        F.signedUnits a < F.units F.expMask) := by
  by_cases hinf : F.isInfinite a
  · have hm := isInfinite_iff.1 hinf
    rw [extended, signedUnits, if_pos hinf, hm]
    cases F.negative a <;> simp
  · have hlt : F.units (F.magnitude a) < F.units F.expMask := by
      rw [isInfinite_iff] at hinf
      simp only [isNan, decide_eq_false_iff_not] at ha
      exact units_strictMono (by omega)
    refine .inr (.inr ⟨?_, ?_⟩)
    · rw [extended, if_neg hinf, value_eq_signedUnits]
    · rw [signedUnits]
      split <;> omega

/-- The order of values is that of the signed numbers of quanta. -/
theorem extended_lt_iff (hF : F.Regular) (ha : F.isNan a = false) (hb : F.isNan b = false) :
    F.extended a < F.extended b ↔ F.signedUnits a < F.signedUnits b := by
  have hpos : 0 < F.units F.expMask := units_zero (F := F) ▸ units_strictMono hF.expMask_pos
  obtain ⟨hea, hua⟩ | ⟨hea, hua⟩ | ⟨hea, hua⟩ := extended_cases ha
  all_goals
    obtain ⟨heb, hub⟩ | ⟨heb, hub⟩ | ⟨heb, hub⟩ := extended_cases hb
    all_goals rw [hea, heb]
  · exact iff_of_false (lt_irrefl _) (by omega)
  · exact iff_of_true bot_lt_top (by omega)
  · exact iff_of_true (EReal.bot_lt_coe _) (by omega)
  · exact iff_of_false not_top_lt (by omega)
  · exact iff_of_false not_top_lt (by omega)
  · exact iff_of_false not_top_lt (by omega)
  · exact iff_of_false not_lt_bot (by omega)
  · exact iff_of_true (EReal.coe_lt_top _) (by omega)
  · rw [EReal.coe_lt_coe_iff, mul_lt_mul_iff_left₀ F.quantum_pos, Int.cast_lt]

theorem extended_inj_iff (hF : F.Regular) (ha : F.isNan a = false) (hb : F.isNan b = false) :
    F.extended a = F.extended b ↔ F.signedUnits a = F.signedUnits b := by
  rw [← not_iff_not, ← ne_eq, ← ne_eq, ne_iff_lt_or_gt, ne_iff_lt_or_gt, extended_lt_iff hF ha hb,
    extended_lt_iff hF hb ha]

theorem extended_le_iff (hF : F.Regular) (ha : F.isNan a = false) (hb : F.isNan b = false) :
    F.extended a ≤ F.extended b ↔ F.signedUnits a ≤ F.signedUnits b := by
  rw [← not_lt, extended_lt_iff hF hb ha, not_lt]

variable (ha : a < 2 * F.signBit) (hb : b < 2 * F.signBit)
include ha hb

/-- Equality is that of values. -/
theorem eq_iff (hF : F.Regular) :
    F.eq a b ↔ F.isNan a = false ∧ F.isNan b = false ∧ F.extended a = F.extended b := by
  simp only [eq, Bool.and_eq_true, Bool.not_eq_true', Bool.or_eq_true, beq_iff_eq, and_assoc]
  refine and_congr_right fun hna => and_congr_right fun hnb => ?_
  rw [extended_inj_iff hF hna hnb, isZero_iff, isZero_iff]
  constructor
  · rintro (rfl | ⟨hza, hzb⟩)
    · rfl
    · simp [signedUnits, hza, hzb]
  · intro h
    -- the same magnitude, and the same sign unless it is zero
    have hm : F.magnitude a = F.magnitude b := by
      have hu : F.units (F.magnitude a) = F.units (F.magnitude b) := by
        simp only [signedUnits] at h
        split_ifs at h <;> omega
      exact units_strictMono.injective hu
    by_cases hz : F.magnitude b = 0
    · exact .inr ⟨hm.trans hz, hz⟩
    · have hu : F.units (F.magnitude b) ≠ 0 := units_eq_zero_iff.not.2 hz
      refine .inl (eq_of_magnitude ha hb ?_ hm)
      simp only [signedUnits, hm] at h
      cases hsa : F.negative a <;> cases hsb : F.negative b <;> simp [hsa, hsb] at h ⊢ <;> omega

/-- The order is that of values. -/
theorem lt_iff (hF : F.Regular) :
    F.lt a b ↔ F.isNan a = false ∧ F.isNan b = false ∧ F.extended a < F.extended b := by
  have hpa := zero_add_magnitude ha
  have hpb := zero_add_magnitude hb
  have hlt {p q : Nat} : F.units p < F.units q ↔ p < q := units_strictMono.lt_iff_lt
  simp only [lt]
  split_ifs with hspecial
  · refine iff_of_false id ?_
    rintro ⟨hna, hnb, h⟩
    rw [extended_lt_iff hF hna hnb] at h
    simp only [hna, hnb, isZero_iff, Bool.false_eq_true, false_or] at hspecial
    simp [signedUnits, hspecial] at h
  · simp only [not_or, Bool.not_eq_true, isZero_iff] at hspecial
    obtain ⟨hna, hnb, hz⟩ := hspecial
    have hz : ¬(F.units (F.magnitude a) = 0 ∧ F.units (F.magnitude b) = 0) := by
      rwa [units_eq_zero_iff, units_eq_zero_iff]
    simp only [hna, hnb, true_and, extended_lt_iff hF hna hnb, signedUnits]
    cases hsa : F.negative a <;> cases hsb : F.negative b <;>
      simp only [hsa, hsb, zero, Bool.false_eq_true, if_false, if_true] at hpa hpb ⊢
    · rw [decide_eq_true_iff, Nat.cast_lt, hlt]
      omega
    · exact iff_of_false id (by omega)
    · exact iff_of_true trivial (by omega)
    · rw [decide_eq_true_iff, neg_lt_neg_iff, Nat.cast_lt, hlt]

theorem le_iff (hF : F.Regular) :
    F.le a b ↔ F.isNan a = false ∧ F.isNan b = false ∧ F.extended a ≤ F.extended b := by
  rw [le, Bool.or_eq_true, lt_iff ha hb hF, eq_iff ha hb hF, le_iff_lt_or_eq]
  tauto

end Comparisons

end Format

end WasmEngine
