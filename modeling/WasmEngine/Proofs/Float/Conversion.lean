import WasmEngine.Float.Native
import WasmEngine.Proofs.Float.Integral

/-!
# Conversions are correct

An integer and a value of the other format are rounded once, exactly as they
are. The other way, a float is truncated, and the result is the word of that
integer if the range contains it (`WasmEngine.Format.toInt_eq`).

A range can also be told by comparing floats, with bounds that are not part of
it: the float nearest beyond the range on either side
(`WasmEngine.NativeOps.not_contains_iff`). For a signed range at the narrower
formats the integer next to the range is no float, and the bound is the first
float after it. That every bound is right is a matter of two comparisons of
integers each, as values are whole numbers of quanta.
-/

namespace WasmEngine

/-! ### Truncation -/

theorem truncate_le_iff {x : ℝ} {n : Nat} : truncate x ≤ n ↔ x < n + 1 := by
  rw [truncate]
  split
  case isTrue h =>
    rw [← Int.lt_add_one_iff, Int.floor_lt]
    push_cast
    rfl
  case isFalse h =>
    have hneg : x < 0 := not_le.1 h
    have hn : (0 : ℝ) ≤ n := Nat.cast_nonneg n
    refine iff_of_true (Int.ceil_le.2 ?_) (by linarith)
    push_cast
    linarith

theorem neg_le_truncate_iff {x : ℝ} {n : Nat} : -(n : Int) ≤ truncate x ↔ -(n + 1 : ℝ) < x := by
  rw [truncate]
  have hn : (0 : ℝ) ≤ n := Nat.cast_nonneg n
  split
  case isTrue h =>
    refine iff_of_true (Int.le_floor.2 ?_) (by linarith)
    push_cast
    linarith
  case isFalse h =>
    rw [← Int.sub_one_lt_iff, Int.lt_ceil]
    push_cast
    rw [neg_add, sub_eq_add_neg]

theorem truncate_sgn_mul {y : ℝ} (hy : 0 ≤ y) (s : Bool) : truncate (sgn s * y) =
    if s then -⌊y⌋ else ⌊y⌋ := by
  cases s with
  | false => simp [sgn, truncate, hy]
  | true =>
    obtain rfl | hpos := hy.eq_or_lt
    · simp [truncate]
    · simp [sgn, truncate, hpos, Int.ceil_neg]

namespace IntTarget

variable {t : IntTarget}

/-- Whether a range has an integer. -/
def Contains (t : IntTarget) (v : Int) : Prop := -(t.limit true : Int) ≤ v ∧ v ≤ t.limit false

instance (t : IntTarget) (v : Int) : Decidable (t.Contains v) := inferInstanceAs (Decidable (_ ∧ _))

theorem limit_lt (t : IntTarget) (s : Bool) : t.limit s < 2 ^ 64 := by
  cases t <;> cases s <;> decide

theorem contains_zero (t : IntTarget) : t.Contains 0 := by
  constructor <;> omega

@[simp]
theorem word_zero (t : IntTarget) : t.word 0 = 0 := by
  simp [word]

theorem cut_word (t : IntTarget) (v : Int) : t.cut (t.word v) = t.word v := by
  refine BitVec.eq_of_toNat_eq ?_
  rw [cut, word, BitVec.toNat_setWidth, BitVec.toNat_setWidth, BitVec.toNat_ofNat]
  cases t <;> simp only [bits, count, Nat.reduceShiftLeft] <;> omega

/-- The word for a sign and a magnitude is that of the integer they make. -/
theorem ofSignMagnitude?_eq (t : IntTarget) (s : Bool) (n : Nat) :
    t.ofSignMagnitude? s n =
      if t.Contains (if s then -(n : Int) else n) then some (t.word (if s then -(n : Int) else n))
      else none := by
  have hiff : t.Contains (if s then -(n : Int) else n) ↔ ¬t.limit s < n := by
    cases s <;> simp only [Contains, Bool.false_eq_true, if_true, if_false] <;> omega
  rw [ofSignMagnitude?]
  simp only [hiff, ite_not]

/-- The range in terms of the number that is truncated. -/
theorem not_contains_truncate_iff {x : ℝ} :
    ¬t.Contains (truncate x) ↔ x ≤ -((t.limit true + 1 : Nat) : ℝ) ∨
    ((t.limit false + 1 : Nat) : ℝ) ≤ x := by
  rw [Contains, neg_le_truncate_iff, truncate_le_iff, not_and_or, not_lt, not_lt]
  push_cast
  rfl

end IntTarget

namespace Format

variable {F : Format} {a : Nat}

/-! ### To floats -/

/-- An integer becomes the float nearest to it. -/
theorem ofInt_delivers (hF : F.Regular) (t : IntTarget) (r : Raw) :
    F.Delivers (.finite (t.value r) false) (F.ofInt t r) := by
  rw [ofInt, IntTarget.signMagnitude]
  generalize t.value r = v
  dsimp only
  by_cases hv : v = 0
  · subst hv
    simpa using zero_delivers hF false
  · refine roundPack_delivers hF (.inl rfl) (Int.natAbs_ne_zero.2 hv) (.inl rfl) ?_ false
    rw [zpow_zero, mul_one, Nat.cast_natAbs, Int.cast_abs]
    by_cases hneg : v < 0
    · have : (v : ℝ) < 0 := by exact_mod_cast hneg
      simp [sgn, hneg, abs_of_neg this]
    · have : (0 : ℝ) ≤ v := by exact_mod_cast not_lt.1 hneg
      simp [sgn, hneg, abs_of_nonneg this]

/-- A value of another format becomes the float nearest to it. -/
theorem ofFormat_delivers (hF : F.Regular) {G : Format} (hzero : ¬G.isZero a) (z : Bool) :
    F.Delivers (.finite (G.value a) z) (F.ofFormat G a) := by
  rw [← G.value_unpack a]
  exact roundPack_delivers hF (.inl rfl) (unpack_sig_ne_zero hzero) (.inl rfl) rfl z

/-! ### To integers -/

/-- The integer part of a significand at an exponent. -/
theorem floor_shift (sig : Nat) (exp : Int) :
    ⌊(sig * 2 ^ exp : ℝ)⌋ =
    (if 0 ≤ exp then sig <<< exp.toNat else sig >>> (-exp).toNat : Nat) := by
  split
  case isTrue h =>
    obtain ⟨n, rfl⟩ : ∃ n : Nat, exp = n := ⟨exp.toNat, by omega⟩
    have hcast : (sig * 2 ^ (n : Int) : ℝ) = ((sig * 2 ^ n : Nat) : Int) := by
      rw [zpow_natCast]
      push_cast
      rfl
    rw [hcast, Int.floor_intCast, Int.toNat_natCast, Nat.shiftLeft_eq]
  case isFalse h =>
    obtain ⟨n, rfl⟩ : ∃ n : Nat, exp = -n := ⟨(-exp).toNat, by omega⟩
    obtain ⟨hle, hlt, -⟩ := quotient_spec sig (Nat.two_pow_pos n)
    have hcast : (sig * 2 ^ (-(n : Int)) : ℝ) = sig / (2 ^ n : Nat) := by
      rw [zpow_neg, zpow_natCast, div_eq_mul_inv]
      push_cast
      rfl
    rw [hcast, neg_neg, Int.toNat_natCast, Nat.shiftRight_eq_div_pow, Int.floor_eq_iff]
    exact ⟨by exact_mod_cast hle, by exact_mod_cast hlt⟩

/-- Values of large exponents are beyond every range. -/
theorem not_contains_of_large (hF : F.Regular) (t : IntTarget)
    (hlarge : 64 - (F.mantBits : Int) < (F.unpack a).exp) : ¬t.Contains (truncate (F.value a)) := by
  have hmant := hF.mantBits_le
  have hsig : F.hiddenBit ≤ (F.unpack a).sig := by
    rw [unpack] at hlarge ⊢
    split_ifs with hexp
    · rw [if_pos hexp] at hlarge
      simp only [minLsb] at hlarge
      omega
    · exact Nat.le_add_left _ _
  have hsize : (2 : ℝ) ^ 64 ≤ (F.unpack a).sig * 2 ^ (F.unpack a).exp := by
    calc (2 : ℝ) ^ 64 = 2 ^ F.mantBits * 2 ^ (64 - F.mantBits : Int) := by
          rw [← zpow_natCast 2 F.mantBits, ← zpow_add₀ two_ne_zero, add_sub_cancel]
          exact (zpow_natCast 2 64).symm
      _ ≤ (F.unpack a).sig * 2 ^ (F.unpack a).exp := by
          rw [hiddenBit_eq] at hsig
          have hsigR : (2 : ℝ) ^ F.mantBits ≤ (F.unpack a).sig := by exact_mod_cast hsig
          exact mul_le_mul hsigR (zpow_le_zpow_right₀ one_le_two hlarge.le) (by positivity)
            (Nat.cast_nonneg _)
  have hlimit (s : Bool) : ((t.limit s + 1 : Nat) : ℝ) ≤ 2 ^ 64 := by exact_mod_cast t.limit_lt s
  rw [IntTarget.not_contains_truncate_iff, ← value_unpack, Unpacked.value]
  cases (F.unpack a).negative with
  | false =>
    right
    rw [sgn, if_neg Bool.false_ne_true, one_mul]
    exact (hlimit false).trans hsize
  | true =>
    left
    rw [sgn, if_pos rfl, neg_one_mul, neg_le_neg_iff]
    exact (hlimit true).trans hsize

/-- **The integer toward zero**, if the range contains it. -/
theorem toInt_eq (hF : F.Regular) (t : IntTarget) (hnan : F.isNan a = false)
    (hinf : ¬F.isInfinite a) : F.toInt t a =
      if t.Contains (truncate (F.value a)) then .ok (t.word (truncate (F.value a)))
      else .error .integerOverflow := by
  simp only [toInt, hnan, hinf, Bool.false_eq_true, if_false]
  by_cases hzero : F.isZero a
  · have htrunc : truncate (F.value a) = 0 := by
      rw [value_eq_zero_iff.2 hzero]
      simp [truncate]
    rw [if_pos hzero, htrunc, if_pos t.contains_zero, t.word_zero]
  rw [if_neg hzero]
  by_cases hlarge : 64 - (F.mantBits : Int) < (F.unpack a).exp
  · rw [if_pos hlarge, if_neg (not_contains_of_large hF t hlarge)]
  · rw [if_neg hlarge, ← value_unpack, Unpacked.value, truncate_sgn_mul (by positivity),
      floor_shift, IntTarget.ofSignMagnitude?_eq]
    generalize (if 0 ≤ (F.unpack a).exp then _ else _ : Nat) = n
    by_cases hcontains : t.Contains (if (F.unpack a).negative then -(n : Int) else n)
    · simp only [if_pos hcontains]
    · simp only [if_neg hcontains]

/-! ### Telling a range by comparing floats -/

/-- How many quanta make one. -/
def scale (F : Format) : Nat := 2 ^ (F.bias + F.mantBits - 1)

theorem scale_mul_quantum (hF : F.Regular) : F.scale * F.quantum = 1 := by
  have hbias := hF.bias_pos
  have hcast : ((F.bias + F.mantBits - 1 : Nat) : Int) + F.minLsb = 0 := by
    rw [minLsb]
    omega
  rw [scale, quantum, Nat.cast_pow, Nat.cast_two, ← zpow_natCast,
    ← zpow_add₀ two_ne_zero, hcast, zpow_zero]

/-- **The first magnitude from an integer on**: its value is at least the
integer, and that of the magnitude before it is less. -/
def Marks (F : Format) (k c : Nat) : Prop := F.units (c - 1) < k * F.scale ∧ k * F.scale ≤ F.units c

instance (F : Format) (k c : Nat) : Decidable (F.Marks k c) := inferInstanceAs (Decidable (_ ∧ _))

section Marks

variable {k c p : Nat} (hmark : F.Marks k c)
include hmark

theorem Marks.le_iff : k * F.scale ≤ F.units p ↔ F.units c ≤ F.units p := by
  constructor
  · intro h
    have hlt : F.units (c - 1) < F.units p := lt_of_lt_of_le hmark.1 h
    have := units_strictMono.lt_iff_lt.1 hlt
    exact units_strictMono.monotone (by omega)
  · exact hmark.2.trans

/-- A value is at least the integer if it is at least that of the magnitude. -/
theorem Marks.le_signedUnits_iff : ((k * F.scale : Nat) : Int) ≤ F.signedUnits a ↔
    (F.units c : Int) ≤ F.signedUnits a := by
  have hiff := hmark.le_iff (p := F.magnitude a)
  have hlow := hmark.1
  have hhigh := hmark.2
  rw [signedUnits]
  split <;> omega

/-- The same below zero. -/
theorem Marks.signedUnits_le_iff : F.signedUnits a ≤ -((k * F.scale : Nat) : Int) ↔
    F.signedUnits a ≤ -(F.units c : Int) := by
  have hiff := hmark.le_iff (p := F.magnitude a)
  have hlow := hmark.1
  have hhigh := hmark.2
  rw [signedUnits]
  split <;> omega

end Marks

theorem le_value_iff (hF : F.Regular) (k : Nat) : (k : ℝ) ≤ F.value a ↔
    ((k * F.scale : Nat) : Int) ≤ F.signedUnits a := by
  have hk : (k : ℝ) = ((k * F.scale : Nat) : Int) * F.quantum := by
    push_cast
    rw [mul_assoc, scale_mul_quantum hF, mul_one]
  rw [hk, value_eq_signedUnits, mul_le_mul_iff_left₀ F.quantum_pos, Int.cast_le]

theorem value_le_iff (hF : F.Regular) (k : Nat) : F.value a ≤ -(k : ℝ) ↔
    F.signedUnits a ≤ -((k * F.scale : Nat) : Int) := by
  have hk : -(k : ℝ) = ((-(k * F.scale : Nat) : Int) : ℝ) * F.quantum := by
    push_cast
    rw [neg_mul, mul_assoc, scale_mul_quantum hF, mul_one]
  rw [hk, value_eq_signedUnits, mul_le_mul_iff_left₀ F.quantum_pos, Int.cast_le]

end Format

namespace NativeOps

/-- **The bounds are right**: each is the first float beyond its range, on its
side of zero. -/
theorem bounds_marks (w : Width) (t : IntTarget) :
    (w.format.isNan (bounds w t).1.toNat = false ∧ w.format.negative (bounds w t).1.toNat = true ∧
      w.format.Marks (t.limit true + 1) (w.format.magnitude (bounds w t).1.toNat)) ∧
    (w.format.isNan (bounds w t).2.toNat = false ∧ w.format.negative (bounds w t).2.toNat = false ∧
      w.format.Marks (t.limit false + 1) (w.format.magnitude (bounds w t).2.toNat)) := by
  cases w <;> cases t <;> decide +kernel

/-- A float truncates into the range if it lies strictly between the bounds. -/
theorem not_contains_iff {w : Width} {t : IntTarget} {a : Nat} (hnan : w.format.isNan a = false) :
    ¬t.Contains (truncate (w.format.value a)) ↔
      w.format.extended a ≤ w.format.extended (bounds w t).1.toNat ∨
        w.format.extended (bounds w t).2.toNat ≤ w.format.extended a := by
  have hF := w.regular
  obtain ⟨⟨hlo, hlos, hlom⟩, hhi, hhis, hhim⟩ := bounds_marks w t
  have hlow : w.format.signedUnits (bounds w t).1.toNat =
    -w.format.units (w.format.magnitude (bounds w t).1.toNat) := if_pos hlos
  have hhigh : w.format.signedUnits (bounds w t).2.toNat =
      w.format.units (w.format.magnitude (bounds w t).2.toNat) := by
    rw [Format.signedUnits, hhis, if_neg Bool.false_ne_true]
  rw [IntTarget.not_contains_truncate_iff, Format.value_le_iff hF, Format.le_value_iff hF,
    hlom.signedUnits_le_iff, hhim.le_signedUnits_iff, Format.extended_le_iff hF hnan hlo,
    Format.extended_le_iff hF hhi hnan, hlow, hhigh]

end NativeOps

end WasmEngine
