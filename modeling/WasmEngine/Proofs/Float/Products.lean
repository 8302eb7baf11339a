import WasmEngine.Proofs.Float.Results

/-!
# Products, quotients and roots

For these operations the sign of the result is known beforehand, also where the
result is zero or an infinity: it is that of the operands combined. So a result
is a **number rounded with a sign** (`WasmEngine.Format.RoundsSigned`), and the
two ends of the range are settled by that: what is too small becomes the zero of
the sign, by way of the values below the least normal one, and what is too large
becomes the infinity of the sign. The operations differ in what they do with
zeros and infinities (`WasmEngine.Format.Multiplies`,
`WasmEngine.Format.Divides`, `WasmEngine.Format.Roots`).
-/

namespace WasmEngine

namespace Format

variable {F : Format} {x y : ℝ} {s : Bool} {a b r : Nat}

/-! ### The size of values -/

theorem abs_value (a : Nat) : |F.value a| = F.units (F.magnitude a) * F.quantum := by
  have hq := F.quantum_pos
  rw [value, abs_mul, abs_sgn, one_mul, abs_of_nonneg (by positivity)]

theorem value_eq_sgn_mul (a : Nat) : F.value a = sgn (F.negative a) * |F.value a| := by
  rw [abs_value, value]

/-- Finite values are below the threshold, which is above the largest of them. -/
theorem Finite.abs_value_lt (hF : F.Regular) (h : F.Finite a) : |F.value a| < F.threshold := by
  have hpos := hF.expMask_pos
  rw [Finite] at h
  have hlast : F.units (F.magnitude a) ≤ F.units (F.expMask - 1) :=
    units_strictMono.monotone (by omega)
  have hnext : F.units (F.expMask - 1) < F.units F.expMask := units_strictMono (by omega)
  rw [abs_value, threshold_eq hF]
  refine mul_lt_mul_of_pos_right ?_ F.quantum_pos
  have hlast' : (F.units (F.magnitude a) : ℝ) ≤ F.units (F.expMask - 1) := Nat.cast_le.2 hlast
  have hnext' : (F.units (F.expMask - 1) : ℝ) < F.units F.expMask := Nat.cast_lt.2 hnext
  linarith

theorem two_pow_bias_le_threshold : 2 ^ F.bias ≤ F.threshold := by
  have hhalf : (2 : ℝ) ^ (-(F.mantBits + 1 : Int)) ≤ 1 :=
    zpow_le_one_of_nonpos₀ one_le_two (by omega)
  rw [threshold]
  exact le_mul_of_one_le_right (by positivity) (by linarith)

/-- Up to the least normal value, magnitudes are numbers of quanta. -/
theorem units_of_le (h : a ≤ F.hiddenBit) : F.units a = a := by
  simpa using F.units_pack (e := 0) (q := a) (by omega) (.inr rfl)

theorem hiddenBit_lt_expMask (hF : F.Regular) : F.hiddenBit < F.expMask := by
  have hmax := hF.maxExp_eq
  have hbias := hF.bias_pos
  rw [expMask]
  exact lt_mul_of_one_lt_left F.hiddenBit_pos (by omega)

/-- The least normal value is finite. -/
theorem hiddenBit_mul_quantum_lt (hF : F.Regular) : F.hiddenBit * F.quantum < F.threshold := by
  have hmask := hiddenBit_lt_expMask hF
  have hmag : F.magnitude F.hiddenBit = F.hiddenBit :=
    Nat.mod_eq_of_lt (hmask.trans F.expMask_lt_signBit)
  have hfin : F.Finite F.hiddenBit := by
    rw [Finite, hmag]
    exact hmask
  have hlt := hfin.abs_value_lt hF
  rwa [abs_value, hmag, units_of_le le_rfl] at hlt

/-! ### Numbers rounded with a sign -/

theorem Rounds.finite (h : F.Rounds x r) (hx : |x| < F.threshold) : F.Finite r := by
  cases h with
  | nearest _ hr => exact hr
  | overflow hge => exact absurd hx (not_lt.2 hge)

/-- **A number of a sign is correctly rounded.** -/
structure RoundsSigned (F : Format) (x : ℝ) (s : Bool) (r : Nat) : Prop where
  /-- The result is nearest to the number, with ties to even. -/
  rounds : F.Rounds x r
  /-- It has the sign. -/
  sign : F.negative r = s
  /-- Underflow is gradual: up to the least normal value the result is within
  half of the smallest value of all. -/
  gradual : |x| ≤ F.hiddenBit * F.quantum → |x - F.value r| ≤ F.quantum / 2
  /-- What is at most half of the smallest value becomes the zero of the sign. -/
  underflow : |x| ≤ F.quantum / 2 → r = F.zero s
  /-- What is too large becomes the infinity of the sign. -/
  overflow : F.threshold ≤ |x| → r = F.infinity s

/-- Numbers up to the least normal value have a finite value nearby: that of the
nearest number of quanta. -/
theorem exists_near (hF : F.Regular) (hx : |x| ≤ F.hiddenBit * F.quantum) : ∃ c, F.Finite c ∧
    |x - F.value c| ≤ F.quantum / 2 := by
  have hq := F.quantum_pos
  have hmask := hiddenBit_lt_expMask hF
  obtain ⟨s, hs⟩ : ∃ s : Bool, s ↔ x < 0 ∨ (x = 0 ∧ false) := ⟨decide (x < 0), by simp⟩
  obtain ⟨t, ht, hxt⟩ := exists_quanta F hs
  have hquanta : t ≤ F.hiddenBit := by
    rw [hxt, abs_mul, abs_sgn, one_mul, abs_of_nonneg (by positivity)] at hx
    exact le_of_mul_le_mul_right hx hq
  obtain ⟨n, hn⟩ : ∃ n : Nat, round t = n :=
    Int.eq_ofNat_of_zero_le (round_eq t ▸ Int.floor_nonneg.2 (by positivity))
  have hnear : |t - n| ≤ 1 / 2 := by
    have := abs_sub_round t
    rwa [hn, Int.cast_natCast] at this
  have hle : n ≤ F.hiddenBit := by
    have hlt : (n : ℝ) < F.hiddenBit + 1 := by linarith [(abs_le.1 hnear).1]
    exact Nat.lt_succ_iff.1 (by exact_mod_cast hlt)
  have hlt : n < F.signBit := (hle.trans_lt hmask).trans F.expMask_lt_signBit
  refine ⟨F.zero s + n, ?_, ?_⟩
  · rw [Finite, magnitude_zero_add hlt]
    exact hle.trans_lt hmask
  · rw [abs_sub_value_same hxt (negative_zero_add hlt s), magnitude_zero_add hlt, units_of_le hle]
    have := mul_le_mul_of_nonneg_right hnear hq.le
    linarith

/-- Half of the smallest value is rounded to zero, as the smallest value itself
is odd. -/
theorem Rounds.isZero_of_le (hF : F.Regular) (h : F.Rounds x r)
    (hx : |x| ≤ F.quantum / 2) : F.isZero r := by
  have hq := F.quantum_pos
  have hzero : F.value (F.zero false) = 0 := value_eq_zero_iff.2 (by simp [isZero_iff])
  have hfin : F.Finite (F.zero false) := finite_of_isZero hF (by simp [isZero_iff])
  cases h with
  | nearest _ hr near even =>
    by_contra hne
    have hunits : 1 ≤ F.units (F.magnitude r) := Nat.one_le_iff_ne_zero.2 fun h0 =>
      hne (isZero_iff.2 (units_eq_zero_iff.1 h0))
    have hsize : F.units (F.magnitude r) * F.quantum ≤ |x - F.value r| + |x| := by
      rw [← abs_value]
      have := abs_sub_abs_le_abs_sub (F.value r) x
      rw [abs_sub_comm] at this
      linarith
    have hnear := near _ hfin
    rw [hzero, sub_zero] at hnear
    have hone : (1 : ℝ) ≤ F.units (F.magnitude r) := by exact_mod_cast hunits
    have hsmallest : F.quantum ≤ F.units (F.magnitude r) * F.quantum :=
      le_mul_of_one_le_left hq.le hone
    have heven : Even r :=
      even _ hfin (by rw [hzero]; exact fun h0 => hne (value_eq_zero_iff.1 h0.symm)) (by
      rw [hzero, sub_zero]
      linarith)
    -- only the smallest value is that close, and it is not even
    have hlt : (F.units (F.magnitude r) : ℝ) ≤ 1 := by
      refine le_of_mul_le_mul_right ?_ hq
      linarith
    have hmag : F.magnitude r = 1 := by
      have hunit : F.units 1 = 1 := units_of_le F.hiddenBit_pos
      exact units_strictMono.injective (hunit ▸ le_antisymm (by exact_mod_cast hlt) hunits)
    rw [← hF.even_magnitude_iff, hmag] at heven
    exact absurd heven (by decide)
  | overflow hge =>
    have hlt := hiddenBit_mul_quantum_lt hF
    have hone : (1 : ℝ) ≤ F.hiddenBit := by exact_mod_cast F.hiddenBit_pos
    have := le_mul_of_one_le_left hq.le hone
    linarith

theorem RoundsSigned.of_rounds (hF : F.Regular) (hr : r < 2 * F.signBit) (h : F.Rounds x r)
    (hs : F.negative r = s) : F.RoundsSigned x s r where
  rounds := h
  sign := hs
  gradual hx := by
    cases h with
    | nearest _ _ near =>
      obtain ⟨c, hc, hle⟩ := exists_near hF hx
      exact (near c hc).trans hle
    | overflow hge => exact absurd (hge.trans hx) (not_le.2 (hiddenBit_mul_quantum_lt hF))
  underflow hx := hs ▸ eq_zero hr (h.isZero_of_le hF hx)
  overflow hx := by
    cases h with
    | nearest hlt => exact absurd hx (not_le.2 hlt)
    | overflow _ hinf => exact hs ▸ eq_infinity hr hinf

/-- A delivered number has its sign, and if it is zero that which is asked for. -/
theorem Delivers.roundsSigned (hF : F.Regular) (hr : r < 2 * F.signBit)
    (hx : x = sgn s * y) (hy : 0 ≤ y) (h : F.Delivers (.finite x s) r) : F.RoundsSigned x s r := by
  subst hx
  refine .of_rounds hF hr h.1 (Bool.eq_iff_iff.2 (h.2.trans ?_))
  obtain rfl | hpos := hy.eq_or_lt
  · simp
  · cases s with
    | false => simp [sgn, hpos.ne', not_lt.2 hpos.le]
    | true => simp [sgn, hpos]

/-! ### Products -/

/-- **What the product of two patterns has to be.** -/
structure Multiplies (F : Format) (a b r : Nat) : Prop where
  /-- The product of finite operands is the exact one, correctly rounded, and
  negative if one of them is. -/
  finite : F.Finite a → F.Finite b → F.RoundsSigned (F.value a * F.value b)
    (F.negative a != F.negative b) r
  /-- A zero operand leaves the zero of the sign. -/
  zero : F.Finite a → F.Finite b → F.isZero a ∨ F.isZero b →
    r = F.zero (F.negative a != F.negative b)
  /-- An infinite operand leaves the infinity of the sign. -/
  infinite : F.isNan a = false → F.isNan b = false → ¬F.isZero a → ¬F.isZero b →
    F.isInfinite a ∨ F.isInfinite b →
    r = F.infinity (F.negative a != F.negative b)
  /-- A zero and an infinity have no product, in either order. -/
  invalid : (F.isZero a ∧ F.isInfinite b) ∨ (F.isInfinite a ∧ F.isZero b) → r = F.canonicalNan
  /-- A NaN has no product with anything. -/
  nan : F.isNan a ∨ F.isNan b → F.isNan r

theorem value_mul_value (a b : Nat) : F.value a * F.value b = sgn (F.negative a != F.negative b) *
    (|F.value a| * |F.value b|) := by
  calc F.value a * F.value b = sgn (F.negative a) * |F.value a| *
      (sgn (F.negative b) * |F.value b|) := by
        rw [← value_eq_sgn_mul, ← value_eq_sgn_mul]
    _ = sgn (F.negative a != F.negative b) * (|F.value a| * |F.value b|) := by
        rw [sgn_bne]
        ring

theorem exactMul_finite (ha : F.Finite a) (hb : F.Finite b) :
    F.exactMul a b = .finite (F.value a * F.value b) (F.negative a != F.negative b) := by
  rw [exactMul, ofOperands, if_neg (by simp [ha.not_nan, hb.not_nan]),
    if_neg (by simp [ha.not_infinite, hb.not_infinite]),
    if_neg (by simp [ha.not_infinite, hb.not_infinite])]

/-- **A product, case by case.** -/
theorem Multiplies.of_delivers (hF : F.Regular) (hr : r < 2 * F.signBit)
    (hcanonical : F.isNan a = false → F.isNan b = false → F.isNan r → r = F.canonicalNan)
    (h : F.Delivers (F.exactMul a b) r) : F.Multiplies a b r where
  finite ha hb := by
    rw [exactMul_finite ha hb] at h
    exact h.roundsSigned hF hr (value_mul_value a b) (by positivity)
  zero ha hb hzero := by
    have hvalue : F.value a * F.value b = 0 :=
      mul_eq_zero.2 (hzero.imp value_eq_zero_iff.2 value_eq_zero_iff.2)
    rw [exactMul_finite ha hb, hvalue] at h
    exact h.eq_zero_of_finite hF hr
  infinite ha hb hza hzb hinf := by
    rw [exactMul, ofOperands, if_neg (by simp [ha, hb]),
      if_neg (by simp [hza, hzb]), if_pos hinf] at h
    exact h
  invalid hinvalid := by
    have hnan : F.isNan a = false ∧ F.isNan b = false := by
      rcases hinvalid with ⟨ha, hb⟩ | ⟨ha, hb⟩
      · exact ⟨(finite_of_isZero hF ha).not_nan, not_nan_of_isInfinite hb⟩
      · exact ⟨not_nan_of_isInfinite ha, (finite_of_isZero hF hb).not_nan⟩
    rw [exactMul, ofOperands, if_neg (by simp [hnan]),
      if_pos (hinvalid.symm.imp_right And.symm)] at h
    exact hcanonical hnan.1 hnan.2 h
  nan hnan := by
    rw [exactMul, ofOperands, if_pos hnan] at h
    exact h

/-! ### Quotients -/

/-- **What the quotient of two patterns has to be.** -/
structure Divides (F : Format) (a b r : Nat) : Prop where
  /-- The quotient of finite operands is the exact one, correctly rounded, and
  negative if one of them is. -/
  finite : F.Finite a → F.Finite b → ¬F.isZero b → F.RoundsSigned (F.value a / F.value b)
    (F.negative a != F.negative b) r
  /-- A zero divided by something else is the zero of the sign. -/
  zero : F.isZero a → F.isNan b = false → ¬F.isZero b → r = F.zero (F.negative a != F.negative b)
  /-- Something else divided by zero is the infinity of the sign. -/
  byZero : F.isNan a = false → ¬F.isZero a → F.isZero b →
    r = F.infinity (F.negative a != F.negative b)
  /-- An infinity divided by a finite value is the infinity of the sign. -/
  infinite : F.isInfinite a → F.Finite b → r = F.infinity (F.negative a != F.negative b)
  /-- A finite value divided by an infinity is the zero of the sign. -/
  byInfinity : F.Finite a → F.isInfinite b → r = F.zero (F.negative a != F.negative b)
  /-- Two zeros and two infinities have no quotient. -/
  invalid : (F.isZero a ∧ F.isZero b) ∨ (F.isInfinite a ∧ F.isInfinite b) → r = F.canonicalNan
  /-- A NaN has no quotient with anything. -/
  nan : F.isNan a ∨ F.isNan b → F.isNan r

theorem value_div_value (a b : Nat) : F.value a / F.value b = sgn (F.negative a != F.negative b) *
    (|F.value a| / |F.value b|) := by
  calc F.value a / F.value b = sgn (F.negative a) * |F.value a| /
      (sgn (F.negative b) * |F.value b|) := by
        rw [← value_eq_sgn_mul, ← value_eq_sgn_mul]
    _ = sgn (F.negative a != F.negative b) * (|F.value a| / |F.value b|) := by
        rw [sgn_bne, mul_div_mul_comm, div_eq_mul_inv (sgn _), sgn_inv]

theorem exactDiv_finite (ha : F.Finite a) (hb : F.Finite b) (hzero : ¬F.isZero b) :
    F.exactDiv a b = .finite (F.value a / F.value b) (F.negative a != F.negative b) := by
  rw [exactDiv, ofOperands, if_neg (by simp [ha.not_nan, hb.not_nan]),
    if_neg (by simp [ha.not_infinite, hzero]), if_neg (by simp [ha.not_infinite, hzero]),
    if_neg hb.not_infinite]

theorem exactDiv_infinite (hF : F.Regular) (ha : F.Finite a) (hb : F.isInfinite b) :
    F.exactDiv a b = .finite 0 (F.negative a != F.negative b) := by
  have hzero : ¬F.isZero b := fun hz => (finite_of_isZero hF hz).not_infinite hb
  rw [exactDiv, ofOperands, if_neg (by simp [ha.not_nan, not_nan_of_isInfinite hb]),
    if_neg (by simp [ha.not_infinite, hzero]), if_neg (by simp [ha.not_infinite, hzero]), if_pos hb]

/-- **A quotient, case by case.** -/
theorem Divides.of_delivers (hF : F.Regular) (hr : r < 2 * F.signBit)
    (hcanonical : F.isNan a = false → F.isNan b = false → F.isNan r → r = F.canonicalNan)
    (h : F.Delivers (F.exactDiv a b) r) : F.Divides a b r where
  finite ha hb hzb := by
    rw [exactDiv_finite ha hb hzb] at h
    exact h.roundsSigned hF hr (value_div_value a b) (by positivity)
  zero hza hb hzb := by
    have ha := finite_of_isZero hF hza
    -- the divisor may be an infinity, whose value is of no account
    by_cases hinf : F.isInfinite b
    · rw [exactDiv_infinite hF ha hinf] at h
      exact h.eq_zero_of_finite hF hr
    · rw [exactDiv_finite ha (finite_of hb hinf) hzb, value_eq_zero_iff.2 hza, zero_div] at h
      exact h.eq_zero_of_finite hF hr
  byZero ha hza hzb := by
    have hb := finite_of_isZero hF hzb
    rw [exactDiv, ofOperands, if_neg (by simp [ha, hb.not_nan]),
      if_neg (by simp [hb.not_infinite, hza]), if_pos (.inr hzb)] at h
    exact h
  infinite ha hb := by
    have hza : ¬F.isZero a := fun hz => (finite_of_isZero hF hz).not_infinite ha
    rw [exactDiv, ofOperands, if_neg (by simp [not_nan_of_isInfinite ha, hb.not_nan]),
      if_neg (by simp [hb.not_infinite, hza]), if_pos (.inl ha)] at h
    exact h
  byInfinity ha hb := by
    rw [exactDiv_infinite hF ha hb] at h
    exact h.eq_zero_of_finite hF hr
  invalid hinvalid := by
    have hnan : F.isNan a = false ∧ F.isNan b = false := by
      rcases hinvalid with ⟨ha, hb⟩ | ⟨ha, hb⟩
      · exact ⟨(finite_of_isZero hF ha).not_nan, (finite_of_isZero hF hb).not_nan⟩
      · exact ⟨not_nan_of_isInfinite ha, not_nan_of_isInfinite hb⟩
    rw [exactDiv, ofOperands, if_neg (by simp [hnan]), if_pos hinvalid.symm] at h
    exact hcanonical hnan.1 hnan.2 h
  nan hnan := by
    rw [exactDiv, ofOperands, if_pos hnan] at h
    exact h

/-! ### Roots -/

/-- **What the square root of a pattern has to be.** -/
structure Roots (F : Format) (a r : Nat) : Prop where
  /-- The root of a finite positive value is the exact one, correctly rounded,
  and finite again. -/
  finite : F.Finite a → F.negative a = false → F.Finite r ∧ F.RoundsSigned (√(F.value a)) false r
  /-- The root of a zero is that zero. -/
  zero : F.isZero a → r = a
  /-- The root of the positive infinity is that infinity. -/
  infinite : F.isInfinite a → F.negative a = false → r = a
  /-- There is no root of a negative value or the negative infinity. -/
  invalid : F.isNan a = false → F.negative a → ¬F.isZero a → r = F.canonicalNan
  /-- There is no root of a NaN. -/
  nan : F.isNan a → F.isNan r

/-- Roots stay below the threshold. -/
theorem sqrt_lt_threshold (hF : F.Regular) (hx : x < F.threshold) : √x < F.threshold := by
  have hone : 1 < F.threshold := (one_lt_pow₀ one_lt_two hF.bias_pos.ne').trans_le
    two_pow_bias_le_threshold
  obtain h | h := le_total x 1
  · exact (Real.sqrt_le_one.2 h).trans_lt hone
  · exact (Real.sqrt_le_iff.2 ⟨by linarith, by nlinarith⟩).trans_lt hx

/-- **A root, case by case.** -/
theorem Roots.of_delivers (hF : F.Regular) (ha : a < 2 * F.signBit) (hr : r < 2 * F.signBit)
    (hcanonical : F.isNan a = false → F.isNan r → r = F.canonicalNan)
    (h : F.Delivers (F.exactSqrt a) r) : F.Roots a r where
  finite hfin hs := by
    rw [exactSqrt, ofOperand, if_neg (by simp [hfin.not_nan]), if_neg (by simp [hs]),
      if_neg hfin.not_infinite, hs] at h
    have hroot := h.roundsSigned hF hr (by simp [sgn]) (Real.sqrt_nonneg (F.value a))
    refine ⟨hroot.rounds.finite ?_, hroot⟩
    rw [abs_of_nonneg (Real.sqrt_nonneg _)]
    exact sqrt_lt_threshold hF (lt_of_abs_lt (hfin.abs_value_lt hF))
  zero hzero := by
    have hfin := finite_of_isZero hF hzero
    rw [exactSqrt, ofOperand, if_neg (by simp [hfin.not_nan]), if_neg (by simp [hzero]),
      if_neg hfin.not_infinite, value_eq_zero_iff.2 hzero, Real.sqrt_zero] at h
    exact (h.eq_zero_of_finite hF hr).trans (eq_zero ha hzero).symm
  infinite hinf hs := by
    rw [exactSqrt, ofOperand, if_neg (by simp [not_nan_of_isInfinite hinf]),
      if_neg (by simp [hs]), if_pos hinf] at h
    exact Eq.trans h (hs ▸ (eq_infinity ha hinf).symm)
  invalid hnan hs hzero := by
    rw [exactSqrt, ofOperand, if_neg (by simp [hnan]), if_pos ⟨hs, hzero⟩] at h
    exact hcanonical hnan h
  nan hnan := by
    rw [exactSqrt, ofOperand, if_pos hnan] at h
    exact h

end Format

namespace FloatPolicy

/-- **Products are correctly rounded**, at both widths and for all operands. -/
theorem soft_products_rounded (w : Width) (a b : Pattern w) :
    w.format.Multiplies a.toNat b.toNat ((soft.ops w).binary .mul a b).toNat := by
  have hF := w.regular
  have ha := Width.toNat_lt a
  have hb := Width.toNat_lt b
  have hrule := Format.nanRule_mul hF ha hb
  rw [show ((soft.ops w).binary .mul a b).toNat = w.format.mul a.toNat
    b.toNat from Width.toNat_ofNat hrule.lt]
  exact .of_delivers hF hrule.lt (fun hna hnb => hrule.canonical (by simp [hna, hnb]))
    (Format.mul_delivers hF ha hb)

/-- **Quotients are correctly rounded**, at both widths and for all operands. -/
theorem soft_quotients_rounded (w : Width) (a b : Pattern w) :
    w.format.Divides a.toNat b.toNat ((soft.ops w).binary .div a b).toNat := by
  have hF := w.regular
  have ha := Width.toNat_lt a
  have hb := Width.toNat_lt b
  have hrule := Format.nanRule_div hF ha hb
  rw [show ((soft.ops w).binary .div a b).toNat = w.format.div a.toNat
    b.toNat from Width.toNat_ofNat hrule.lt]
  exact .of_delivers hF hrule.lt (fun hna hnb => hrule.canonical (by simp [hna, hnb]))
    (Format.div_delivers hF ha hb)

/-- **Square roots are correctly rounded**, at both widths and for all operands. -/
theorem soft_roots_rounded (w : Width) (a : Pattern w) :
    w.format.Roots a.toNat ((soft.ops w).unary .sqrt a).toNat := by
  have hF := w.regular
  have ha := Width.toNat_lt a
  have hrule := Format.nanRule_sqrt hF ha
  rw [show ((soft.ops w).unary .sqrt a).toNat =
    w.format.sqrt a.toNat from Width.toNat_ofNat hrule.lt]
  exact .of_delivers hF ha hrule.lt (fun hna => hrule.canonical (by simp [hna]))
    (Format.sqrt_delivers hF ha)

end FloatPolicy

end WasmEngine
