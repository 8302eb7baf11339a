import WasmEngine.Proofs.Float.Arithmetic

/-!
# Rounding to integral values is correct

Rounding to an integral value works on the pattern: clearing the bits below a
unit gives the integer toward zero, and adding the unit the next one, with a
carry into the exponent where it is due
(`WasmEngine.Format.roundToInt_represents`). Which of the two it is depends on
the mode, on the sign, and on how the fraction compares to a half
(`WasmEngine.Rounding.integral_of_between`). The result is the integer itself,
so nothing is left to be rounded (`WasmEngine.Format.roundToInt_delivers`).
-/

namespace WasmEngine

/-! ### The four modes -/

namespace Rounding

@[simp]
theorem integral_intCast (mode : Rounding) (k : Int) : mode.integral k = k := by
  cases mode <;> simp [integral, truncate, nearestEven]

/-- A number strictly between two integers goes to the one toward zero or to the
other, as `Rounding.away` says. -/
theorem integral_of_between (mode : Rounding) {s near : Bool} {y : ℝ} {k : Nat}
    (hlo : k < y) (hhi : y < k + 1) (hnear : near ↔ 1 / 2 < y - k ∨ (y - k = 1 / 2 ∧ Odd k)) :
    (mode.integral (sgn s * y) : ℝ) =
    sgn s * (if mode.away s near then (k + 1 : Nat) else k : Nat) := by
  have hfloor : ⌊y⌋ = k := Int.floor_eq_iff.2 ⟨by exact_mod_cast hlo.le, by exact_mod_cast hhi⟩
  have hceil : ⌈y⌉ = k + 1 := Int.ceil_eq_iff.2 ⟨by push_cast; linarith, by push_cast; linarith⟩
  have hnonneg : 0 ≤ y := le_trans (Nat.cast_nonneg k) hlo.le
  have hpos : 0 < y := lt_of_le_of_lt (Nat.cast_nonneg k) hlo
  cases s with
  | false =>
    cases mode with
    | ceil => simp [integral, away, sgn, hceil]
    | floor => simp [integral, away, sgn, hfloor]
    | trunc => simp [integral, away, sgn, truncate, hfloor, hnonneg]
    | nearest =>
      have hx : sgn false * y = y := by simp [sgn]
      have hiff :
          (y - (k : Int) < (k : Int) + 1 - y ∨
            (y - (k : Int) = (k : Int) + 1 - y ∧ Even (k : Int))) ↔ ¬near := by
        rw [hnear, Int.cast_natCast, Int.even_coe_nat, ← Nat.not_odd_iff_even,
          not_or, not_lt, not_and]
        constructor
        · rintro (h | ⟨h, hodd⟩)
          · exact ⟨by linarith, fun h' => absurd h' (by linarith)⟩
          · exact ⟨by linarith, fun _ => hodd⟩
        · rintro ⟨h, hodd⟩
          exact h.lt_or_eq.imp (fun h' => by linarith) fun h' => ⟨by linarith, hodd h'⟩
      simp only [integral, away, hx, nearestEven, hfloor, hiff]
      cases near <;> simp [sgn]
  | true =>
    cases mode with
    | ceil => simp [integral, away, sgn, Int.ceil_neg, hfloor]
    | floor => simp [integral, away, sgn, Int.floor_neg, hceil]
    | trunc => simp [integral, away, sgn, truncate, Int.ceil_neg, hfloor, hpos]
    | nearest =>
      -- The floor has the larger magnitude now, and it is even if `k` is odd.
      have hx : sgn true * y = -y := by simp [sgn]
      have hiff : (-y - (-(k + 1 : Int) : Int) < (-(k + 1 : Int) : Int) + 1 - -y ∨
          (-y - (-(k + 1 : Int) : Int) = (-(k + 1 : Int) : Int) + 1 - -y ∧ Even (-(k + 1 : Int)))) ↔
          near := by
        have heven : Even (-(k + 1 : Int)) ↔ Odd k := by
          rw [even_neg, Int.even_add_one, Int.not_even_iff_odd, Int.odd_coe_nat]
        rw [hnear, heven]
        push_cast
        refine or_congr ?_ (and_congr_left fun _ => ?_) <;> constructor <;> intro h <;> linarith
      simp only [integral, away, hx, nearestEven, Int.floor_neg, hceil, hiff]
      cases near <;> simp [sgn]

end Rounding

namespace Format

variable {F : Format} {x : ℝ} {a p r : Nat} {s : Bool}

/-! ### Numbers that are values -/

/-- **A pattern stands for a number** exactly, with a sign that also a zero has. -/
structure Represents (F : Format) (x : ℝ) (s : Bool) (r : Nat) : Prop where
  /-- It is a pattern of the format. -/
  lt : r < 2 * F.signBit
  /-- It is finite. -/
  finite : F.Finite r
  /-- Its value is the number. -/
  value : F.value r = x
  /-- It has the sign. -/
  sign : F.negative r = s

theorem represents_zero_add (hp : p < F.expMask) (hx : sgn s * (F.units p * F.quantum) = x) :
    F.Represents x s (F.zero s + p) := by
  have hlt := hp.trans F.expMask_lt_signBit
  refine ⟨zero_add_lt hlt, ?_, ?_, negative_zero_add hlt s⟩
  · rwa [Finite, magnitude_zero_add hlt]
  · rw [value_zero_add hlt, hx]

/-- A number is the value of one pattern of each sign. -/
theorem Represents.unique (ha : F.Represents x s a) (hr : F.Represents x s r) : a = r := by
  refine eq_of_magnitude ha.lt hr.lt (ha.sign.trans hr.sign.symm) ?_
  have hvalue := ha.value.trans hr.value.symm
  have hsgn : sgn s ≠ 0 := by
    cases s <;> simp [sgn]
  rw [Format.value, Format.value, ha.sign, hr.sign] at hvalue
  exact units_strictMono.injective
    (Nat.cast_injective (mul_right_cancel₀ F.quantum_pos.ne' (mul_left_cancel₀ hsgn hvalue)))

/-- What stands for a number delivers it. -/
theorem Represents.delivers (hF : F.Regular) (h : F.Represents x s r) :
    F.Delivers (.finite x s) r := by
  rw [← h.value]
  exact value_delivers hF h.lt h.finite fun _ => h.sign

/-- The value of a significand at a place. -/
theorem value_pack {e q : Nat} (hq : q ≤ 2 * F.hiddenBit) (he : F.hiddenBit ≤ q ∨ e = 0)
    (hlt : e * F.hiddenBit + q < F.signBit) :
    F.value (F.zero s + (e * F.hiddenBit + q)) = sgn s * (q * 2 ^ (e + F.minLsb)) := by
  rw [value_zero_add hlt, units_pack hq he, quantum, zpow_add₀ two_ne_zero, zpow_natCast]
  push_cast
  ring

/-- The value of the least significand of a normal exponent. -/
theorem units_normal {e : Nat} (he : 0 < e) : (F.units (e * F.hiddenBit) : ℝ) * F.quantum =
    2 ^ ((e : Int) - F.bias) := by
  have hh := F.hiddenBit_pos
  obtain ⟨k, rfl⟩ : ∃ k, e = k + 1 := ⟨e - 1, by omega⟩
  have hexp : ((k + 1 : Nat) : Int) - F.bias = F.mantBits + k + F.minLsb := by
    rw [minLsb]
    omega
  rw [Nat.add_mul, Nat.one_mul, units_pack (by omega) (.inl le_rfl), quantum, hexp,
    zpow_add₀ two_ne_zero, zpow_add₀ two_ne_zero, zpow_natCast, zpow_natCast, hiddenBit_eq]
  push_cast
  rfl

/-- A magnitude of a normal exponent, by its significand. -/
theorem magnitude_normal (hexp : F.biasedExp a ≠ 0) :
    F.magnitude a = (F.biasedExp a - 1) * F.hiddenBit + (F.mantissa a + F.hiddenBit) := by
  have hdiv := Nat.div_add_mod' (F.magnitude a) F.hiddenBit
  obtain ⟨k, hk⟩ : ∃ k, F.biasedExp a = k + 1 := ⟨F.biasedExp a - 1, by omega⟩
  rw [← biasedExp_eq, ← mantissa_eq, hk, Nat.add_mul] at hdiv
  rw [hk, Nat.add_sub_cancel]
  omega

theorem value_normal (hexp : F.biasedExp a ≠ 0) :
    F.value a = sgn (F.negative a) *
      ((F.mantissa a + F.hiddenBit : Nat) * 2 ^ ((F.biasedExp a - 1 : Nat) + F.minLsb)) := by
  have hcast : (F.biasedExp a : Int) + F.minLsb - 1 =
    (F.biasedExp a - 1 : Nat) + F.minLsb := by omega
  rw [← value_unpack, unpack, if_neg hexp, Unpacked.value]
  dsimp only
  rw [hcast]

section

variable (hF : F.Regular)
include hF

/-! ### Values below one -/

theorem one_lt_expMask : F.bias * F.hiddenBit < F.expMask := by
  have := hF.maxExp_eq
  exact Nat.mul_lt_mul_of_pos_right (by omega) F.hiddenBit_pos

/-- A value below one goes to zero or to one. -/
theorem roundToInt_small (hzero : ¬F.isZero a) (hsmall : F.biasedExp a < F.bias) (mode : Rounding) :
    F.Represents (mode.integral (F.value a)) (F.negative a)
      (F.zero (F.negative a) +
        if mode.away (F.negative a) (F.biasedExp a + 1 == F.bias && F.mantissa a != 0) then
          F.bias * F.hiddenBit else 0) := by
  obtain ⟨k, hbias, hk⟩ := hF.even_bias_sub_one
  have hh := F.hiddenBit_pos
  have hone : (F.units (F.bias * F.hiddenBit) : ℝ) * F.quantum = 1 := by
    rw [units_normal hF.bias_pos, sub_self, zpow_zero]
  have hhalf : (F.units ((F.bias - 1) * F.hiddenBit) : ℝ) * F.quantum = 1 / 2 := by
    rw [units_normal (by omega), Nat.cast_sub (by omega), Nat.cast_one, sub_sub_cancel_left,
      zpow_neg_one, one_div]
  rw [biasedExp_eq] at hsmall ⊢
  rw [isZero_iff] at hzero
  rw [mantissa_eq, value]
  have hdiv := Nat.div_add_mod' (F.magnitude a) F.hiddenBit
  have hmod := Nat.mod_lt (F.magnitude a) hh
  have hlo : ((0 : Nat) : ℝ) < F.units (F.magnitude a) * F.quantum := by
    have h : F.units 0 * F.quantum < F.units (F.magnitude a) * F.quantum :=
      units_mul_lt_iff.2 (Nat.pos_of_ne_zero hzero)
    simpa using h
  have hhi : F.units (F.magnitude a) * F.quantum < (0 : Nat) + 1 := by
    rw [Nat.cast_zero, zero_add, ← hone, units_mul_lt_iff]
    exact (Nat.div_lt_iff_lt_mul hh).1 hsmall
  -- beyond a half is beyond the least significand of its exponent
  have hnear : (F.magnitude a / F.hiddenBit + 1 == F.bias && F.magnitude a % F.hiddenBit != 0) ↔
      1 / 2 < F.units (F.magnitude a) * F.quantum - (0 : Nat) ∨
        (F.units (F.magnitude a) * F.quantum - (0 : Nat) = 1 / 2 ∧ Odd 0) := by
    rw [Nat.cast_zero, sub_zero, ← hhalf, units_mul_lt_iff, Bool.and_eq_true, beq_iff_eq,
      bne_iff_ne, or_iff_left fun h => Nat.not_odd_zero h.2]
    constructor
    · rintro ⟨hexp, hne⟩
      rw [show F.bias - 1 = F.magnitude a / F.hiddenBit by omega]
      omega
    · intro hlt
      have hge : F.bias - 1 ≤ F.magnitude a / F.hiddenBit := (Nat.le_div_iff_mul_le hh).2 hlt.le
      have hexp : F.magnitude a / F.hiddenBit = F.bias - 1 := by omega
      rw [hexp] at hdiv ⊢
      exact ⟨by omega, by omega⟩
  rw [mode.integral_of_between hlo hhi hnear]
  split
  case isTrue =>
    refine represents_zero_add (one_lt_expMask hF) ?_
    rw [hone, Nat.zero_add, Nat.cast_one]
  case isFalse =>
    refine represents_zero_add hF.expMask_pos ?_
    rw [units_zero, Nat.cast_zero, zero_mul]

/-! ### Values with an integral and a fractional part -/

omit hF in
/-- An integer, by the pattern whose significand is a multiple of the unit. -/
theorem integer_represents {e j n : Nat} (he : (e : Int) + F.minLsb = -j)
    (hlo : F.hiddenBit ≤ 2 ^ j * n) (hhi : 2 ^ j * n ≤ 2 * F.hiddenBit)
    (hexp : e + 2 < F.maxExp) (s : Bool) :
    F.Represents (sgn s * n) s (F.zero s + (e * F.hiddenBit + 2 ^ j * n)) := by
  have hlt : e * F.hiddenBit + 2 ^ j * n < F.expMask := by
    calc e * F.hiddenBit + 2 ^ j * n ≤ (e + 2) * F.hiddenBit := by
          rw [Nat.add_mul]
          omega
      _ < F.expMask := Nat.mul_lt_mul_of_pos_right hexp F.hiddenBit_pos
  have hlt' := hlt.trans F.expMask_lt_signBit
  have hcancel : ((2 ^ j * n : Nat) : ℝ) * 2 ^ (-(j : Int)) = n := by
    rw [zpow_neg, zpow_natCast]
    push_cast
    field_simp
  refine represents_zero_add hlt ?_
  rw [← value_zero_add hlt', value_pack hhi (.inl hlo) hlt', he, hcancel]

/-- What stands above the significand is a multiple of twice the unit. -/
theorem unit_dvd {e j : Nat} (hj : j ≤ F.mantBits)
    (he : e + 1 + j = F.bias + F.mantBits) (s : Bool) :
    2 ^ (j + 1) ∣ F.zero s + e * F.hiddenBit := by
  have hsign : 2 ^ (j + 1) ∣ F.zero s := by
    cases s with
    | false => exact dvd_zero _
    | true =>
      have := hF.two_lt_expBits
      rw [zero, if_pos rfl, signBit_eq]
      exact pow_dvd_pow 2 (by omega)
  have hexp : 2 ^ (j + 1) ∣ e * F.hiddenBit := by
    rw [hiddenBit_eq]
    obtain hlt | rfl := hj.lt_or_eq
    · exact (pow_dvd_pow 2 hlt).mul_left e
    · -- the unit is one, and the exponent is that of one
      obtain ⟨k, hbias, -⟩ := hF.even_bias_sub_one
      rw [show e = 2 * k by omega, pow_succ', Nat.mul_assoc]
      exact mul_dvd_mul_left 2 (dvd_mul_left _ k)
  exact Nat.dvd_add hsign hexp

/-- The bits of a significand below and above the unit, as they stand in the
pattern. -/
theorem unit_split {e q j : Nat} (hj : j ≤ F.mantBits)
    (he : e + 1 + j = F.bias + F.mantBits) (s : Bool) :
    (F.zero s + (e * F.hiddenBit + q)) % 2 ^ j = q % 2 ^ j ∧
      F.zero s + (e * F.hiddenBit + q) - q % 2 ^ j =
      F.zero s + (e * F.hiddenBit + 2 ^ j * (q / 2 ^ j)) ∧
      (F.zero s + (e * F.hiddenBit + q) - q % 2 ^ j) / 2 ^ j % 2 = q / 2 ^ j % 2 := by
  obtain ⟨c, hc⟩ := unit_dvd hF hj he s
  have hdiv := Nat.div_add_mod q (2 ^ j)
  have hsum : F.zero s + e * F.hiddenBit = 2 ^ j * (2 * c) := by
    rw [hc, pow_succ, Nat.mul_assoc]
  have hbase : F.zero s + (e * F.hiddenBit + q) - q % 2 ^ j = 2 ^ j * (2 * c + q / 2 ^ j) := by
    rw [Nat.mul_add]
    omega
  refine ⟨?_, by omega, ?_⟩
  · rw [← Nat.add_assoc, hsum, Nat.mul_add_mod]
  · rw [hbase, Nat.mul_div_cancel_left _ (Nat.two_pow_pos j), Nat.mul_add_mod]

/-- A value with a fractional part goes to one of the integers around it. -/
theorem roundToInt_unit {e q j : Nat} (hq : F.hiddenBit ≤ q) (hq' : q < 2 * F.hiddenBit)
    (hj : 0 < j) (hj' : j ≤ F.mantBits) (he : e + 1 + j = F.bias + F.mantBits)
    (hfrac : q % 2 ^ j ≠ 0) (s : Bool) (mode : Rounding) :
    F.Represents (mode.integral (sgn s * (q * 2 ^ (e + F.minLsb)))) s
      (F.zero s + (e * F.hiddenBit + (2 ^ j * (if mode.away s
        (2 ^ j / 2 < q % 2 ^ j || (q % 2 ^ j == 2 ^ j / 2 && q / 2 ^ j % 2 == 1)) then
          q / 2 ^ j + 1 else q / 2 ^ j)))) := by
  have hexp : (e : Int) + F.minLsb = -j := by
    rw [minLsb]
    omega
  have hpow : (0 : ℝ) < 2 ^ j := by positivity
  have hdiv : (2 ^ j * (q / 2 ^ j : Nat) + (q % 2 ^ j : Nat) : ℝ) =
    q := by exact_mod_cast Nat.div_add_mod q (2 ^ j)
  have hmod : ((q % 2 ^ j : Nat) : ℝ) < 2 ^ j := by exact_mod_cast Nat.mod_lt q (Nat.two_pow_pos j)
  have hpos : (0 : ℝ) < (q % 2 ^ j : Nat) := by exact_mod_cast Nat.pos_of_ne_zero hfrac
  -- The magnitude is an integer and a fraction with the denominator `2 ^ j`.
  have hy : (q * 2 ^ (e + F.minLsb) : ℝ) = (q / 2 ^ j : Nat) + (q % 2 ^ j : Nat) / 2 ^ j := by
    rw [hexp, zpow_neg, zpow_natCast, ← hdiv]
    field_simp
  obtain ⟨i, rfl⟩ : ∃ i, j = i + 1 := ⟨j - 1, by omega⟩
  have hhalf : 2 ^ (i + 1) / 2 = 2 ^ i := by rw [pow_succ, Nat.mul_div_cancel _ two_pos]
  have hsign : F.hiddenBit = 2 ^ (i + 1) * 2 ^ (F.mantBits - (i + 1)) := by
    rw [← pow_add, Nat.add_sub_cancel' hj', hiddenBit_eq]
  have hk : 2 ^ (F.mantBits - (i + 1)) ≤ q / 2 ^ (i + 1) := by
    rw [Nat.le_div_iff_mul_le (Nat.two_pow_pos _), Nat.mul_comm, ← hsign]
    exact hq
  have hk' : q / 2 ^ (i + 1) < 2 * 2 ^ (F.mantBits - (i + 1)) := by
    refine Nat.div_lt_of_lt_mul ?_
    rw [Nat.mul_left_comm, ← hsign]
    exact hq'
  have hnear :
    (2 ^ (i + 1) / 2 <
      q % 2 ^ (i + 1) || (q % 2 ^ (i + 1) == 2 ^ (i + 1) / 2 && q / 2 ^ (i + 1) % 2 == 1)) ↔
      1 / 2 < (q * 2 ^ (e + F.minLsb) : ℝ) - (q / 2 ^ (i + 1) : Nat) ∨
        ((q * 2 ^ (e + F.minLsb) : ℝ) - (q / 2 ^ (i + 1) : Nat) = 1 / 2 ∧
          Odd (q / 2 ^ (i + 1))) := by
    have hscale : (1 / 2 : ℝ) * 2 ^ (i + 1) = (2 ^ i : Nat) := by
      push_cast
      ring
    rw [hy, add_sub_cancel_left, hhalf, Bool.or_eq_true, decide_eq_true_iff, Bool.and_eq_true,
      beq_iff_eq, beq_iff_eq, Nat.odd_iff, lt_div_iff₀ hpow, div_eq_iff hpow.ne', hscale,
      Nat.cast_lt, Nat.cast_inj]
  rw [mode.integral_of_between (by rw [hy]; simpa using by positivity)
    (by rw [hy, add_lt_add_iff_left, div_lt_one hpow]; exact hmod) hnear]
  have hmax := hF.maxExp_eq
  have hbias := hF.mantBits_le_bias
  refine integer_represents hexp ?_ ?_ (by omega) s
  · rw [hsign]
    refine Nat.mul_le_mul_left _ ?_
    split <;> omega
  · rw [hsign, Nat.mul_left_comm]
    refine Nat.mul_le_mul_left _ ?_
    split <;> omega

/-! ### All values -/

/-- **Rounding to an integral value gives the integer of the mode**, with the
sign of the operand. -/
theorem roundToInt_represents (ha : a < 2 * F.signBit) (hfin : F.Finite a) (mode : Rounding) :
    F.Represents (mode.integral (F.value a)) (F.negative a) (F.roundToInt mode a) := by
  have hself {k : Nat} (hvalue : F.value a = sgn (F.negative a) * k) :
      F.Represents (mode.integral (F.value a)) (F.negative a) a := by
    have hint : F.value a = ((if F.negative a then -k else k : Int) : ℝ) := by
      rw [hvalue]
      cases F.negative a <;> simp [sgn]
    rw [hint, Rounding.integral_intCast, ← hint]
    exact ⟨ha, hfin, rfl, rfl⟩
  simp only [roundToInt, hfin.not_nan, hfin.not_infinite, Bool.false_eq_true, if_false, false_or]
  by_cases hzero : F.isZero a
  · rw [if_pos hzero]
    exact hself (k := 0) (by rw [value_eq_zero_iff.2 hzero, Nat.cast_zero, mul_zero])
  rw [if_neg hzero]
  by_cases hsmall : F.biasedExp a < F.bias
  · rw [if_neg (by omega), if_pos hsmall]
    exact roundToInt_small hF hzero hsmall mode
  have hbias := hF.bias_pos
  have hvalue := value_normal (F := F) (a := a) (by omega)
  have hmagnitude := magnitude_normal (F := F) (a := a) (by omega)
  have hsplit := zero_add_magnitude ha
  have hq : F.mantissa a < F.hiddenBit := Nat.mod_lt _ F.hiddenBit_pos
  obtain ⟨e, he⟩ : ∃ e, F.biasedExp a = e + 1 := ⟨F.biasedExp a - 1, by omega⟩
  rw [he, Nat.add_sub_cancel] at hvalue hmagnitude
  by_cases hintegral : F.bias + F.mantBits ≤ F.biasedExp a
  · -- the unit of the last place is an integer
    obtain ⟨i, hi⟩ : ∃ i : Nat, (e : Int) + F.minLsb = i :=
      ⟨e + 1 - F.bias - F.mantBits, by rw [minLsb]; omega⟩
    rw [if_pos hintegral]
    refine hself (k := (F.mantissa a + F.hiddenBit) * 2 ^ i) ?_
    rw [hvalue, hi, zpow_natCast]
    push_cast
    rfl
  · -- the last `j` bits are the fraction
    obtain ⟨j, hj⟩ : ∃ j, e + 1 + j = F.bias + F.mantBits :=
      ⟨F.bias + F.mantBits - (e + 1), by omega⟩
    have hlo : F.hiddenBit ≤ F.mantissa a + F.hiddenBit := Nat.le_add_left _ _
    have hhi : F.mantissa a + F.hiddenBit < 2 * F.hiddenBit := by omega
    rw [if_neg hintegral, if_neg hsmall, he, show F.bias + F.mantBits - (e + 1) = j by omega,
      Nat.one_shiftLeft]
    generalize F.mantissa a + F.hiddenBit = q at *
    obtain ⟨hmod, hbase, hparity⟩ := unit_split hF (q := q) (by omega) hj (F.negative a)
    rw [← hmagnitude, hsplit] at hmod hbase hparity
    rw [hmod, hparity]
    by_cases hfrac : q % 2 ^ j = 0
    · rw [if_pos hfrac]
      refine hself (k := q / 2 ^ j) ?_
      have hexp : (e : Int) + F.minLsb = -j := by
        rw [minLsb]
        omega
      have hmul : ((2 ^ j * (q / 2 ^ j) : Nat) : ℝ) =
        q := by rw [Nat.mul_div_cancel' (Nat.dvd_of_mod_eq_zero hfrac)]
      rw [hvalue, hexp, ← hmul, zpow_neg, zpow_natCast]
      push_cast
      field_simp
    · have h := roundToInt_unit hF hlo hhi (show 0 < j by omega) (by omega) hj hfrac
        (F.negative a) mode
      rw [if_neg hfrac, hvalue, hbase]
      split_ifs at h ⊢ with haway
      · rwa [Nat.mul_add, Nat.mul_one, ← Nat.add_assoc, ← Nat.add_assoc,
          Nat.add_assoc (F.zero _)] at h
      · exact h

/-- Rounding to an integral value delivers the integer of the mode. -/
theorem roundToInt_delivers (ha : a < 2 * F.signBit) (mode : Rounding) :
    F.Delivers (F.exactRound mode a) (F.roundToInt mode a) := by
  rw [exactRound, ofOperand]
  split_ifs with hop hinf
  · exact (nanRule_roundToInt hF ha mode).isNan_iff.2 (.inl (by simpa using hop))
  · rw [roundToInt, if_neg hop, if_pos (.inl hinf)]
    exact eq_infinity ha hinf
  · exact (roundToInt_represents hF ha (finite_of (by simpa using hop) hinf) mode).delivers hF

end

end Format

end WasmEngine
