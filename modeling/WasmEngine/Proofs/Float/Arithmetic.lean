import WasmEngine.Proofs.Float.ExtraBits

/-!
# Arithmetic on integers is correct

Every operation of `WasmEngine.Float.Soft` delivers its exact result. What is
left to see, once rounding is known to be correct, is that the integers an
operation computes stand for the sum, product, quotient or root, and that they
have enough bits.
-/

namespace WasmEngine

namespace Format

variable {F : Format} {a b : Nat} {s z : Bool}

/-! ### Patterns that deliver themselves -/

theorem eq_infinity (ha : a < 2 * F.signBit) (hinf : F.isInfinite a) :
    a = F.infinity (F.negative a) := by
  have hsplit := zero_add_magnitude ha
  rw [isInfinite_iff] at hinf
  rw [infinity, Nat.add_comm, ← hinf, hsplit]

theorem eq_zero (ha : a < 2 * F.signBit) (hzero : F.isZero a) : a = F.zero (F.negative a) := by
  have hsplit := zero_add_magnitude ha
  rw [isZero_iff] at hzero
  rw [← Nat.add_zero (F.zero _), ← hzero, hsplit]

theorem Finite.not_nan (h : F.Finite a) : F.isNan a = false := by
  rw [Finite] at h
  simpa [isNan] using h.le

theorem Finite.not_infinite (h : F.Finite a) : ¬F.isInfinite a :=
  fun hinf => h.ne (isInfinite_iff.1 hinf)

theorem finite_of (hnan : F.isNan a = false) (hinf : ¬F.isInfinite a) : F.Finite a := by
  rw [isInfinite_iff] at hinf
  simp only [isNan, decide_eq_false_iff_not] at hnan
  rw [Finite]
  omega

/-- A value of the format is delivered by its own pattern. -/
theorem value_delivers (hF : F.Regular) (ha : a < 2 * F.signBit) (hfin : F.Finite a)
    (hz : F.isZero a → F.negative a = z) : F.Delivers (.finite (F.value a) z) a := by
  have hclosest : F.Closest Set.univ (F.units (F.magnitude a)) (F.magnitude a) := by
    intro c _
    rw [sub_self, abs_zero]
    refine ⟨abs_nonneg _, fun htie hne => absurd ?_ hne⟩
    have hunits := sub_eq_zero.1 (abs_eq_zero.1 htie.symm)
    exact units_strictMono.injective (Nat.cast_injective hunits.symm)
  have h := delivers_of_closest (x := F.value a) (s := F.negative a) (z := z) hF hclosest
    (Nat.cast_nonneg _) rfl ?_
  · rwa [min_eq_left hfin.le, zero_add_magnitude ha] at h
  · intro h0
    exact hz (isZero_iff.2 (units_eq_zero_iff.1 (Nat.cast_eq_zero.1 h0)))

theorem zero_delivers (hF : F.Regular) (s : Bool) : F.Delivers (.finite 0 s) (F.zero s) := by
  have hzero : F.isZero (F.zero s) := by simp [isZero_iff]
  have hfin : F.Finite (F.zero s) := by
    rw [Finite, magnitude_zero]
    exact hF.expMask_pos
  have h := value_delivers hF (Valued.zero s).lt hfin fun _ => negative_zero s
  rwa [value_eq_zero_iff.2 hzero] at h

/-! ### Parts of a pattern -/

theorem unpack_negative (a : Nat) : (F.unpack a).negative = F.negative a := by
  rw [unpack]
  split <;> rfl

theorem unpack_sig_lt (a : Nat) : (F.unpack a).sig < 2 * F.hiddenBit := by
  have : F.mantissa a < F.hiddenBit := Nat.mod_lt _ F.hiddenBit_pos
  rw [unpack]
  split <;> dsimp only <;> omega

theorem unpack_sig_ne_zero (hz : ¬F.isZero a) : (F.unpack a).sig ≠ 0 := by
  rw [← value_eq_zero_iff, ← value_unpack, Unpacked.value] at hz
  intro h
  simp [h] at hz

/-- Filling up the significand keeps the value. -/
theorem unpackNormalized_spec (hz : ¬F.isZero a) :
    (F.unpackNormalized a).value = F.value a ∧ (F.unpackNormalized a).negative = F.negative a ∧
      2 ^ F.mantBits ≤ (F.unpackNormalized a).sig ∧
      (F.unpackNormalized a).sig < 2 ^ (F.mantBits + 1) := by
  have hne := unpack_sig_ne_zero hz
  have hlt := unpack_sig_lt (F := F) a
  rw [hiddenBit_eq, ← pow_succ'] at hlt
  have hlog : (F.unpack a).sig.log2 ≤ F.mantBits := Nat.lt_succ_iff.1 ((Nat.log2_lt hne).2 hlt)
  have hlow : 2 ^ (F.unpack a).sig.log2 ≤ (F.unpack a).sig := Nat.log2_self_le hne
  have hhigh : (F.unpack a).sig < 2 ^ ((F.unpack a).sig.log2 + 1) := Nat.lt_log2_self
  have hneg := unpack_negative (F := F) a
  rw [← value_unpack, unpackNormalized]
  dsimp only
  generalize F.unpack a = v at *
  obtain ⟨k, hk⟩ : ∃ k, F.mantBits = v.sig.log2 + k := ⟨F.mantBits - v.sig.log2, by omega⟩
  rw [show F.mantBits - v.sig.log2 = k by omega, Nat.shiftLeft_eq, hk]
  refine ⟨?_, hneg, ?_, ?_⟩
  · simp only [Unpacked.value]
    rw [zpow_sub₀ two_ne_zero, zpow_natCast]
    push_cast
    field_simp
  · rw [pow_add]
    exact Nat.mul_le_mul_right _ hlow
  · rw [Nat.add_right_comm, pow_add]
    exact Nat.mul_lt_mul_of_pos_right hhigh (Nat.two_pow_pos k)

/-! ### Sums -/

/-- A shift to the right by no more than there are zeros drops nothing. -/
theorem shiftRightJam_of_le {y k n : Nat} (hn : n ≤ k) : shiftRightJam (y <<< k) n =
    y * 2 ^ (k - n) := by
  obtain ⟨j, rfl⟩ : ∃ j, k = n + j := ⟨k - n, by omega⟩
  have hsplit : y <<< (n + j) = y * 2 ^ j * 2 ^ n := by
    rw [Nat.shiftLeft_eq]
    ring
  rw [shiftRightJam, Nat.one_shiftLeft, Nat.shiftRight_eq_div_pow, hsplit, Nat.mul_mod_left,
    if_pos rfl, Nat.mul_div_cancel _ (Nat.two_pow_pos n), Nat.add_sub_cancel_left]

theorem shiftRightJam_le (v n : Nat) : shiftRightJam v n ≤ v / 2 ^ n + 1 := by
  rw [shiftRightJam, Nat.shiftRight_eq_div_pow]
  split
  · exact Nat.le_succ _
  · exact (or_one _).2.2

/-- The smaller operand of a sum, aligned: it is exact, or small in comparison
with the other operand. -/
theorem jam_exact_or_small (hF : F.Regular) {x y n : Nat} (hx : x ≠ 0) (hy : y < 2 * F.hiddenBit) :
    ((y <<< 64 : Nat) / 2 ^ n : ℝ) = shiftRightJam (y <<< 64) n ∨
    shiftRightJam (y <<< 64) n + 2 ^ (F.mantBits + 2) ≤ x <<< 64 := by
  by_cases hn : n ≤ 64
  · left
    rw [shiftRightJam_of_le hn, div_eq_iff (by positivity), Nat.shiftLeft_eq]
    have hpow : 2 ^ 64 = 2 ^ (64 - n) * 2 ^ n := by rw [← pow_add, Nat.sub_add_cancel hn]
    rw [hpow]
    push_cast
    ring
  · right
    have hquot : y <<< 64 / 2 ^ n < F.hiddenBit := by
      refine Nat.div_lt_of_lt_mul ?_
      calc y <<< 64 = y * 2 ^ 64 := Nat.shiftLeft_eq ..
        _ < 2 * F.hiddenBit * 2 ^ 64 := Nat.mul_lt_mul_of_pos_right hy (Nat.two_pow_pos 64)
        _ = 2 ^ 65 * F.hiddenBit := by ring
        _ ≤ 2 ^ n * F.hiddenBit := Nat.mul_le_mul_right _ (Nat.pow_le_pow_right two_pos (by omega))
    have hjam := shiftRightJam_le (y <<< 64) n
    have hbig : 2 ^ 64 ≤ x <<< 64 := by
      rw [Nat.shiftLeft_eq]
      exact Nat.le_mul_of_pos_left _ (Nat.pos_of_ne_zero hx)
    have hroom : 2 ^ F.mantBits + 2 ^ (F.mantBits + 2) ≤ 2 ^ 64 := by
      have : 2 ^ F.mantBits ≤ 2 ^ 60 := Nat.pow_le_pow_right two_pos hF.mantBits_le
      rw [pow_add]
      omega
    rw [hiddenBit_eq] at hquot
    omega

/-- **The sum of two aligned values.** -/
theorem addAligned_delivers (hF : F.Regular) {x y : Unpacked} (hx : x.sig ≠ 0)
    (hy : y.sig < 2 * F.hiddenBit) (hexp : y.exp ≤ x.exp) :
    F.Delivers (.finite (x.value + y.value) (x.negative && y.negative)) (F.addAligned x y) := by
  obtain ⟨n, hn⟩ : ∃ n : Nat, x.exp = y.exp + n := ⟨(x.exp - y.exp).toNat, by omega⟩
  have htoNat : (x.exp - y.exp).toNat = n := by omega
  have hstands := standsFor_shiftRightJam (y.sig <<< 64) n
  have hjam := jam_exact_or_small hF (n := n) hx hy
  have hbits : 2 ^ (F.mantBits + 2) ≤ x.sig <<< 64 := by
    have : 2 ^ (F.mantBits + 2) ≤ 2 ^ 64 :=
      Nat.pow_le_pow_right two_pos (by have := hF.mantBits_le; omega)
    rw [Nat.shiftLeft_eq]
    exact this.trans (Nat.le_mul_of_pos_left _ (Nat.pos_of_ne_zero hx))
  have heven : Even (x.sig <<< 64) := by
    rw [Nat.shiftLeft_eq]
    exact (Nat.even_pow.2 ⟨even_two, by decide⟩).mul_left _
  have hpow : (2 : ℝ) ^ (64 : Int) = 2 ^ 64 := zpow_natCast 2 64
  have hxv : x.value = sgn x.negative * ((x.sig <<< 64 : Nat) * 2 ^ (x.exp - 64)) := by
    rw [Unpacked.value, Nat.shiftLeft_eq, zpow_sub₀ two_ne_zero, hpow, Nat.cast_mul,
      Nat.cast_pow, Nat.cast_two]
    field_simp
  have hyv : y.value = sgn y.negative * ((y.sig <<< 64 : Nat) / 2 ^ n * 2 ^ (x.exp - 64)) := by
    rw [Unpacked.value, Nat.shiftLeft_eq, hn, zpow_sub₀ two_ne_zero, zpow_add₀ two_ne_zero,
      zpow_natCast, hpow, Nat.cast_mul, Nat.cast_pow, Nat.cast_two]
    field_simp
  have hpos := Nat.two_pow_pos (F.mantBits + 2)
  simp only [addAligned, htoNat]
  generalize x.sig <<< 64 = big at *
  generalize shiftRightJam (y.sig <<< 64) n = small at *
  generalize ((y.sig <<< 64 : Nat) / 2 ^ n : ℝ) = v at *
  rw [hxv, hyv]
  by_cases hsign : x.negative = y.negative
  · rw [if_pos hsign]
    refine roundPack_delivers hF (hstands.even_add heven) (by omega) (.inr (by omega)) ?_ _
    rw [hsign]
    ring
  · have hopposite : y.negative = !x.negative := by
      cases hxn : x.negative <;> cases hyn : y.negative <;> simp_all
    rw [if_neg hsign, hopposite, sgn_not, Bool.and_not_self]
    split_ifs with hgt hlt
    · refine roundPack_delivers hF (hstands.even_sub heven hgt.le) (by omega) ?_ (by ring) _
      refine hjam.imp (fun hv => ?_) (by omega)
      rw [hv, Nat.cast_sub hgt.le]
    · -- nothing was dropped, as the first operand is not the larger one
      have hv : v - big = (small - big : Nat) := by
        rw [Nat.cast_sub hlt.le, hjam.resolve_right (by omega)]
      refine roundPack_delivers hF (.inl hv) (by omega) (.inl hv) ?_ _
      rw [sgn_not]
      ring
    · have hv : v = big := by
        rw [hjam.resolve_right (by omega), show small = big by omega]
      have hsum :
          sgn x.negative * (big * 2 ^ (x.exp - 64)) + -sgn x.negative *
          (v * 2 ^ (x.exp - 64)) = 0 := by
        rw [hv]
        ring
      rw [hsum]
      exact zero_delivers hF false

/-- Addition delivers the exact sum. -/
theorem add_delivers (hF : F.Regular) (ha : a < 2 * F.signBit) (hb : b < 2 * F.signBit) :
    F.Delivers (F.exactAdd a b) (F.add a b) := by
  have hnan := (nanRule_add hF ha hb).isNan_iff
  rw [exactAdd, ofOperands]
  split_ifs with hop hinvalid hia hib
  · exact hnan.2 (.inl (by simpa using hop))
  · exact hnan.2 (.inr hinvalid)
  -- What is left has no NaN among the operands, and a sum.
  all_goals
    simp only [not_or, Bool.not_eq_true] at hop
    have hp : F.propagate a b = none := by simp [propagate, hop]
    simp only [add, hp]
    rw [if_neg hinvalid]
  · rw [if_pos hia]
    exact eq_infinity ha hia
  · rw [if_neg hia, if_pos hib]
    exact eq_infinity hb hib
  · have hfa : F.Finite a := finite_of hop.1 hia
    have hfb : F.Finite b := finite_of hop.2 hib
    rw [if_neg hia, if_neg hib]
    split_ifs with hzz hza hzb hle
    · have hand : a &&& b = F.zero (F.negative a && F.negative b) := by
        rw [← negative_and]
        refine eq_zero (Valued.and ha hzz.1).lt ?_
        rw [isZero_iff, magnitude_and, isZero_iff.1 hzz.1, Nat.zero_and]
      rw [hand, value_eq_zero_iff.2 hzz.1, value_eq_zero_iff.2 hzz.2, add_zero]
      exact zero_delivers hF _
    · rw [value_eq_zero_iff.2 hza, zero_add]
      exact value_delivers hF hb hfb fun hzb => absurd ⟨hza, hzb⟩ hzz
    · rw [value_eq_zero_iff.2 hzb, add_zero]
      exact value_delivers hF ha hfa fun hza' => absurd hza' hza
    · rw [← unpack_negative a, ← unpack_negative b, ← value_unpack a, ← value_unpack b]
      exact addAligned_delivers hF (unpack_sig_ne_zero hza) (unpack_sig_lt b) hle
    · rw [← unpack_negative a, ← unpack_negative b, ← value_unpack a, ← value_unpack b, add_comm,
        Bool.and_comm]
      exact addAligned_delivers hF (unpack_sig_ne_zero hzb) (unpack_sig_lt a) (by omega)

/-- The exact difference is the exact sum with the second operand negated. -/
theorem exactAdd_xor_signBit (a b : Nat) : F.exactAdd a (b ^^^ F.signBit) = F.exactSub a b := by
  have hnan : F.isNan (b ^^^ F.signBit) = F.isNan b := by rw [isNan, isNan, magnitude_xor_signBit]
  have hinf : F.isInfinite (b ^^^ F.signBit) =
    F.isInfinite b := by rw [isInfinite, isInfinite, magnitude_xor_signBit]
  have hsign : F.negative a ≠ (!F.negative b) ↔ F.negative a = F.negative b := by
    cases F.negative a <;> cases F.negative b <;> simp
  rw [exactAdd, exactSub, ofOperands, ofOperands, hnan, hinf, negative_xor_signBit,
    value_xor_signBit, ← sub_eq_add_neg]
  simp only [hsign]

/-- Subtraction delivers the exact difference. -/
theorem sub_delivers (hF : F.Regular) (ha : a < 2 * F.signBit) (hb : b < 2 * F.signBit) :
    F.Delivers (F.exactSub a b) (F.sub a b) := by
  by_cases hop : F.isNan a ∨ F.isNan b
  · rw [exactSub, ofOperands, if_pos hop]
    exact (nanRule_sub hF ha hb).isNan_iff.2 (.inl (by simpa using hop))
  · have hp : F.propagate a b = none := by
      simp only [not_or, Bool.not_eq_true] at hop
      simp [propagate, hop]
    simp only [sub, hp]
    rw [← exactAdd_xor_signBit]
    exact add_delivers hF ha (xor_signBit_lt hb)

/-! ### Products and quotients -/

/-- Multiplication delivers the exact product. -/
theorem mul_delivers (hF : F.Regular) (ha : a < 2 * F.signBit) (hb : b < 2 * F.signBit) :
    F.Delivers (F.exactMul a b) (F.mul a b) := by
  have hnan := (nanRule_mul hF ha hb).isNan_iff
  rw [exactMul, ofOperands]
  split_ifs with hop hinvalid hinf
  · exact hnan.2 (.inl (by simpa using hop))
  · exact hnan.2 (.inr hinvalid)
  all_goals
    simp only [not_or, Bool.not_eq_true] at hop
    have hp : F.propagate a b = none := by simp [propagate, hop]
    simp only [mul, hp]
    rw [if_neg hinvalid]
  · rw [if_pos hinf]
    rfl
  · rw [if_neg hinf]
    split_ifs with hzero
    · have hprod : F.value a * F.value b = 0 := by
        rcases hzero with h | h
        · rw [value_eq_zero_iff.2 h, zero_mul]
        · rw [value_eq_zero_iff.2 h, mul_zero]
      rw [hprod]
      exact zero_delivers hF _
    · rw [not_or] at hzero
      have hne : (F.unpack a).sig * (F.unpack b).sig ≠ 0 :=
        Nat.mul_ne_zero (unpack_sig_ne_zero hzero.1) (unpack_sig_ne_zero hzero.2)
      refine roundPack_delivers hF (.inl rfl) hne (.inl rfl) ?_ _
      rw [← value_unpack, ← value_unpack, Unpacked.value, Unpacked.value, unpack_negative,
        unpack_negative, sgn_bne, zpow_add₀ two_ne_zero]
      push_cast
      ring

/-- Division delivers the exact quotient. -/
theorem div_delivers (hF : F.Regular) (ha : a < 2 * F.signBit) (hb : b < 2 * F.signBit) :
    F.Delivers (F.exactDiv a b) (F.div a b) := by
  have hnan := (nanRule_div hF ha hb).isNan_iff
  rw [exactDiv, ofOperands]
  split_ifs with hop hinvalid hinf hib
  · exact hnan.2 (.inl (by simpa using hop))
  · exact hnan.2 (.inr hinvalid)
  -- What is left has no NaN among the operands, and a quotient.
  all_goals
    simp only [not_or, Bool.not_eq_true] at hop
    have hp : F.propagate a b = none := by simp [propagate, hop]
    simp only [div, hp]
    rw [if_neg hinvalid]
  · rw [if_pos hinf]
    rfl
  · rw [if_neg hinf, if_pos (.inl hib)]
    exact zero_delivers hF _
  · rw [if_neg hinf]
    split_ifs with hzero
    · have hza : F.isZero a := hzero.resolve_left hib
      rw [value_eq_zero_iff.2 hza, zero_div]
      exact zero_delivers hF _
    · -- Two numbers. What is behind the digits of the quotient is only noted as not zero.
      rw [not_or] at hinf hzero
      obtain ⟨hva, hna, hla, -⟩ := unpackNormalized_spec hzero.2
      obtain ⟨hvb, hnb, hlb, hub⟩ := unpackNormalized_spec hinf.2
      rw [← hva, ← hvb, ← hna, ← hnb, Unpacked.value, Unpacked.value]
      generalize F.unpackNormalized a = x at *
      generalize F.unpackNormalized b = y at *
      have hy : 0 < y.sig := lt_of_lt_of_le (Nat.two_pow_pos _) hlb
      have hyR : (y.sig : ℝ) ≠ 0 := by exact_mod_cast hy.ne'
      obtain ⟨hle, hlt, hexact⟩ := quotient_spec (x.sig <<< (F.mantBits + 4)) hy
      refine roundPack_sticky_delivers hF hle hlt hexact ?_ ?_ _
      · rw [Nat.le_div_iff_mul_le hy, Nat.shiftLeft_eq]
        calc 2 ^ (F.mantBits + 1) * y.sig ≤ 2 ^ (F.mantBits + 1) * 2 ^ (F.mantBits + 1) :=
              Nat.mul_le_mul_left _ hub.le
          _ = 2 ^ F.mantBits * 2 ^ (F.mantBits + 2) := by ring
          _ ≤ x.sig * 2 ^ (F.mantBits + 4) :=
              Nat.mul_le_mul hla (Nat.pow_le_pow_right two_pos (by omega))
      · rw [sgn_bne, zpow_sub₀ two_ne_zero, zpow_sub₀ two_ne_zero, zpow_natCast, Nat.shiftLeft_eq,
          mul_div_mul_comm, div_eq_mul_inv (sgn _), sgn_inv, Nat.cast_mul, Nat.cast_pow,
          Nat.cast_two]
        field_simp

/-! ### Roots -/

/-- The root of a significand at an even exponent, with as many digits as it
takes. -/
theorem isqrt_delivers (hF : F.Regular) {sig : Nat} {exp : Int} {x : ℝ} (heven : exp % 2 = 0)
    (hlo : 2 ^ F.mantBits ≤ sig) (hhi : sig < 2 ^ (F.mantBits + 2))
    (hx : x = sig * 2 ^ exp) (z : Bool) : F.Delivers (.finite (√x) z)
      (F.roundPack false (isqrt (sig <<< ((F.mantBits + 6) / 2 * 2))).1
        ((exp - ((F.mantBits + 6) / 2 * 2 : Nat)) / 2)
        ((isqrt (sig <<< ((F.mantBits + 6) / 2 * 2))).2 != 0)) := by
  obtain ⟨k, hk⟩ : ∃ k, (F.mantBits + 6) / 2 * 2 = 2 * k := ⟨(F.mantBits + 6) / 2, Nat.mul_comm ..⟩
  obtain ⟨j, hj⟩ : ∃ j, exp - (2 * k : Nat) = 2 * j := ⟨(exp - (2 * k : Nat)) / 2, by omega⟩
  have hmant := hF.mantBits_le
  rw [hk, hj, Int.mul_ediv_cancel_left _ two_ne_zero, Nat.shiftLeft_eq]
  have hn : sig * 2 ^ (2 * k) < 2 ^ 128 := by
    calc sig * 2 ^ (2 * k) < 2 ^ (F.mantBits + 2) * 2 ^ (2 * k) :=
          Nat.mul_lt_mul_of_pos_right hhi (Nat.two_pow_pos _)
      _ = 2 ^ (F.mantBits + 2 + 2 * k) := (pow_add ..).symm
      _ ≤ 2 ^ 128 := Nat.pow_le_pow_right two_pos (by omega)
  obtain ⟨hle, hlt, hexact⟩ := root_spec hn
  refine roundPack_sticky_delivers hF hle hlt hexact ?_ ?_ z
  · -- the square of the next number is larger than a square of many digits
    have hsquare : (2 ^ (F.mantBits + 1)) ^ 2 < ((isqrt (sig * 2 ^ (2 * k))).1 + 1) ^ 2 := by
      refine lt_of_le_of_lt ?_ (isqrt_spec hn).2
      calc (2 ^ (F.mantBits + 1)) ^ 2 = 2 ^ F.mantBits * 2 ^ (F.mantBits + 2) := by ring
        _ ≤ sig * 2 ^ (2 * k) := Nat.mul_le_mul hlo (Nat.pow_le_pow_right two_pos (by omega))
    exact Nat.lt_succ_iff.1 (lt_of_pow_lt_pow_left₀ 2 (Nat.zero_le _) hsquare)
  · have hexp : exp = (2 * k : Nat) + j * 2 := by omega
    have hroot : x = (sig * 2 ^ (2 * k) : Nat) * ((2 : ℝ) ^ j) ^ 2 := by
      rw [hx, hexp, zpow_add₀ two_ne_zero, zpow_natCast, zpow_mul, zpow_ofNat]
      push_cast
      ring
    rw [hroot, Real.sqrt_mul (Nat.cast_nonneg _), Real.sqrt_sq (by positivity)]
    simp [sgn]

/-- The square root delivers the exact root. -/
theorem sqrt_delivers (hF : F.Regular) (ha : a < 2 * F.signBit) :
    F.Delivers (F.exactSqrt a) (F.sqrt a) := by
  have hnan := (nanRule_sqrt hF ha).isNan_iff
  rw [exactSqrt, ofOperand]
  split_ifs with hop hinvalid hinf
  · exact hnan.2 (.inl (by simpa using hop))
  · exact hnan.2 (.inr hinvalid)
  · have hzero : ¬F.isZero a := by
      rw [isZero_iff, isInfinite_iff.1 hinf]
      exact hF.expMask_pos.ne'
    have hpos : F.negative a = false := by
      simpa [hzero] using hinvalid
    rw [sqrt, if_neg hop, if_neg hzero, if_neg (by simp [hpos]), if_pos hinf, ← hpos]
    exact eq_infinity ha hinf
  · rw [sqrt, if_neg hop]
    by_cases hzero : F.isZero a
    · rw [if_pos hzero, value_eq_zero_iff.2 hzero, Real.sqrt_zero]
      nth_rewrite 2 [eq_zero ha hzero]
      exact zero_delivers hF _
    · have hpos : F.negative a = false := by
        simpa [hzero] using hinvalid
      obtain ⟨hva, hna, hla, hua⟩ := unpackNormalized_spec hzero
      rw [if_neg hzero, if_neg (by simp [hpos]), if_neg hinf, ← hva]
      have hvalue : (F.unpackNormalized a).value = (F.unpackNormalized a).sig * 2 ^
          (F.unpackNormalized a).exp := by
        simp [Unpacked.value, hna, hpos, sgn]
      dsimp only
      generalize F.unpackNormalized a = v at *
      -- An odd exponent is made even first, with a digit of the significand.
      by_cases hodd : v.exp % 2 ≠ 0
      · rw [if_pos hodd, if_pos hodd]
        refine isqrt_delivers hF (by omega) (by omega) (by rw [pow_succ] at hua ⊢; omega) ?_ _
        rw [hvalue, zpow_sub₀ two_ne_zero, zpow_one]
        push_cast
        ring
      · rw [if_neg hodd, if_neg hodd]
        refine isqrt_delivers hF (by omega) hla (by rw [pow_succ] at hua ⊢; omega) hvalue _

end Format

end WasmEngine
