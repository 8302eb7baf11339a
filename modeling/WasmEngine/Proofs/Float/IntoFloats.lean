import WasmEngine.Proofs.Float.Hard
import WasmEngine.Proofs.Float.Products

/-!
# Conversions into floats

An integer and a 64-bit float are rounded to the nearest float
(`WasmEngine.Format.Converts`, `WasmEngine.Format.Narrows`). A 32-bit float does
not have to be rounded at 64 bits (`WasmEngine.Format.Widens`): a format that
**extends** another (`WasmEngine.Format.Extends`) has all of its values
(`WasmEngine.Format.Extends.exists_value`). Those that are subnormal in the
narrower format are normal in the wider one, with their significand shifted up
to the hidden bit.
-/

namespace WasmEngine

namespace IntTarget

/-- The integer that a word denotes: that of its low half for the 32-bit ranges,
with a sign for the signed ones. -/
def number (t : IntTarget) (r : Raw) : Int :=
  match t with
  | .i32 => r.low.toInt
  | .u32 => r.low.toNat
  | .i64 => r.toInt
  | .u64 => r.toNat

theorem value_eq_number (t : IntTarget) (r : Raw) : t.value r = t.number r := by
  have hr := r.isLt
  cases t <;>
    simp only [value, number, signed, count, bits, Raw.low, BitVec.toInt_eq_toNat_cond,
      BitVec.toNat_setWidth, Nat.reduceShiftLeft, Bool.false_eq_true, true_and, false_and,
      if_false] <;> (try split_ifs) <;> omega

theorem natAbs_number_lt (t : IntTarget) (r : Raw) : (t.number r).natAbs < 2 ^ 64 := by
  have hr := r.isLt
  rw [← value_eq_number, value]
  cases t <;> simp only [signed, count, bits, Nat.reduceShiftLeft] <;> split_ifs <;> omega

end IntTarget

namespace Format

variable {F G : Format} {x : ℝ} {a c r : Nat}

/-! ### Formats within others -/

/-- **A format that extends another**, to values with more bits and to smaller
and larger ones. -/
structure Extends (F G : Format) : Prop where
  /-- Significands have at least as many bits. -/
  mantBits_le : G.mantBits ≤ F.mantBits
  /-- The smallest value of the other format is normal. -/
  bias_le : G.bias + G.mantBits ≤ F.bias

/-- A number that is a value is rounded to itself. -/
theorem Rounds.eq_of_value (hF : F.Regular) (h : F.Rounds x r) (hc : F.Finite c)
    (hx : F.value c = x) : F.Finite r ∧ F.value r = x := by
  subst hx
  cases h with
  | nearest _ hr near =>
    refine ⟨hr, ?_⟩
    have hle := near c hc
    rw [sub_self, abs_zero] at hle
    exact (sub_eq_zero.1 (abs_nonpos_iff.1 hle)).symm
  | overflow hge => exact absurd (hc.abs_value_lt hF) (not_lt.2 hge)

/-- A significand is shifted up to the hidden bit. -/
theorem exists_normal {q : Nat} (hq : q ≠ 0) (hlt : q < 2 * G.hiddenBit)
    (hle : G.mantBits ≤ F.mantBits) :
    ∃ k ≤ G.mantBits, F.hiddenBit ≤ q * 2 ^ (F.mantBits - k) ∧
    q * 2 ^ (F.mantBits - k) < 2 * F.hiddenBit := by
  have hk : q.log2 ≤ G.mantBits := by
    rw [hiddenBit_eq, ← pow_succ'] at hlt
    exact Nat.lt_succ_iff.1 ((Nat.log2_lt hq).2 hlt)
  have hsplit : F.hiddenBit = 2 ^ q.log2 * 2 ^ (F.mantBits - q.log2) := by
    rw [hiddenBit_eq, ← pow_add, Nat.add_sub_cancel' (hk.trans hle)]
  refine ⟨q.log2, hk, ?_, ?_⟩
  · rw [hsplit]
    exact Nat.mul_le_mul_right _ (Nat.log2_self_le hq)
  · rw [hsplit, ← mul_assoc, ← pow_succ']
    exact Nat.mul_lt_mul_of_pos_right Nat.lt_log2_self (Nat.two_pow_pos _)

/-- The places of finite values. -/
theorem place_add_two_le (hF : F.Regular) {e q : Nat} (hfin : e * F.hiddenBit + q < F.expMask)
    (he : F.hiddenBit ≤ q ∨ e = 0) : e + 2 ≤ F.maxExp := by
  have hmax := hF.maxExp_eq
  have hbias := hF.bias_pos
  obtain hq | rfl := he
  · have hlt : (e + 1) * F.hiddenBit < F.maxExp * F.hiddenBit := by
      rw [expMask] at hfin
      rw [Nat.succ_mul]
      omega
    have := Nat.lt_of_mul_lt_mul_right hlt
    omega
  · omega

/-- Significands at these places are finite values. -/
theorem pack_lt_expMask {e q : Nat} (hq : q < 2 * F.hiddenBit) (he : e + 2 ≤ F.maxExp) :
    e * F.hiddenBit + q < F.expMask :=
  calc e * F.hiddenBit + q < e * F.hiddenBit + 2 * F.hiddenBit := Nat.add_lt_add_left hq _
    _ = (e + 2) * F.hiddenBit := (Nat.add_mul ..).symm
    _ ≤ F.expMask := Nat.mul_le_mul_right _ he

/-- **A format has the values of those that it extends.** -/
theorem Extends.exists_value (h : F.Extends G) (hF : F.Regular) (hG : G.Regular) (ha : G.Finite a) :
    ∃ c, F.Finite c ∧ F.value c = G.value a := by
  obtain ⟨hmant, hbias⟩ := h
  obtain ⟨e, q, hpack, hq, he⟩ := G.exists_pack (G.magnitude a)
  have hvalue : G.value a = sgn (G.negative a) * (q * 2 ^ e * G.quantum) := by
    rw [value, hpack, units_pack hq.le he]
    push_cast
    rfl
  -- a zero has no leading bit
  by_cases hzero : q = 0
  · have hz : F.isZero (F.zero false) := by simp [isZero_iff]
    exact ⟨F.zero false, finite_of_isZero hF hz, by simp [hvalue, hzero, value_eq_zero_iff.2 hz]⟩
  obtain ⟨k, hk, hlo, hhi⟩ := exists_normal hzero hq hmant
  -- the place is counted from the smaller quantum, and lower by the shift
  obtain ⟨e', he'⟩ : ∃ e', e' + G.bias + G.mantBits = e + F.bias + k :=
    ⟨e + F.bias + k - G.bias - G.mantBits, by omega⟩
  have hfin : e' * F.hiddenBit + q * 2 ^ (F.mantBits - k) < F.expMask := by
    have hplace : e + 2 ≤ G.maxExp := place_add_two_le hG (hpack ▸ ha) he
    rw [hG.maxExp_eq] at hplace
    refine pack_lt_expMask hhi ?_
    rw [hF.maxExp_eq]
    omega
  have hlt := hfin.trans F.expMask_lt_signBit
  refine ⟨F.zero (G.negative a) + (e' * F.hiddenBit + q * 2 ^ (F.mantBits - k)), ?_, ?_⟩
  · rwa [Finite, magnitude_zero_add hlt]
  · have hexp : ((F.mantBits - k : Nat) : Int) + e' + F.minLsb = e + G.minLsb := by
      simp only [minLsb]
      omega
    rw [value_zero_add hlt, units_pack hhi.le (.inl hlo), hvalue, quantum, quantum]
    congr 1
    push_cast
    rw [mul_assoc, mul_assoc, mul_assoc, ← zpow_natCast, ← zpow_natCast, ← zpow_natCast,
      ← zpow_add₀ two_ne_zero, ← zpow_add₀ two_ne_zero, ← zpow_add₀ two_ne_zero, ← hexp, add_assoc]

/-! ### Changes of format -/

/-- **What a pattern of a format has to become in another** that does not have
all of its values. -/
structure Narrows (F G : Format) (a r : Nat) : Prop where
  /-- A finite value is correctly rounded and keeps its sign. -/
  finite : G.Finite a → F.RoundsSigned (G.value a) (G.negative a) r
  /-- A zero remains that zero. -/
  zero : G.isZero a → r = F.zero (G.negative a)
  /-- An infinity remains that infinity. -/
  infinite : G.isInfinite a → r = F.infinity (G.negative a)

/-- **What a pattern of a format has to become in another** that has all of its
values. -/
structure Widens (F G : Format) (a r : Nat) : Prop where
  /-- A value remains one. -/
  not_nan : G.isNan a = false → F.isNan r = false
  /-- It is the same one, also if it is an infinity. -/
  value : G.isNan a = false → F.extended r = G.extended a
  /-- The sign is kept, also of a zero. -/
  sign : G.isNan a = false → F.negative r = G.negative a

theorem exactValue_finite (ha : F.Finite a) :
    F.exactValue a = .finite (F.value a) (F.negative a) := by
  rw [exactValue, ofOperand, if_neg (by simp [ha.not_nan]), if_neg ha.not_infinite]

theorem exactValue_infinite (ha : F.isInfinite a) : F.exactValue a = .infinite (F.negative a) := by
  rw [exactValue, ofOperand, if_neg (by simp [not_nan_of_isInfinite ha]), if_pos ha]

theorem Narrows.of_delivers (hF : F.Regular) (hG : G.Regular) (hr : r < 2 * F.signBit)
    (h : F.Delivers (G.exactValue a) r) : F.Narrows G a r where
  finite ha := by
    rw [exactValue_finite ha] at h
    exact h.roundsSigned hF hr (value_eq_sgn_mul a) (abs_nonneg _)
  zero ha := by
    rw [exactValue_finite (finite_of_isZero hG ha), value_eq_zero_iff.2 ha] at h
    exact h.eq_zero_of_finite hF hr
  infinite ha := by
    rw [exactValue_infinite ha] at h
    exact h

/-- Where nothing has to be rounded, the value is kept. -/
theorem Widens.of_delivers (hext : F.Extends G) (hF : F.Regular) (hG : G.Regular)
    (hr : r < 2 * F.signBit) (h : F.Delivers (G.exactValue a) r) : F.Widens G a r := by
  obtain ⟨hfinite, -, hinfinite⟩ := Narrows.of_delivers hF hG hr h
  refine ⟨?_, ?_, ?_⟩
  · intro ha
    exact h.not_nan (exactValue_ne_nan (by simp [ha]))
  · intro ha
    by_cases hinf : G.isInfinite a
    · rw [hinfinite hinf, extended, extended, if_pos hinf, if_pos (by simp [isInfinite_iff]),
        negative_infinity]
    · have hfin := finite_of ha hinf
      obtain ⟨c, hc, hcvalue⟩ := hext.exists_value hF hG hfin
      obtain ⟨hrfin, hrvalue⟩ := (hfinite hfin).rounds.eq_of_value hF hc hcvalue
      rw [extended, extended, if_neg hinf, if_neg hrfin.not_infinite, hrvalue]
  · intro ha
    by_cases hinf : G.isInfinite a
    · rw [hinfinite hinf, negative_infinity]
    · exact (hfinite (finite_of ha hinf)).sign

/-! ### Integers -/

/-- **What an integer has to become.** -/
structure Converts (F : Format) (n : Int) (r : Nat) : Prop where
  /-- It does not become an infinity. -/
  finite : F.Finite r
  /-- It is correctly rounded and keeps its sign. -/
  rounds : F.RoundsSigned n (n < 0) r
  /-- Zero becomes the positive zero. -/
  zero : n = 0 → r = F.zero false

theorem Converts.of_delivers (hF : F.Regular) (hr : r < 2 * F.signBit) {n : Int}
    (hn : n.natAbs < 2 ^ F.bias) (h : F.Delivers (.finite n false) r) : F.Converts n r := by
  have habs : |(n : ℝ)| < F.threshold := by
    refine lt_of_lt_of_le ?_ two_pow_bias_le_threshold
    rw [← Int.cast_abs, Int.abs_eq_natAbs, Int.cast_natCast]
    exact_mod_cast hn
  have hsign : F.negative r = decide (n < 0) := by
    rw [Bool.eq_iff_iff, h.2]
    simp
  refine ⟨h.1.finite habs, .of_rounds hF hr h.1 hsign, fun h0 => ?_⟩
  rw [h0, Int.cast_zero] at h
  exact h.eq_zero_of_finite hF hr

end Format

/-- **Conversions into floats are correctly rounded**: of 64-bit floats at 32
bits, and of integers of every range at both widths. From 32 bits to 64 bits
every value is kept. -/
theorem FloatPolicy.soft_conversions_rounded :
    (∀ a : Pattern .w64, Format.f32.Narrows .f64 a.toNat (soft.demote a).toNat) ∧
    (∀ a : Pattern .w32, Format.f64.Widens .f32 a.toNat (soft.promote a).toNat) ∧
    ∀ (w : Width) (t : IntTarget) (r : Raw), w.format.Converts (t.number r)
      ((soft.ops w).ofInt t r).toNat := by
  have h32 := Width.w32.regular
  have h64 := Width.w64.regular
  refine ⟨fun a => ?_, fun a => ?_, fun w t r => ?_⟩
  · exact .of_delivers h32 h64 (Width.toNat_lt (w := .w32) _) (demote_delivers a)
  · exact .of_delivers ⟨by decide, by decide⟩ h64 h32 (Width.toNat_lt (w := .w64) _)
      (promote_delivers a)
  · have hbias : 64 ≤ w.format.bias := by
      cases w <;> decide
    have hdelivers := FloatOps.ofInt_delivers (w := w) t r
    rw [t.value_eq_number] at hdelivers
    exact .of_delivers w.regular (Width.toNat_lt _)
      ((t.natAbs_number_lt r).trans_le (Nat.pow_le_pow_right two_pos hbias)) hdelivers

end WasmEngine
