import WasmEngine.Proofs.Float.Conversion

/-!
# The results of arithmetic

What an operation delivers, read off case by case. A **sum**
(`WasmEngine.Format.Sums`) of finite operands is the exact one rounded to
nearest, with ties to even and infinities where it is too large; its sign is
that of the exact sum, and where that is zero it is positive unless both
operands are negative zeros. An infinite operand is the sum, unless the other is
the opposite infinity. A difference is a sum in which the second operand counts
with the opposite sign.
-/

namespace WasmEngine

namespace Format

/-- **What the sum of two patterns has to be.** The exact sum is `x`, if both
are finite, and the second one counts with the sign `s`. -/
structure Sums (F : Format) (a b : Nat) (x : ℝ) (s : Bool) (r : Nat) : Prop where
  /-- The sum of finite operands is the exact one, correctly rounded. -/
  rounds : F.Finite a → F.Finite b → F.Rounds x r
  /-- It has the sign of the exact one, also if it is rounded to zero or to an
  infinity. -/
  sign : F.Finite a → F.Finite b → x ≠ 0 → (F.negative r ↔ x < 0)
  /-- Operands that cancel leave a positive zero. -/
  cancel : F.Finite a → F.Finite b → x = 0 → ¬F.isZero a ∨ F.negative a ≠ s → r = F.zero false
  /-- Zeros of one sign leave the zero of that sign. -/
  zeros : F.isZero a → F.isZero b → F.negative a = s → r = F.zero s
  /-- An infinite first operand is the sum. -/
  left : F.isInfinite a → F.isNan b = false → (F.isInfinite b → F.negative a = s) →
    r = F.infinity (F.negative a)
  /-- An infinite second operand is the sum. -/
  right : F.isInfinite b → F.isNan a = false →
    (F.isInfinite a → F.negative a = s) → r = F.infinity s
  /-- Opposite infinities have no sum. -/
  opposite : F.isInfinite a → F.isInfinite b → F.negative a ≠ s → r = F.canonicalNan
  /-- A NaN has no sum with anything. -/
  nan : F.isNan a ∨ F.isNan b → F.isNan r

variable {F : Format} {a b r : Nat} {s : Bool}

/-- Zero is delivered by the zero of the sign that is asked for. -/
theorem Delivers.eq_zero_of_finite (hF : F.Regular) (hr : r < 2 * F.signBit)
    (h : F.Delivers (.finite 0 s) r) : r = F.zero s :=
  h.unique hF (by simp) hr (Valued.zero s).lt (zero_delivers hF s)

theorem not_nan_of_isInfinite (h : F.isInfinite a) : F.isNan a = false := by
  simp [isNan, isInfinite_iff.1 h]

theorem finite_of_isZero (hF : F.Regular) (h : F.isZero a) : F.Finite a := by
  rw [Finite, isZero_iff.1 h]
  exact hF.expMask_pos

theorem exactAdd_finite (ha : F.Finite a) (hb : F.Finite b) :
    F.exactAdd a b = .finite (F.value a + F.value b) (F.negative a && F.negative b) := by
  rw [exactAdd, ofOperands, if_neg (by simp [ha.not_nan, hb.not_nan]),
    if_neg (by simp [ha.not_infinite]), if_neg ha.not_infinite, if_neg hb.not_infinite]

/-- Values of one sign add up to zero only if they are zero. -/
theorem negative_ne_of_add_eq_zero (h : F.value a + F.value b = 0) (ha : ¬F.isZero a) :
    F.negative a ≠ F.negative b := by
  intro hs
  have hq := F.quantum_pos
  rw [value, value, hs, ← mul_add, ← add_mul, mul_eq_zero] at h
  have hsgn : sgn (F.negative b) ≠ 0 := by
    cases F.negative b <;> simp [sgn]
  have hunits : ((F.units (F.magnitude a) + F.units (F.magnitude b) : Nat) : ℝ) = 0 := by
    push_cast
    exact (mul_eq_zero.1 (h.resolve_left hsgn)).resolve_right hq.ne'
  have hzero : F.units (F.magnitude a) = 0 := by
    have := Nat.cast_eq_zero.1 hunits
    omega
  exact ha (isZero_iff.2 (units_eq_zero_iff.1 hzero))

/-- **A sum, case by case.** -/
theorem Sums.of_delivers (hF : F.Regular) (hr : r < 2 * F.signBit)
    (hcanonical : F.isNan a = false → F.isNan b = false → F.isNan r → r = F.canonicalNan)
    (h : F.Delivers (F.exactAdd a b) r) : F.Sums a b (F.value a + F.value b) (F.negative b) r := by
  have finite (ha : F.Finite a) (hb : F.Finite b) :
      F.Delivers (.finite (F.value a + F.value b) (F.negative a && F.negative b)) r :=
      exactAdd_finite ha hb ▸ h
  refine ⟨fun ha hb => (finite ha hb).1, fun ha hb hx => ?_, fun ha hb hx hor => ?_,
    fun ha hb hs => ?_, fun ha hb hs => ?_, fun hb ha hs => ?_, fun ha hb hs => ?_, fun hnan => ?_⟩
  · simpa [hx] using (finite ha hb).2
  · have hne : F.negative a ≠ F.negative b := hor.elim (negative_ne_of_add_eq_zero hx) id
    have hboth : (F.negative a && F.negative b) = false := by
      cases hna : F.negative a <;> cases hnb : F.negative b <;> simp_all
    have := finite ha hb
    rw [hx, hboth] at this
    exact this.eq_zero_of_finite hF hr
  · have := finite (finite_of_isZero hF ha) (finite_of_isZero hF hb)
    rw [value_eq_zero_iff.2 ha, value_eq_zero_iff.2 hb, add_zero, hs, Bool.and_self] at this
    exact this.eq_zero_of_finite hF hr
  all_goals rw [exactAdd, ofOperands] at h
  · rw [if_neg (by simp [not_nan_of_isInfinite ha, hb]),
      if_neg (fun hopp => hopp.2.2 (hs hopp.2.1)), if_pos ha] at h
    exact h
  · rw [if_neg (by simp [not_nan_of_isInfinite hb, ha]),
      if_neg (fun hopp => hopp.2.2 (hs hopp.1))] at h
    by_cases hinf : F.isInfinite a
    · rw [if_pos hinf, hs hinf] at h
      exact h
    · rw [if_neg hinf, if_pos hb] at h
      exact h
  · rw [if_neg (by simp [not_nan_of_isInfinite ha, not_nan_of_isInfinite hb]),
      if_pos ⟨ha, hb, hs⟩] at h
    exact hcanonical (not_nan_of_isInfinite ha) (not_nan_of_isInfinite hb) h
  · rw [if_pos hnan] at h
    exact h

/-- A difference is the sum with the second operand negated. -/
theorem Sums.of_xor_signBit {x : ℝ} {s : Bool} (h : F.Sums a (b ^^^ F.signBit) x s r) :
    F.Sums a b x s r := by
  obtain ⟨h₁, h₂, h₃, h₄, h₅, h₆, h₇, h₈⟩ := h
  simp only [Finite, isNan, isInfinite, isZero, magnitude_xor_signBit] at h₁ h₂ h₃ h₄ h₅ h₆ h₇ h₈
  exact ⟨h₁, h₂, h₃, h₄, h₅, h₆, h₇, h₈⟩

end Format

/-- **Sums and differences are correctly rounded**, at both widths and for all
operands. -/
theorem FloatPolicy.soft_sums_rounded (w : Width) (a b : Pattern w) :
    w.format.Sums a.toNat b.toNat (w.format.value a.toNat + w.format.value b.toNat)
      (w.format.negative b.toNat) ((soft.ops w).binary .add a b).toNat ∧
      w.format.Sums a.toNat b.toNat (w.format.value a.toNat - w.format.value b.toNat)
        (!w.format.negative b.toNat) ((soft.ops w).binary .sub a b).toNat := by
  have hF := w.regular
  have ha := Width.toNat_lt a
  have hb := Width.toNat_lt b
  have hadd := Format.nanRule_add hF ha hb
  have hsub := Format.nanRule_sub hF ha hb
  constructor
  · rw [show ((soft.ops w).binary .add a b).toNat = w.format.add a.toNat
      b.toNat from Width.toNat_ofNat hadd.lt]
    exact .of_delivers hF hadd.lt (fun hna hnb => hadd.canonical (by simp [hna, hnb]))
      (Format.add_delivers hF ha hb)
  · rw [show ((soft.ops w).binary .sub a b).toNat = w.format.sub a.toNat
      b.toNat from Width.toNat_ofNat hsub.lt]
    have hnan : w.format.isNan (b.toNat ^^^ w.format.signBit) = w.format.isNan b.toNat := by
      rw [Format.isNan, Format.isNan, Format.magnitude_xor_signBit]
    have hdelivers := Format.sub_delivers hF ha hb
    rw [← Format.exactAdd_xor_signBit] at hdelivers
    have hsums := Format.Sums.of_delivers hF hsub.lt
      (fun hna hnb => hsub.canonical (by simp [hna, ← hnan, hnb])) hdelivers
    rw [Format.value_xor_signBit, Format.negative_xor_signBit, ← sub_eq_add_neg] at hsums
    exact hsums.of_xor_signBit

end WasmEngine
