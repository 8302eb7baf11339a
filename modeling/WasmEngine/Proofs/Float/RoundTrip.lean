import WasmEngine.Proofs.Float.IntoFloats
import WasmEngine.Proofs.Float.Order

/-!
# From 32 bits to 64 bits and back

A format that extends another has all of its values, so what is widened is not
rounded, and rounding it back finds the value that it came from
(`WasmEngine.Format.Extends.narrow_widen`). This includes the values that are
subnormal only in the narrower format. A NaN keeps its sign and payload both
ways, the low bits that it gains being those that it loses, and comes back
quiet. All in all nothing but the quiet bit of a NaN is lost, and no two floats
that differ in more become one (`WasmEngine.FloatPolicy.soft_demote_promote`).
-/

namespace WasmEngine

namespace Format

variable {F G : Format} {a b c r : Nat}

/-! ### Values -/

/-- A widened value is the value itself. -/
theorem Extends.represents (hext : F.Extends G) (hF : F.Regular) (hG : G.Regular)
    (hr : r < 2 * F.signBit) (ha : G.Finite a) (h : F.Delivers (G.exactValue a) r) :
    F.Represents (G.value a) (G.negative a) r := by
  obtain ⟨c, hc, hvalue⟩ := hext.exists_value hF hG ha
  have hrounds := (Narrows.of_delivers hF hG hr h).finite ha
  obtain ⟨hfin, hvalue'⟩ := hrounds.rounds.eq_of_value hF hc hvalue
  exact ⟨hr, hfin, hvalue', hrounds.sign⟩

/-- **What is widened and then narrowed is as it was.** -/
theorem Extends.narrow_widen (hext : F.Extends G) (hF : F.Regular) (hG : G.Regular)
    (ha : a < 2 * G.signBit) (hr : r < 2 * F.signBit) (hc : c < 2 * G.signBit)
    (hnan : G.isNan a = false) (hwiden : F.Delivers (G.exactValue a) r)
    (hnarrow : G.Delivers (F.exactValue r) c) : c = a := by
  by_cases hinf : G.isInfinite a
  · have hr' := (Narrows.of_delivers hF hG hr hwiden).infinite hinf
    have hc' := (Narrows.of_delivers hG hF hc hnarrow).infinite (a := r)
      (by rw [hr', isInfinite_iff, magnitude_infinity])
    rw [hc', hr', negative_infinity]
    exact (eq_infinity ha hinf).symm
  · have hfin := finite_of hnan hinf
    have hwide := hext.represents hF hG hr hfin hwiden
    have hrounds := (Narrows.of_delivers hG hF hc hnarrow).finite hwide.finite
    rw [hwide.value, hwide.sign] at hrounds
    -- the number to be rounded is a value of the narrower format
    obtain ⟨hcfin, hvalue⟩ := hrounds.rounds.eq_of_value hG hfin rfl
    exact Represents.unique ⟨hc, hcfin, hvalue, hrounds.sign⟩ ⟨ha, hfin, rfl, rfl⟩

/-! ### NaNs -/

/-- The magnitude of a NaN is that of the infinity and the payload. -/
theorem magnitude_of_isNan (h : F.isNan a) : F.magnitude a = F.expMask + F.mantissa a := by
  have hpos := F.hiddenBit_pos
  have hlt : F.magnitude a < F.signBit := Nat.mod_lt _ (by rw [signBit_eq]; exact Nat.two_pow_pos _)
  rw [isNan_iff] at h
  have hsum := F.expMask_add_hiddenBit
  obtain ⟨m, hm⟩ : ∃ m, F.magnitude a = F.expMask + m := ⟨F.magnitude a - F.expMask, by omega⟩
  rw [mantissa_eq, hm, expMask, Nat.mul_add_mod', Nat.mod_eq_of_lt (by omega)]

theorem negative_quiet (hF : F.Regular) (a : Nat) : F.negative (F.quiet a) = F.negative a := by
  have := hF.one_lt_mantBits
  rw [negative_eq_testBit, negative_eq_testBit, quiet, Nat.testBit_or, quietBit, Nat.one_shiftLeft,
    Nat.testBit_two_pow_of_ne (by omega), Bool.or_false]

theorem testBit_quiet_eq {i : Nat} (hi : i ≠ F.mantBits - 1) :
    (F.quiet a).testBit i = a.testBit i := by
  rw [quiet, Nat.testBit_or, quietBit, Nat.one_shiftLeft,
    Nat.testBit_two_pow_of_ne (Ne.symm hi), Bool.or_false]

/-- NaNs of one sign and one payload are the same. -/
theorem eq_of_isNan (ha : a < 2 * F.signBit) (hb : b < 2 * F.signBit)
    (hna : F.isNan a) (hnb : F.isNan b) (hs : F.negative a = F.negative b)
    (hbits : ∀ i < F.mantBits, a.testBit i = b.testBit i) : a = b := by
  refine eq_of_magnitude ha hb hs ?_
  have hmantissa : F.mantissa a = F.mantissa b := by
    refine Nat.eq_of_testBit_eq fun i => ?_
    rw [mantissa, mantissa, hiddenBit_eq, Nat.testBit_mod_two_pow, Nat.testBit_mod_two_pow]
    by_cases hi : i < F.mantBits
    · rw [hbits i hi]
    · simp [hi]
  rw [magnitude_of_isNan hna, magnitude_of_isNan hnb, hmantissa]

end Format

namespace FloatPolicy

/-- A NaN comes back quiet. -/
theorem demote_promote_nan {a : Pattern .w32} (h : Format.f32.isNan a.toNat) :
    (soft.demote (soft.promote a)).toNat = Format.f32.quiet a.toNat := by
  have hF : Format.f32.Regular := Width.w32.regular
  have hp := promotesNan_soft a
  have hd := demotesNan_soft (soft.promote a)
  have hnan : Format.f64.isNan (soft.promote a).toNat := hp.isNan_eq.trans h
  have hback : Format.f32.isNan (soft.demote (soft.promote a)).toNat := hd.isNan_eq.trans hnan
  have hlt := Width.toNat_lt (w := .w32) a
  refine Format.eq_of_isNan (Width.toNat_lt (w := .w32) _) (hF.quiet_lt hlt) hback
    (Format.isNan_quiet h) ?_ fun i hi => ?_
  · have hsign := (hd.sign hnan).trans (hp.sign h)
    rw [← Width.negative_toNat (w := .w32), ← Width.negative_toNat (w := .w32)] at hsign
    exact hsign.trans (Format.negative_quiet hF a.toNat).symm
  · rw [BitVec.testBit_toNat]
    by_cases hlow : i < 22
    · rw [hd.payload hnan i hlow, hp.payload h i hlow, Format.testBit_quiet_eq (F := .f32)
        (by change i ≠ 22; omega), BitVec.testBit_toNat]
    · obtain rfl : i = 22 := by
        change i < 23 at hi
        omega
      rw [hd.quiet hnan]
      exact (Format.testBit_quiet (F := .f32) a.toNat).symm

/-- Widening keeps quiet NaNs apart. -/
theorem promote_injective_of_quiet {a b : Pattern .w32} (ha : Format.f32.isNan a.toNat)
    (hb : Format.f32.isNan b.toNat) (hqa : a.getLsbD 22) (hqb : b.getLsbD 22)
    (h : soft.promote a = soft.promote b) : a = b := by
  have hpa := promotesNan_soft a
  have hpb := promotesNan_soft b
  refine BitVec.eq_of_toNat_eq (Format.eq_of_isNan (F := .f32) (Width.toNat_lt (w := .w32) a)
    (Width.toNat_lt (w := .w32) b) ha hb ?_
    fun i hi => ?_)
  · refine (Width.negative_toNat (w := .w32) a).trans
      (Eq.trans ?_ (Width.negative_toNat (w := .w32) b).symm)
    rw [← hpa.sign ha, ← hpb.sign hb, h]
  · rw [BitVec.testBit_toNat, BitVec.testBit_toNat]
    by_cases hlow : i < 22
    · rw [← hpa.payload ha i hlow, ← hpb.payload hb i hlow, h]
    · obtain rfl : i = 22 := by
        change i < 23 at hi
        omega
      rw [hqa, hqb]

/-- **Demotion undoes promotion**, bit for bit on values and up to the quiet bit
on NaNs; and promotion keeps the order of values and keeps quiet NaNs apart. -/
theorem soft_demote_promote :
    (∀ a : Number .w32, soft.demote (soft.promote a) = a) ∧
    (∀ a : Pattern .w32, Format.f32.isNan a.toNat →
      (soft.demote (soft.promote a)).toNat = Format.f32.quiet a.toNat) ∧
    (∀ a : Number .w32, Format.f64.isNan (soft.promote a).toNat = false) ∧
    (∀ a b : Number .w32, Format.f64.extended (soft.promote a).toNat <
      Format.f64.extended (soft.promote b).toNat ↔
      Format.f32.extended a.1.toNat < Format.f32.extended b.1.toNat) ∧
    ∀ a b : Pattern .w32, Format.f32.isNan a.toNat → Format.f32.isNan b.toNat →
    a.getLsbD 22 → b.getLsbD 22 →
      soft.promote a = soft.promote b → a = b := by
  have h32 := Width.w32.regular
  have h64 := Width.w64.regular
  have hext : Format.f64.Extends .f32 := ⟨by decide, by decide⟩
  have hwidens (a : Pattern .w32) : Format.f64.Widens .f32 a.toNat (soft.promote a).toNat :=
    .of_delivers hext h64 h32 (Width.toNat_lt (w := .w64) _) (promote_delivers a)
  refine ⟨fun a => ?_, fun a => demote_promote_nan, fun a => (hwidens a).not_nan a.2, fun a b => ?_,
    fun a b => promote_injective_of_quiet⟩
  · exact BitVec.eq_of_toNat_eq (hext.narrow_widen h64 h32 (Width.toNat_lt (w := .w32) _)
      (Width.toNat_lt (w := .w64) _)
      (Width.toNat_lt (w := .w32) _) a.2 (promote_delivers a) (demote_delivers (soft.promote a)))
  · rw [(hwidens a).value a.2, (hwidens b).value b.2]

/-- The smallest positive value is normal at 64 bits and comes back, a
signalling NaN of negative sign comes back quiet, and NaNs that differ in the
last bit stay apart. -/
theorem soft_demote_promote_smallest :
    (soft.promote 1#32).toNat = 0x36a0000000000000 ∧ soft.demote (soft.promote 1#32) = 1#32 ∧
      Format.f32.isNan 0xff812345 ∧ (soft.demote (soft.promote 0xff812345#32)).toNat = 0xffc12345 ∧
      Format.f32.isNan 0x7fc00000 ∧ Format.f32.isNan 0x7fc00001 ∧
      soft.promote 0x7fc00000#32 ≠ soft.promote 0x7fc00001#32 :=
  ⟨by decide +kernel, soft_demote_promote.1 ⟨1#32, by decide +kernel⟩, by decide +kernel,
    soft_demote_promote.2.1 0xff812345#32 (by decide +kernel), by decide +kernel, by
      decide +kernel, fun h =>
    absurd (congrArg BitVec.toNat (soft_demote_promote.2.2.2.2 0x7fc00000#32 0x7fc00001#32
      (by decide +kernel) (by decide +kernel) (by decide) (by decide) h)) (by decide)⟩

end FloatPolicy

end WasmEngine
