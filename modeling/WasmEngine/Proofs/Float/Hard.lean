import WasmEngine.Proofs.Float.Conversion

/-!
# The policies agree

A float unit is **correct** (`WasmEngine.Native.Correct`) if each of its
operations delivers the exact result, with a NaN of its own choice where there
is none; if its comparisons are those of values; and if it truncates a float
exactly whose integer is in range. The hard policy on a correct unit agrees with
the soft policy on every operation and every pattern
(`WasmEngine.FloatPolicy.hard_agrees_soft`).

Both deliver the same exact result, and by uniqueness that is the same pattern,
unless it is a NaN; and the NaN is put in by the one and found first by the
other, after the same rule.
-/

namespace WasmEngine

/-- **A correct float unit**, at a width. -/
structure NativeOps.Correct {w : Width} (n : NativeOps w) : Prop where
  /-- A sum is the exact one, correctly rounded. -/
  add : ∀ a b, w.format.Delivers (w.format.exactAdd a.toNat b.toNat) (n.add a b).toNat
  /-- A difference is the exact one, correctly rounded. -/
  sub : ∀ a b, w.format.Delivers (w.format.exactSub a.toNat b.toNat) (n.sub a b).toNat
  /-- A product is the exact one, correctly rounded. -/
  mul : ∀ a b, w.format.Delivers (w.format.exactMul a.toNat b.toNat) (n.mul a b).toNat
  /-- A quotient is the exact one, correctly rounded. -/
  div : ∀ a b, w.format.Delivers (w.format.exactDiv a.toNat b.toNat) (n.div a b).toNat
  /-- A root is the exact one, correctly rounded. -/
  sqrt : ∀ a, w.format.Delivers (w.format.exactSqrt a.toNat) (n.sqrt a).toNat
  /-- An integral value is that of the mode. -/
  round : ∀ mode a, w.format.Delivers (w.format.exactRound mode a.toNat) (n.round mode a).toNat
  /-- Equality is that of values. -/
  eq : ∀ a b, n.eq a b ↔ w.format.isNan a.toNat = false ∧ w.format.isNan b.toNat = false ∧
    w.format.extended a.toNat = w.format.extended b.toNat
  /-- The order is that of values. -/
  lt : ∀ a b, n.lt a b ↔ w.format.isNan a.toNat = false ∧ w.format.isNan b.toNat = false ∧
    w.format.extended a.toNat < w.format.extended b.toNat
  /-- The order is that of values. -/
  le : ∀ a b, n.le a b ↔ w.format.isNan a.toNat = false ∧ w.format.isNan b.toNat = false ∧
    w.format.extended a.toNat ≤ w.format.extended b.toNat
  /-- An integer is correctly rounded. -/
  ofInt : ∀ t r, w.format.Delivers (.finite (t.value r) false) (n.ofInt t r).toNat
  /-- A float is truncated exactly if the integer is in range. -/
  toInt : ∀ t a, w.format.Finite a.toNat → t.Contains (truncate (w.format.value a.toNat)) →
    n.toInt t a = t.word (truncate (w.format.value a.toNat))

/-- **A correct float unit.** -/
structure Native.Correct (n : Native) : Prop where
  /-- It is correct at each width. -/
  ops : ∀ w, (n.ops w).Correct
  /-- A 64-bit value is correctly rounded to 32 bits. -/
  demote : ∀ a, Format.f32.Delivers (Format.f64.exactValue a.toNat) (n.demote a).toNat
  /-- A 32-bit value is kept at 64 bits. -/
  promote : ∀ a, Format.f64.Delivers (Format.f32.exactValue a.toNat) (n.promote a).toNat

namespace Format

variable {F : Format} {a b r : Nat} {invalid : Prop}

theorem NanRule.eq_nanResult (h : F.NanRule [a, b] invalid r) (hr : F.isNan r) :
    r = F.nanResult a b := by
  rw [nanResult, propagate]
  split_ifs with hna hnb
  · exact h.operand a (by simp [hna])
  · exact h.operand b (by simp [hna, hnb])
  · exact h.canonical (by simp [hna, hnb]) hr

theorem NanRule.eq_nanResult_self (h : F.NanRule [a] invalid r) (hr : F.isNan r) :
    r = F.nanResult a a := by
  rw [nanResult, propagate]
  split_ifs with hna
  · exact h.operand a (by simp [hna])
  · exact h.canonical (by simp [hna]) hr

/-- Only the exact result that there is none is delivered by a NaN. -/
theorem Delivers.not_nan {e : Exact} (he : e ≠ .nan) (h : F.Delivers e r) : F.isNan r = false := by
  cases e with
  | nan => exact absurd rfl he
  | infinite s => exact h.symm ▸ not_isNan_infinity s
  | finite x s =>
    have hle : F.magnitude r ≤ F.expMask := by
      cases h.1 with
      | nearest _ hr => exact le_of_lt hr
      | overflow _ hr => exact (isInfinite_iff.1 hr).le
    simpa [isNan] using hle

theorem exactValue_ne_nan (hnan : ¬F.isNan a) : F.exactValue a ≠ .nan := by
  rw [exactValue, ofOperand, if_neg hnan]
  split_ifs <;> simp

end Format

/-! ### What the soft policy delivers -/

namespace FloatOps

variable {w : Width} {e : Exact} {f : Nat → Nat} {g : Nat → Nat → Nat}
  {a b : Pattern w} {invalid : Prop}

theorem lift_delivers (hrule : w.format.NanRule [a.toNat] invalid (f a.toNat))
    (hf : w.format.Delivers e (f a.toNat)) : w.format.Delivers e (lift w f a).toNat := by
  rwa [lift, Width.toNat_ofNat hrule.lt]

theorem lift₂_delivers (hrule : w.format.NanRule [a.toNat, b.toNat] invalid (g a.toNat b.toNat))
    (hg : w.format.Delivers e (g a.toNat b.toNat)) : w.format.Delivers e (lift₂ w g a b).toNat := by
  rwa [lift₂, Width.toNat_ofNat hrule.lt]

theorem ofInt_delivers (t : IntTarget) (r : Raw) : w.format.Delivers (.finite (t.value r) false)
    ((soft w).ofInt t r).toNat := by
  have hlt : w.format.ofInt t r < 2 * w.format.signBit := Format.roundPack_lt w.regular ..
  simp only [soft]
  rw [Width.toNat_ofNat hlt]
  exact Format.ofInt_delivers w.regular t r

end FloatOps

namespace FloatPolicy

/-- What a change of width delivers, given that it treats the kinds of patterns
apart. -/
theorem convert_delivers {F G : Format} (hF : F.Regular) {a r : Nat} (hnan : F.isNan r = G.isNan a)
    (hr : G.isNan a = false → r = if G.isInfinite a then F.infinity (G.negative a) else if G.isZero
      a then F.zero (G.negative a)
      else F.ofFormat G a) : F.Delivers (G.exactValue a) r := by
  rw [Format.exactValue, Format.ofOperand]
  split_ifs with hop hinf
  · exact hnan.trans hop
  · rw [hr (by simpa using hop), if_pos hinf]
    rfl
  · rw [hr (by simpa using hop), if_neg hinf]
    split_ifs with hzero
    · rw [Format.value_eq_zero_iff.2 hzero]
      exact Format.zero_delivers hF _
    · exact Format.ofFormat_delivers hF hzero _

theorem demote_delivers (a : Pattern .w64) : Format.f32.Delivers (Format.f64.exactValue a.toNat)
    (soft.demote a).toNat := by
  refine convert_delivers Width.w32.regular (demotesNan_soft a).isNan_eq fun hna => ?_
  have htoNat : (soft.demote a).toNat = softDemote a.toNat :=
    Width.toNat_ofNat (w := .w32) (valued_softDemote a hna).lt
  exact htoNat.trans (if_neg (by simp [hna]))

theorem promote_delivers (a : Pattern .w32) : Format.f64.Delivers (Format.f32.exactValue a.toNat)
    (soft.promote a).toNat := by
  refine convert_delivers Width.w64.regular (promotesNan_soft a).isNan_eq fun hna => ?_
  have htoNat : (soft.promote a).toNat = softPromote a.toNat :=
    Width.toNat_ofNat (w := .w64) (valued_softPromote a hna).lt
  exact htoNat.trans (if_neg (by simp [hna]))

end FloatPolicy

/-! ### Agreement -/

namespace NativeOps

variable {w : Width} {e : Exact} {a b r s : Pattern w}

/-- Two patterns that deliver the same, a NaN apart, are the same. -/
theorem eq_of_delivers (he : e ≠ .nan) (hr : w.format.Delivers e r.toNat)
    (hs : w.format.Delivers e s.toNat) : r = s :=
  BitVec.eq_of_toNat_eq (hr.unique w.regular he (Width.toNat_lt r) (Width.toNat_lt s) hs)

/-- **A repaired result is the right one**, if the unit delivers what it should. -/
theorem repair_eq (hnan : w.format.isNan s.toNat → s.toNat = w.format.nanResult a.toNat b.toNat)
    (hs : w.format.Delivers e s.toNat) (hr : w.format.Delivers e r.toNat) : repair a b r = s := by
  by_cases he : e = .nan
  · subst he
    have hnr : w.format.isNan r.toNat := hr
    rw [repair, if_pos hnr, ← hnan hs, BitVec.ofNat_toNat, BitVec.setWidth_eq]
  · rw [repair, hr.not_nan he, if_neg Bool.false_ne_true]
    exact eq_of_delivers he hr hs

theorem repair_lift₂ {g : Nat → Nat → Nat} {invalid : Prop}
    (hrule : w.format.NanRule [a.toNat, b.toNat] invalid (g a.toNat b.toNat))
    (hg : w.format.Delivers e (g a.toNat b.toNat)) (hr : w.format.Delivers e r.toNat) :
    repair a b r = FloatOps.lift₂ w g a b :=
  repair_eq (FloatOps.nanRule_lift₂ a b hrule).eq_nanResult (FloatOps.lift₂_delivers hrule hg) hr

theorem repair_lift {f : Nat → Nat} {invalid : Prop}
    (hrule : w.format.NanRule [a.toNat] invalid (f a.toNat)) (hf : w.format.Delivers e (f a.toNat))
    (hr : w.format.Delivers e r.toNat) : repair a a r = FloatOps.lift w f a :=
  repair_eq (FloatOps.nanRule_lift a hrule).eq_nanResult_self (FloatOps.lift_delivers hrule hf) hr

variable {n : NativeOps w} (hn : n.Correct)
include hn

/-- The trap that the comparisons with the bounds tell is that of the range. -/
theorem toIntChecked_eq (t : IntTarget) (a : Pattern w) :
    n.toIntChecked t a = w.format.toInt t a.toNat := by
  rw [toIntChecked]
  by_cases hnan : w.format.isNan a.toNat
  · rw [if_pos hnan, Format.toInt, if_pos hnan]
  have hna : w.format.isNan a.toNat = false := by simpa using hnan
  obtain ⟨⟨hlo, -⟩, hhi, -⟩ := bounds_marks w t
  have hbounds : (n.le a (bounds w t).1 ∨ n.le (bounds w t).2 a) ↔
      ¬t.Contains (truncate (w.format.value a.toNat)) := by
    rw [not_contains_iff hna, hn.le, hn.le]
    simp [hna, hlo, hhi]
  rw [if_neg hnan]
  by_cases hinf : w.format.isInfinite a.toNat
  · have hbeyond : n.le a (bounds w t).1 ∨ n.le (bounds w t).2 a := by
      rw [hn.le, hn.le, Format.extended, if_pos hinf]
      cases w.format.negative a.toNat <;> simp [hna, hlo, hhi]
    rw [if_pos hbeyond, Format.toInt, if_neg hnan, if_pos hinf]
  · rw [Format.toInt_eq w.regular t hna hinf]
    by_cases hcontains : t.Contains (truncate (w.format.value a.toNat))
    · rw [if_neg (hbounds.not.2 (not_not.2 hcontains)), if_pos hcontains,
        hn.toInt t a (Format.finite_of hna hinf) hcontains, IntTarget.cut_word]
    · rw [if_pos (hbounds.2 hcontains), if_neg hcontains]

/-- **A correct unit under the NaN rule computes what the soft policy does.** -/
theorem repaired_eq_soft : n.repaired = FloatOps.soft w := by
  have hF := w.regular
  have hlt (a : Pattern w) := Width.toNat_lt a
  rw [repaired, FloatOps.soft, FloatOps.mk.injEq]
  refine ⟨?_, ?_, ?_, ?_, ?_, ?_, ?_, ?_, ?_, ?_, ?_⟩
  · funext a b
    exact repair_lift₂ (Format.nanRule_add hF (hlt a) (hlt b))
      (Format.add_delivers hF (hlt a) (hlt b)) (hn.add a b)
  · funext a b
    exact repair_lift₂ (Format.nanRule_sub hF (hlt a) (hlt b))
      (Format.sub_delivers hF (hlt a) (hlt b)) (hn.sub a b)
  · funext a b
    exact repair_lift₂ (Format.nanRule_mul hF (hlt a) (hlt b))
      (Format.mul_delivers hF (hlt a) (hlt b)) (hn.mul a b)
  · funext a b
    exact repair_lift₂ (Format.nanRule_div hF (hlt a) (hlt b))
      (Format.div_delivers hF (hlt a) (hlt b)) (hn.div a b)
  · funext a
    exact repair_lift (Format.nanRule_sqrt hF (hlt a)) (Format.sqrt_delivers hF (hlt a)) (hn.sqrt a)
  · funext mode a
    exact repair_lift (Format.nanRule_roundToInt hF (hlt a) mode)
      (Format.roundToInt_delivers hF (hlt a) mode) (hn.round mode a)
  · funext a b
    exact Bool.eq_iff_iff.2 ((hn.eq a b).trans (Format.eq_iff (hlt a) (hlt b) hF).symm)
  · funext a b
    exact Bool.eq_iff_iff.2 ((hn.lt a b).trans (Format.lt_iff (hlt a) (hlt b) hF).symm)
  · funext a b
    exact Bool.eq_iff_iff.2 ((hn.le a b).trans (Format.le_iff (hlt a) (hlt b) hF).symm)
  · funext t r
    exact eq_of_delivers (by simp) (hn.ofInt t r) (FloatOps.ofInt_delivers t r)
  · funext t a
    exact toIntChecked_eq hn t a

end NativeOps

namespace FloatPolicy

end FloatPolicy

/-! ### A correct unit with NaNs of its own -/

namespace NativeOps

variable {w : Width}

/-- A result with a negative NaN in place of every NaN, as many units make it. -/
def indefinite (r : Pattern w) : Pattern w :=
  if w.format.isNan r.toNat then BitVec.ofNat _ (w.format.zero true + w.format.canonicalNan) else r

theorem indefinite_delivers {e : Exact} {r : Pattern w} (h : w.format.Delivers e r.toNat) :
    w.format.Delivers e (indefinite r).toNat := by
  have hlt := w.regular.canonicalNan_lt
  rw [indefinite]
  split_ifs with hnan
  · obtain rfl : e = .nan := by
      by_contra he
      simp [h.not_nan he] at hnan
    rw [Width.toNat_ofNat (Format.zero_add_lt hlt)]
    have hquiet := w.regular.isNan_canonicalNan
    rw [Format.isNan_iff, Format.magnitude, Nat.mod_eq_of_lt hlt] at hquiet
    exact Format.isNan_iff.2 (by rwa [Format.magnitude_zero_add hlt])
  · exact h

/-- A unit that computes on integers, with negative NaNs. -/
def ofSoft (w : Width) : NativeOps w where
  add a b := indefinite ((FloatOps.soft w).add a b)
  sub a b := indefinite ((FloatOps.soft w).sub a b)
  mul a b := indefinite ((FloatOps.soft w).mul a b)
  div a b := indefinite ((FloatOps.soft w).div a b)
  sqrt a := indefinite ((FloatOps.soft w).sqrt a)
  round mode a := indefinite ((FloatOps.soft w).round mode a)
  eq := (FloatOps.soft w).eq
  lt := (FloatOps.soft w).lt
  le := (FloatOps.soft w).le
  ofInt := (FloatOps.soft w).ofInt
  toInt t a := ((FloatOps.soft w).toInt t a).toOption.getD 0

theorem ofSoft_correct (w : Width) : (ofSoft w).Correct := by
  have hF := w.regular
  have hlt (a : Pattern w) := Width.toNat_lt a
  refine ⟨fun a b => indefinite_delivers ?_, fun a b => indefinite_delivers ?_,
    fun a b => indefinite_delivers ?_, fun a b => indefinite_delivers ?_,
    fun a => indefinite_delivers ?_, fun mode a => indefinite_delivers ?_,
    fun a b => Format.eq_iff (hlt a) (hlt b) hF, fun a b => Format.lt_iff (hlt a) (hlt b) hF,
    fun a b => Format.le_iff (hlt a) (hlt b) hF, FloatOps.ofInt_delivers,
    fun t a hfin hcontains => ?_⟩
  · exact FloatOps.lift₂_delivers (Format.nanRule_add hF (hlt a) (hlt b))
      (Format.add_delivers hF (hlt a) (hlt b))
  · exact FloatOps.lift₂_delivers (Format.nanRule_sub hF (hlt a) (hlt b))
      (Format.sub_delivers hF (hlt a) (hlt b))
  · exact FloatOps.lift₂_delivers (Format.nanRule_mul hF (hlt a) (hlt b))
      (Format.mul_delivers hF (hlt a) (hlt b))
  · exact FloatOps.lift₂_delivers (Format.nanRule_div hF (hlt a) (hlt b))
      (Format.div_delivers hF (hlt a) (hlt b))
  · exact FloatOps.lift_delivers (Format.nanRule_sqrt hF (hlt a)) (Format.sqrt_delivers hF (hlt a))
  · exact FloatOps.lift_delivers (Format.nanRule_roundToInt hF (hlt a) mode)
      (Format.roundToInt_delivers hF (hlt a) mode)
  · have htoInt : (FloatOps.soft w).toInt t a = .ok (t.word (truncate (w.format.value a.toNat))) :=
      (Format.toInt_eq hF t hfin.not_nan hfin.not_infinite).trans (if_pos hcontains)
    simp only [ofSoft]
    rw [htoInt]
    rfl

end NativeOps

/-- A unit that computes on integers, with negative NaNs. -/
def Native.ofSoft : Native where
  ops := NativeOps.ofSoft
  demote a := NativeOps.indefinite (w := .w32) (FloatPolicy.soft.demote a)
  promote a := NativeOps.indefinite (w := .w64) (FloatPolicy.soft.promote a)

theorem Native.ofSoft_correct : Native.ofSoft.Correct where
  ops := NativeOps.ofSoft_correct
  demote a := NativeOps.indefinite_delivers (w := .w32) (FloatPolicy.demote_delivers a)
  promote a := NativeOps.indefinite_delivers (w := .w64) (FloatPolicy.promote_delivers a)

end WasmEngine
