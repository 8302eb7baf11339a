import WasmEngine.Proofs.Float.NoOverflow

/-!
# Integers out of floats

A float is made integral in two ways. **Rounding** stays within the format
(`WasmEngine.Format.Integralizes`): every integer next to a value is a value
again, so the result is that integer and nothing else, and it keeps the sign of
the operand even where the integer is zero. **Truncation** leaves the format for
a range of integers (`WasmEngine.Format.Truncates`), and fails where the integer
toward zero is not in the range. Saturating truncation does not fail
(`WasmEngine.Format.Saturates`): it clamps.

The ranges are given here by their bounds and their words by two's complement,
and not by magnitudes and remainders, by which they are computed. That is the
same (`WasmEngine.IntTarget.signMagnitude_exact`).
-/

namespace WasmEngine

namespace IntTarget

variable {t : IntTarget} {v : Int}

/-! ### The four ranges -/

/-- The smallest integer of a range. -/
def lowest : IntTarget → Int
  | .i32 => -2 ^ 31
  | .i64 => -2 ^ 63
  | .u32 | .u64 => 0

/-- The largest integer of a range. -/
def highest : IntTarget → Int
  | .i32 => 2 ^ 31 - 1
  | .u32 => 2 ^ 32 - 1
  | .i64 => 2 ^ 63 - 1
  | .u64 => 2 ^ 64 - 1

/-- The two's complement of an integer at the width of a range, zero-extended. -/
def complement (t : IntTarget) (v : Int) : Raw :=
  match t with
  | .i32 | .u32 => Raw.ofLow (BitVec.ofInt 32 v)
  | .i64 | .u64 => BitVec.ofInt 64 v

theorem neg_limit (t : IntTarget) : -(t.limit true : Int) = t.lowest := by
  cases t <;> rfl

theorem limit_false (t : IntTarget) : (t.limit false : Int) = t.highest := by
  cases t <;> rfl

theorem contains_iff : t.Contains v ↔ t.lowest ≤ v ∧ v ≤ t.highest := by
  rw [Contains, neg_limit, limit_false]

theorem word_eq_complement (t : IntTarget) (v : Int) : t.word v = t.complement v := by
  refine BitVec.eq_of_toNat_eq ?_
  cases t <;>
    simp only [word, complement, count, bits, Raw.ofLow, BitVec.toNat_ofNat, BitVec.toNat_setWidth,
      BitVec.toNat_ofInt, Nat.reduceShiftLeft] <;>
    omega

theorem lowest_le_zero (t : IntTarget) : t.lowest ≤ 0 := by
  cases t <;> decide

theorem zero_le_highest (t : IntTarget) : 0 ≤ t.highest := by
  cases t <;> decide

/-- An integer, or the bound of the range that it lies beyond. -/
def clamp (t : IntTarget) (v : Int) : Int := max t.lowest (min v t.highest)

theorem clamp_of_contains (h : t.Contains v) : t.clamp v = v := by
  obtain ⟨hlo, hhi⟩ := contains_iff.1 h
  rw [clamp, min_eq_left hhi, max_eq_right hlo]

/-- Beyond the range, the side of zero tells the bound. -/
theorem clamp_of_not_contains (h : ¬t.Contains v) :
    t.clamp v = if v < 0 then t.lowest else t.highest := by
  have hlo := t.lowest_le_zero
  have hhi := t.zero_le_highest
  rw [contains_iff, not_and_or, not_le, not_le] at h
  rw [clamp]
  split <;> omega

/-! ### Signs and magnitudes -/

/-- The complement of an integer in the range denotes it. -/
theorem number_complement (h : t.lowest ≤ v ∧ v ≤ t.highest) : t.number (t.complement v) = v := by
  cases t <;> simp only [lowest, highest, number, complement, Raw.low_ofLow,
    BitVec.toNat_ofInt] at h ⊢
  case i32 | i64 => exact BitVec.toInt_ofInt_eq_self (by decide) h.1 (by omega)
  all_goals omega

/-- A word is the complement of what it denotes, the bits above the width apart. -/
theorem complement_number (t : IntTarget) (r : Raw) : t.complement (t.number r) = t.cut r := by
  cases t <;>
    simp only [complement, number, cut, bits, BitVec.ofInt_toInt, BitVec.ofInt_natCast,
      BitVec.ofNat_toNat, BitVec.setWidth_eq] <;>
    rfl

theorem number_bounds (t : IntTarget) (r : Raw) : t.lowest ≤ t.number r ∧
    t.number r ≤ t.highest := by
  have hlow := r.low.isLt
  have hr := r.isLt
  cases t <;> simp only [lowest, highest, number]
  case i32 | i64 => exact ⟨BitVec.le_toInt _, Int.le_sub_one_of_lt BitVec.toInt_lt⟩
  all_goals omega

theorem ofSignMagnitude?_eq_some_iff {s : Bool} {m : Nat} {r : Raw} :
    t.ofSignMagnitude? s m = some r ↔
      (t.lowest ≤ (if s then -(m : Int) else m) ∧ (if s then -(m : Int) else m) ≤ t.highest) ∧
        r = t.complement (if s then -(m : Int) else m) := by
  rw [ofSignMagnitude?_eq, Option.ite_none_right_eq_some, contains_iff, Option.some_inj,
    word_eq_complement, eq_comm (a := r)]

/-- **Signs and magnitudes are the integers of a range.** They make a word
exactly if the range has their integer; the word has the sign and the magnitude
that it was made of, but for a zero, which has no sign; and what any word has
makes it again, cut to the width. The same is computed on machine words. -/
theorem signMagnitude_exact (t : IntTarget) (s : Bool) (m : U64) (raw : Raw) :
    let v : Int := if s then -m.toNat else m.toNat
    (∀ r, t.ofSignMagnitude? s m.toNat = some r ↔ (t.lowest ≤ v ∧ v ≤ t.highest) ∧
      r = t.complement v) ∧
      (∀ r, t.ofSignMagnitude? s m.toNat = some r → t.signMagnitude r = (s && m != 0, m.toNat)) ∧
      t.ofSignMagnitude? (t.signMagnitude raw).1 (t.signMagnitude raw).2 = some (t.cut raw) ∧
      OnWords.ofSignMagnitude? t s m = .ok (t.ofSignMagnitude? s m.toNat) ∧
      ((OnWords.signMagnitude t raw).1, (OnWords.signMagnitude t raw).2.toNat) =
      t.signMagnitude raw := by
  refine ⟨fun r => ofSignMagnitude?_eq_some_iff, fun r hr => ?_, ofSignMagnitude?_eq_some_iff.2 ?_,
    OnWords.ofSignMagnitude?_eq t s m, OnWords.signMagnitude_eq t raw⟩
  · obtain ⟨hmem, rfl⟩ := ofSignMagnitude?_eq_some_iff.1 hr
    rw [signMagnitude, value_eq_number, number_complement hmem]
    refine Prod.ext (Bool.eq_iff_iff.2 ?_) ?_
    · rw [decide_eq_true_iff, Bool.and_eq_true, bne_iff_ne, ne_eq, Word.eq_zero_iff rfl]
      cases s
      · simp
      · simp only [if_true, true_and]
        omega
    · cases s <;> simp
  · have hv :
      (if (t.signMagnitude raw).1 then -((t.signMagnitude raw).2 : Int) else
        (t.signMagnitude raw).2) = t.number raw := by
      simp only [signMagnitude, value_eq_number, decide_eq_true_iff]
      split <;> omega
    rw [hv]
    exact ⟨t.number_bounds raw, (t.complement_number raw).symm⟩

end IntTarget

namespace Format

variable {F : Format} {a : Nat}

/-! ### Truncation -/

/-- **What truncation into a range has to come to.** -/
structure Truncates (F : Format) (t : IntTarget) (a : Nat) (r : Except Trap Raw) : Prop where
  /-- A NaN is no integer, and nothing else is invalid. -/
  invalid : r = .error .invalidConversion ↔ F.isNan a
  /-- Otherwise it overflows for infinities and for values whose integer toward
  zero is not in the range, and only for them. -/
  overflow : F.isNan a = false →
    (r = .error .integerOverflow ↔ F.isInfinite a ∨ truncate (F.value a) < t.lowest ∨
      t.highest < truncate (F.value a))
  /-- All other values become the word of that integer. -/
  integer : F.Finite a → t.lowest ≤ truncate (F.value a) → truncate (F.value a) ≤ t.highest →
    r = .ok (t.complement (truncate (F.value a)))

/-- **What saturating truncation into a range has to give.** -/
structure Saturates (F : Format) (t : IntTarget) (a : Nat) (r : Raw) : Prop where
  /-- A NaN becomes zero. -/
  nan : F.isNan a → r = 0
  /-- A value becomes the integer toward zero, clamped to the range. -/
  finite : F.Finite a → r = t.complement (t.clamp (truncate (F.value a)))
  /-- An infinity becomes the bound of its sign. -/
  infinite : F.isInfinite a → r = t.complement (if F.negative a then t.lowest else t.highest)

theorem toInt_nan (t : IntTarget) (h : F.isNan a) : F.toInt t a = .error .invalidConversion := by
  rw [toInt, if_pos h]

theorem toInt_infinite (t : IntTarget) (h : F.isInfinite a) :
    F.toInt t a = .error .integerOverflow := by
  rw [toInt, not_nan_of_isInfinite h, if_neg Bool.false_ne_true, if_pos h]

/-- The sign of a value whose integer toward zero is not zero. -/
theorem truncate_value_neg_iff (h : truncate (F.value a) ≠ 0) : truncate (F.value a) < 0 ↔
    F.negative a := by
  have hsize : 0 ≤ F.units (F.magnitude a) * F.quantum :=
    mul_nonneg (Nat.cast_nonneg _) F.quantum_pos.le
  have hfloor : 0 ≤ ⌊F.units (F.magnitude a) * F.quantum⌋ := Int.floor_nonneg.2 hsize
  rw [value, truncate_sgn_mul hsize] at h ⊢
  split_ifs at h ⊢ with hneg
  · exact iff_of_true (by omega) hneg
  · exact iff_of_false (by omega) hneg

theorem toInt_truncates (hF : F.Regular) (t : IntTarget) (a : Nat) :
    F.Truncates t a (F.toInt t a) := by
  by_cases hnan : F.isNan a
  · rw [toInt_nan t hnan]
    refine ⟨iff_of_true rfl hnan, fun h => ?_, fun h => ?_⟩
    · exact absurd hnan (by simp [h])
    · exact absurd hnan (by simp [h.not_nan])
  have hnot : F.isNan a = false := by simpa using hnan
  by_cases hinf : F.isInfinite a
  · rw [toInt_infinite t hinf]
    refine ⟨iff_of_false (by simp) hnan, fun _ => iff_of_true rfl (.inl hinf),
      fun h => absurd hinf h.not_infinite⟩
  rw [toInt_eq hF t hnot hinf]
  by_cases hcontains : t.Contains (truncate (F.value a))
  · have ⟨hlo, hhi⟩ := IntTarget.contains_iff.1 hcontains
    rw [if_pos hcontains, IntTarget.word_eq_complement]
    refine ⟨iff_of_false (by simp) hnan, fun _ => iff_of_false (by simp) ?_, fun _ _ _ => rfl⟩
    rintro (h | h | h)
    exacts [hinf h, absurd h (not_lt.2 hlo), absurd h (not_lt.2 hhi)]
  · rw [if_neg hcontains]
    rw [IntTarget.contains_iff, not_and_or, not_le, not_le] at hcontains
    refine ⟨iff_of_false (by simp) hnan, fun _ => iff_of_true rfl (.inr hcontains),
      fun _ hlo hhi => ?_⟩
    rcases hcontains with h | h
    exacts [absurd h (not_lt.2 hlo), absurd h (not_lt.2 hhi)]

end Format

theorem FloatOps.soft_toIntSat_saturates (w : Width) (t : IntTarget) (a : Pattern w) :
    w.format.Saturates t a.toNat ((FloatOps.soft w).toIntSat t a) := by
  have hbound : (if w.format.negative a.toNat then t.minRaw else t.maxRaw) =
      t.complement (if w.format.negative a.toNat then t.lowest else t.highest) := by
    rw [IntTarget.minRaw, IntTarget.maxRaw, IntTarget.neg_limit, IntTarget.limit_false,
      IntTarget.word_eq_complement, IntTarget.word_eq_complement]
    split <;> rfl
  have htoInt : (FloatOps.soft w).toInt t a = w.format.toInt t a.toNat := rfl
  refine ⟨fun hnan => ?_, fun hfin => ?_, fun hinf => ?_⟩ <;> rw [toIntSat, htoInt]
  · rw [Format.toInt_nan t hnan]
  · rw [Format.toInt_eq w.regular t hfin.not_nan hfin.not_infinite]
    by_cases hcontains : t.Contains (truncate (w.format.value a.toNat))
    · rw [if_pos hcontains, IntTarget.clamp_of_contains hcontains, IntTarget.word_eq_complement]
    · -- what is beyond the range is not zero, so that the sign bit is the sign of the integer
      have hne : truncate (w.format.value a.toNat) ≠ 0 := fun h => hcontains (h ▸ t.contains_zero)
      simp only [if_neg hcontains, IntTarget.clamp_of_not_contains hcontains,
        Format.truncate_value_neg_iff hne]
      exact hbound
  · rw [Format.toInt_infinite t hinf]
    exact hbound

/-- **Truncation fails exactly where it has to, and saturation clamps**, at both
widths, for all floats and all ranges. -/
theorem FloatPolicy.soft_truncates_and_clamps (w : Width) (t : IntTarget) (a : Pattern w) :
    w.format.Truncates t a.toNat ((soft.ops w).toInt t a) ∧
    w.format.Saturates t a.toNat ((soft.ops w).toIntSat t a) :=
  ⟨Format.toInt_truncates w.regular t a.toNat, FloatOps.soft_toIntSat_saturates w t a⟩

namespace Format

variable {F : Format} {a : Nat}

/-! ### Rounding -/

/-- **What rounding to an integral value has to give.** -/
structure Integralizes (F : Format) (mode : Rounding) (a r : Nat) : Prop where
  /-- A value becomes the integer of the mode, with the sign of the operand. -/
  finite : F.Finite a → F.Represents (mode.integral (F.value a)) (F.negative a) r
  /-- No other pattern stands for that integer with that sign. -/
  only : F.Finite a → ∀ c, F.Represents (mode.integral (F.value a)) (F.negative a) c → c = r
  /-- Infinities stay as they are. -/
  infinite : F.isInfinite a → r = a
  /-- NaNs become quiet. -/
  nan : F.isNan a → r = a ||| F.quietBit

theorem roundToInt_infinite (mode : Rounding) (h : F.isInfinite a) : F.roundToInt mode a = a := by
  rw [roundToInt, not_nan_of_isInfinite h, if_neg Bool.false_ne_true, if_pos (.inl h)]

theorem roundToInt_nan (hF : F.Regular) (ha : a < 2 * F.signBit) (mode : Rounding) (h : F.isNan a) :
    F.roundToInt mode a = a ||| F.quietBit :=
  (nanRule_roundToInt hF ha mode).operand a (by simp [h])

theorem roundToInt_integralizes (hF : F.Regular) (ha : a < 2 * F.signBit) (mode : Rounding) :
    F.Integralizes mode a (F.roundToInt mode a) := by
  have hfinite (hfin : F.Finite a) := roundToInt_represents hF ha hfin mode
  exact ⟨hfinite, fun hfin _ hc => hc.unique (hfinite hfin), roundToInt_infinite mode,
    roundToInt_nan hF ha mode⟩

/-- What is integral is not changed. -/
theorem roundToInt_roundToInt (hF : F.Regular) (ha : a < 2 * F.signBit) (mode : Rounding) :
    F.roundToInt mode (F.roundToInt mode a) = F.roundToInt mode a := by
  have hlt := (nanRule_roundToInt hF ha mode).lt
  by_cases hnan : F.isNan a
  · have hnan' : F.isNan (F.roundToInt mode a) := (nanRule_roundToInt hF ha mode).isNan_iff.2
      (.inl ⟨a, by simp, hnan⟩)
    rw [roundToInt_nan hF hlt mode hnan', roundToInt_nan hF ha mode hnan, Nat.or_assoc, Nat.or_self]
  by_cases hinf : F.isInfinite a
  · rw [roundToInt_infinite mode hinf, roundToInt_infinite mode hinf]
  · have h := roundToInt_represents hF ha (finite_of (by simpa using hnan) hinf) mode
    have h' := roundToInt_represents hF hlt h.finite mode
    rw [h.value, Rounding.integral_intCast, h.sign] at h'
    exact h'.unique h

end Format

/-- The instruction that rounds in a mode. -/
def Rounding.op : Rounding → FloatUnary
  | .ceil => .ceil
  | .floor => .floor
  | .trunc => .trunc
  | .nearest => .nearest

/-- **Rounding gives the exact integral value**, at both widths, in all modes
and for all floats. So its results are integral, and rounding them again changes
nothing. -/
theorem FloatPolicy.soft_rounds_to_integers (w : Width) (mode : Rounding) (a : Pattern w) :
    w.format.Integralizes mode a.toNat ((soft.ops w).unary mode.op a).toNat ∧
      (w.format.Finite a.toNat → ∃ n : Int,
        w.format.value ((soft.ops w).unary mode.op a).toNat = n) ∧
      (soft.ops w).unary mode.op ((soft.ops w).unary mode.op a) = (soft.ops w).unary mode.op a := by
  have hF := w.regular
  have ha := Width.toNat_lt a
  have hround (b : Pattern w) : (soft.ops w).unary mode.op b =
      BitVec.ofNat _ (w.format.roundToInt mode b.toNat) := by
    cases mode <;> rfl
  have htoNat : ((soft.ops w).unary mode.op a).toNat = w.format.roundToInt mode a.toNat := by
    rw [hround]
    exact Width.toNat_ofNat (Format.nanRule_roundToInt hF ha mode).lt
  have hints := Format.roundToInt_integralizes hF ha mode
  refine ⟨htoNat ▸ hints, fun hfin => ⟨_, htoNat ▸ (hints.finite hfin).value⟩, ?_⟩
  rw [hround ((soft.ops w).unary mode.op a), htoNat, Format.roundToInt_roundToInt hF ha, ← hround]

end WasmEngine
