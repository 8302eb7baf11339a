import WasmEngine.Proofs.Float.Exact
import WasmEngine.Proofs.Float.Nan

/-!
# The closest magnitude

To round a number is to find the magnitude whose quanta are closest to those of
the number, with an even one if there are two (`WasmEngine.Format.Closest`). Two
even magnitudes cannot be equally close, as there is an odd one in between;
hence a format delivers an exact result by one pattern only, NaNs apart
(`WasmEngine.Format.Delivers.unique`).

Closeness does not have to know about infinities: take the closest of *all*
magnitudes, and the infinity if that is beyond the finite ones
(`WasmEngine.Format.delivers_of_closest`). The threshold between the two is
halfway between the largest finite magnitude, which is odd, and the next.
-/

namespace WasmEngine

namespace Format

/-- **The magnitude closest to `t` quanta** among those of a set: no other is
closer, and if another is equally close it is even. -/
def Closest (F : Format) (C : Set Nat) (t : ℝ) (p : Nat) : Prop :=
  ∀ c ∈ C, |t - F.units p| ≤ |t - F.units c| ∧ (|t - F.units p| = |t - F.units c| → c ≠ p → Even p)

variable {F : Format} {t x : ℝ} {p q a b : Nat} {s z : Bool}

theorem units_cast_lt (h : p < q) : (F.units p : ℝ) < F.units q :=
  Nat.cast_lt.2 (units_strictMono h)

/-- Two numbers equally far from a third have it in the middle. -/
theorem eq_midpoint {u v : ℝ} (hlt : u < v) (h : |t - u| = |t - v|) : t = (u + v) / 2 := by
  obtain h | h := abs_eq_abs.1 h <;> linarith

/-- **The closest magnitude is unique**: between two even ones there is an odd
one, and it would be closer. -/
theorem Closest.unique {N : Nat} (hp : p < N) (hq : q < N) (h : F.Closest (Set.Iio N) t p)
    (h' : F.Closest (Set.Iio N) t q) : p = q := by
  by_contra hne
  wlog hlt : p < q generalizing p q
  · exact this hq hp h' h (Ne.symm hne) (by omega)
  have heq : |t - F.units p| = |t - F.units q| := le_antisymm (h q hq).1 (h' p hp).1
  have hpe : Even p := (h q hq).2 heq (Ne.symm hne)
  have hqe : Even q := (h' p hp).2 heq.symm hne
  have hbetween : p + 1 < q := by
    obtain ⟨k, rfl⟩ := hpe
    obtain ⟨l, rfl⟩ := hqe
    omega
  have hlow : (F.units p : ℝ) < F.units (p + 1) := units_cast_lt (Nat.lt_succ_self p)
  have hhigh : (F.units (p + 1) : ℝ) < F.units q := units_cast_lt hbetween
  have hmid := eq_midpoint (hlow.trans hhigh) heq
  have hcloser : |t - F.units (p + 1)| < |t - F.units p| := by
    rw [abs_of_pos (show 0 < t - F.units p by linarith), abs_lt]
    constructor <;> linarith
  exact absurd (h (p + 1) (hbetween.trans hq)).1 (not_le.2 hcloser)

/-! ### Numbers by sign and quanta -/

/-- Distances among numbers of one sign. -/
theorem abs_sub_value_same (hx : x = sgn s * (t * F.quantum)) (hs : F.negative a = s) :
    |x - F.value a| = |t - F.units (F.magnitude a)| * F.quantum := by
  have hq := F.quantum_pos
  have hsub : x - F.value a = sgn s * ((t - F.units (F.magnitude a)) * F.quantum) := by
    rw [hx, value, hs]
    ring
  rw [hsub, abs_mul, abs_mul, abs_sgn, one_mul, abs_of_pos hq]

/-- Distances across zero. -/
theorem abs_sub_value_other (hx : x = sgn s * (t * F.quantum)) (ht : 0 ≤ t)
    (hs : F.negative a ≠ s) :
    |x - F.value a| = (t + F.units (F.magnitude a)) * F.quantum := by
  have hq := F.quantum_pos
  have hsub : x - F.value a = sgn s * ((t + F.units (F.magnitude a)) * F.quantum) := by
    have hneg : F.negative a = !s := by
      cases s <;> simpa using hs
    rw [hx, value, hneg, sgn_not]
    ring
  rw [hsub, abs_mul, abs_mul, abs_sgn, one_mul, abs_of_pos hq, abs_of_nonneg (by positivity)]

/-- A number that has the sign of a result is that sign times its quanta. -/
theorem exists_quanta (F : Format) (hs : s ↔ x < 0 ∨ (x = 0 ∧ z)) : ∃ t, 0 ≤ t ∧
    x = sgn s * (t * F.quantum) := by
  have hq := F.quantum_pos
  refine ⟨|x| / F.quantum, by positivity, ?_⟩
  rw [div_mul_cancel₀ _ hq.ne']
  cases s with
  | false =>
    have : 0 ≤ x := by
      by_contra hlt
      simp [not_le.1 hlt] at hs
    simp [sgn, abs_of_nonneg this]
  | true =>
    have : x ≤ 0 := by
      rcases hs.1 rfl with h | h
      · exact h.le
      · exact h.1.le
    simp [sgn, abs_of_nonpos this]

/-! ### Results are unique -/

theorem Regular.even_hiddenBit (hF : F.Regular) : Even F.hiddenBit := by
  rw [even_iff_two_dvd, ← hF.two_mul_quietBit]
  exact dvd_mul_right 2 _

theorem Regular.even_magnitude_iff (hF : F.Regular) : Even (F.magnitude a) ↔ Even a := by
  have hdvd : 2 ∣ F.signBit := (even_iff_two_dvd.1 hF.even_hiddenBit).trans ⟨_, F.signBit_eq_mul⟩
  rw [Nat.even_iff, Nat.even_iff, magnitude, Nat.mod_mod_of_dvd _ hdvd]

/-- A nearest value has the closest of the finite magnitudes. -/
theorem closest_of_nearest (hF : F.Regular) (hx : x = sgn (F.negative a) * (t * F.quantum))
    (near : ∀ c, F.Finite c → |x - F.value a| ≤ |x - F.value c|)
    (even : ∀ c, F.Finite c → F.value c ≠ F.value a → |x - F.value a| = |x - F.value c| → Even a) :
    F.Closest (Set.Iio F.expMask) t (F.magnitude a) := by
  intro c hc
  have hlt : c < F.signBit := lt_trans hc F.expMask_lt_signBit
  have hm : F.magnitude (F.zero (F.negative a) + c) = c := magnitude_zero_add hlt _
  have hfinite : F.Finite (F.zero (F.negative a) + c) := by
    rw [Finite, hm]
    exact hc
  have hnear := near _ hfinite
  have heven := even _ hfinite
  rw [abs_sub_value_same hx rfl, abs_sub_value_same hx (negative_zero_add hlt _), hm] at hnear heven
  refine ⟨le_of_mul_le_mul_right hnear F.quantum_pos, fun htie hne => hF.even_magnitude_iff.2
    (heven ?_ (by rw [htie]))⟩
  intro hvalue
  rw [value_zero_add hlt, value] at hvalue
  have hsgn : sgn (F.negative a) ≠ 0 := by
    intro h
    simpa [h] using sgn_mul_sgn (F.negative a)
  have hunits := mul_right_cancel₀ F.quantum_pos.ne' (mul_left_cancel₀ hsgn hvalue)
  exact hne (units_strictMono.injective (Nat.cast_injective hunits))

/-- **An exact result is delivered by one pattern only**, NaNs apart. -/
theorem Delivers.unique (hF : F.Regular) {e : Exact} (he : e ≠ .nan) (ha : a < 2 * F.signBit)
    (hb : b < 2 * F.signBit) (h : F.Delivers e a) (h' : F.Delivers e b) : a = b := by
  cases e with
  | nan => exact absurd rfl he
  | infinite s => exact Eq.trans h (Eq.symm h')
  | finite x z =>
    obtain ⟨hr, hs⟩ := h
    obtain ⟨hr', hs'⟩ := h'
    have hsign : F.negative a = F.negative b := Bool.eq_iff_iff.2 (hs.trans hs'.symm)
    refine eq_of_magnitude ha hb hsign ?_
    cases hr with
    | nearest hx hfin near even =>
      cases hr' with
      | nearest _ hfin' near' even' =>
        obtain ⟨t, ht, hxt⟩ := exists_quanta F hs
        exact Closest.unique hfin hfin' (closest_of_nearest hF hxt near even)
          (closest_of_nearest hF (hsign ▸ hxt) near' even')
      | overflow hx' => exact absurd hx (not_lt.2 hx')
    | overflow hx hinf =>
      cases hr' with
      | nearest hx' => exact absurd hx' (not_lt.2 hx)
      | overflow _ hinf' => rw [isInfinite_iff.1 hinf, isInfinite_iff.1 hinf']

/-! ### Results from closest magnitudes -/

/-- Where the closest magnitude passes from an odd one to the next: halfway, and
there already. -/
theorem Closest.le_iff {n : Nat} (hn : ¬Even n) (h : F.Closest Set.univ t p) :
    p ≤ n ↔ t < (F.units n + F.units (n + 1)) / 2 := by
  have hstep : (F.units n : ℝ) < F.units (n + 1) := units_cast_lt (Nat.lt_succ_self n)
  constructor
  · intro hp
    by_contra hge
    have hup : (F.units p : ℝ) ≤ F.units n := Nat.cast_le.2 (units_strictMono.monotone hp)
    have hnext : |t - F.units (n + 1)| ≤ t - F.units n := by
      rw [abs_le]
      constructor <;> linarith
    have hself : |t - F.units p| = t - F.units p := abs_of_nonneg (by linarith)
    obtain ⟨hle, htie⟩ := h (n + 1) (Set.mem_univ _)
    -- the closest one would be the odd one, and the next equally close
    obtain rfl : p = n := by
      refine units_strictMono.injective (Nat.cast_injective (R := ℝ) (le_antisymm hup ?_))
      linarith
    exact hn (htie (by linarith) (Nat.succ_ne_self p))
  · intro hlt
    by_contra hp
    have hup : (F.units (n + 1) : ℝ) ≤ F.units p :=
      Nat.cast_le.2 (units_strictMono.monotone (by omega))
    have hnear : |t - F.units n| < F.units p - t := by
      rw [abs_lt]
      constructor <;> linarith
    have hself : |t - F.units p| = F.units p - t := by
      rw [abs_sub_comm, abs_of_nonneg (by linarith)]
    have := (h n (Set.mem_univ _)).1
    linarith

section

variable (hF : F.Regular)
include hF

theorem odd_expMask_sub_one : ¬Even (F.expMask - 1) := by
  have hpos := hF.expMask_pos
  have heven : Even F.expMask := hF.even_hiddenBit.mul_left _
  rw [Nat.even_sub hpos]
  simp [heven]

theorem expMask_eq : F.expMask = (2 * F.bias - 1) * F.hiddenBit + 2 * F.hiddenBit := by
  have hbias := hF.bias_pos
  rw [expMask, hF.maxExp_eq, ← Nat.add_mul, show 2 * F.bias - 1 + 2 = 2 * F.bias + 1 by omega]

/-- At the magnitude of the infinity, the value would be the next power of two. -/
theorem units_expMask_mul : F.units F.expMask * F.quantum = 2 ^ (F.bias + 1) := by
  have hbias := hF.bias_pos
  have hh := F.hiddenBit_pos
  rw [expMask_eq hF, units_pack le_rfl (.inl (by omega)), quantum, hiddenBit_eq]
  push_cast
  rw [← zpow_natCast, ← zpow_natCast, ← zpow_natCast, ← zpow_one_add₀ two_ne_zero,
    ← zpow_add₀ two_ne_zero, ← zpow_add₀ two_ne_zero, minLsb]
  congr 1
  omega

/-- The threshold is halfway between the largest finite magnitude and the next. -/
theorem threshold_eq :
    F.threshold = (F.units (F.expMask - 1) + F.units F.expMask) / 2 * F.quantum := by
  have hh := F.hiddenBit_pos
  have hmask := expMask_eq hF
  have hlast : F.expMask - 1 = (2 * F.bias - 1) * F.hiddenBit + (2 * F.hiddenBit - 1) := by omega
  obtain ⟨k, hk⟩ : ∃ k, F.bias = k + 1 := ⟨F.bias - 1, by have := hF.bias_pos; omega⟩
  have hexp : 2 * F.bias - 1 = F.bias + k := by omega
  rw [hlast, units_pack (by omega) (by omega), hmask, units_pack le_rfl (by omega), threshold,
    quantum, minLsb, hiddenBit_eq, Nat.cast_mul, Nat.cast_mul,
    Nat.cast_sub (by have := Nat.two_pow_pos F.mantBits; omega)]
  push_cast
  rw [hexp, pow_add, zpow_sub₀ two_ne_zero, zpow_sub₀ two_ne_zero, zpow_neg, zpow_add₀ two_ne_zero,
    zpow_natCast, zpow_natCast, zpow_one, hk, pow_succ]
  field_simp
  ring

theorem Closest.lt_expMask_iff (h : F.Closest Set.univ t p) : p < F.expMask ↔
    t * F.quantum < F.threshold := by
  have hpos := hF.expMask_pos
  rw [threshold_eq hF, mul_lt_mul_iff_left₀ F.quantum_pos, ← Nat.le_sub_one_iff_lt hpos,
    h.le_iff (odd_expMask_sub_one hF), Nat.sub_add_cancel hpos]

/-- The closest magnitude is nearest also among the values of the other sign, as
zero lies between. -/
theorem Closest.rounds (h : F.Closest Set.univ t p) (ht : 0 ≤ t)
    (hx : x = sgn s * (t * F.quantum)) : F.Rounds x (F.zero s + min p F.expMask) := by
  have hq := F.quantum_pos
  have habs : |x| = t * F.quantum := by
    rw [hx, abs_mul, abs_sgn, one_mul, abs_of_nonneg (by positivity)]
  have hlt : min p F.expMask < F.signBit := lt_of_le_of_lt (min_le_right _ _) F.expMask_lt_signBit
  have hm : F.magnitude (F.zero s + min p F.expMask) = min p F.expMask := magnitude_zero_add hlt s
  by_cases hp : p < F.expMask
  case neg =>
    refine .overflow ?_ ?_
    · rw [habs]
      exact not_lt.1 fun h' => hp ((h.lt_expMask_iff hF).2 h')
    · rw [isInfinite_iff, hm, min_eq_right (not_lt.1 hp)]
  case pos =>
    rw [min_eq_left hp.le] at hm hlt ⊢
    have hself : |x - F.value (F.zero s + p)| = |t - F.units p| * F.quantum := by
      rw [abs_sub_value_same hx (negative_zero_add hlt s), hm]
    have hzero := h 0 (Set.mem_univ 0)
    rw [units_zero, Nat.cast_zero, sub_zero, abs_of_nonneg ht] at hzero
    have heven : Even p → Even (F.zero s + p) := by
      intro he
      rwa [← hF.even_magnitude_iff, hm]
    refine .nearest (habs ▸ (h.lt_expMask_iff hF).1 hp) (by rwa [Finite, hm]) ?_ ?_
    · intro c _
      rw [hself]
      by_cases hs : F.negative c = s
      · rw [abs_sub_value_same hx hs]
        exact mul_le_mul_of_nonneg_right (h _ (Set.mem_univ _)).1 hq.le
      · rw [abs_sub_value_other hx ht hs]
        refine mul_le_mul_of_nonneg_right (hzero.1.trans ?_) hq.le
        have : (0 : ℝ) ≤ F.units (F.magnitude c) := Nat.cast_nonneg _
        linarith
    · intro c _ hne htie
      refine heven ?_
      rw [hself] at htie
      by_cases hs : F.negative c = s
      · rw [abs_sub_value_same hx hs] at htie
        refine (h _ (Set.mem_univ _)).2 (mul_right_cancel₀ hq.ne' htie) ?_
        rintro hc
        exact hne (by rw [value_zero_add hlt, value, hs, hc])
      · -- a tie with the other sign is one with zero, which is even
        rw [abs_sub_value_other hx ht hs] at htie
        have htie := mul_right_cancel₀ hq.ne' htie
        have hc : (0 : ℝ) ≤ F.units (F.magnitude c) := Nat.cast_nonneg _
        by_cases hp0 : p = 0
        · exact hp0 ▸ Even.zero
        · exact hzero.2 (by linarith) (Ne.symm hp0)

/-- **Rounding is finding the closest magnitude.** -/
theorem delivers_of_closest (h : F.Closest Set.univ t p) (ht : 0 ≤ t)
    (hx : x = sgn s * (t * F.quantum)) (hz : t = 0 → s = z) :
    F.Delivers (.finite x z) (F.zero s + min p F.expMask) := by
  refine ⟨h.rounds hF ht hx, ?_⟩
  have hq := F.quantum_pos
  rw [negative_zero_add (lt_of_le_of_lt (min_le_right _ _) F.expMask_lt_signBit), hx]
  obtain rfl | hpos := ht.eq_or_lt
  · simp [hz rfl]
  · have : 0 < t * F.quantum := by positivity
    cases s with
    | false => simp [sgn, this.ne', not_lt.2 this.le]
    | true => simp [sgn, this]

end

end Format

end WasmEngine
