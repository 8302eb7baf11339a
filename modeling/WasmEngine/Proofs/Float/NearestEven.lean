import Mathlib.Data.Int.Log
import WasmEngine.Proofs.Float.WordRounding

/-!
# To the nearest, ties to even

What the one rounding makes of a positive number, said of the number and not of
the significand that stands for it (`WasmEngine.Format.RoundsToEven`). The
number is rounded to a whole multiple of a power of two
(`WasmEngine.roundedTo`): that of its last place with as many bits as the format
keeps, but of the smallest subnormal below the normal range. Whether that is too
large is told by the number rounded as if there were no bounds on exponents.
-/

namespace WasmEngine

/-- A number rounded to a whole multiple of a unit, to nearest with ties to even. -/
noncomputable def roundedTo (u y : ℝ) : ℝ := nearestEven (y / u) * u

theorem roundedTo_le {u : ℝ} (hu : 0 < u) (y : ℝ) : roundedTo u y ≤ y + u := by
  have hnear : (nearestEven (y / u) : ℝ) ≤ y / u + 1 := by
    have := Int.floor_le (y / u)
    rw [nearestEven]
    split_ifs <;> push_cast <;> linarith
  calc roundedTo u y ≤ (y / u + 1) * u := mul_le_mul_of_nonneg_right hnear hu.le
    _ = y + u := by field_simp

theorem NearestInt.nearestEven_eq {t : ℝ} {q : Nat} (h : NearestInt t q) : nearestEven t = q := by
  obtain ⟨hlo, hhi⟩ := abs_le.1 h.near
  have heven : |t - q| = 1 / 2 → Even (q : Int) := fun htie => (Int.even_coe_nat q).2 (h.even htie)
  rw [nearestEven]
  by_cases hle : q ≤ t
  · have hfloor : ⌊t⌋ = q := Int.floor_eq_iff.2 ⟨by exact_mod_cast hle, by push_cast; linarith⟩
    rw [abs_of_nonneg (by linarith)] at heven
    rw [hfloor, if_pos]
    push_cast
    obtain hlt | htie := hhi.lt_or_eq
    · exact .inl (by linarith)
    · exact .inr ⟨by linarith, heven htie⟩
  · have hfloor : ⌊t⌋ = q - 1 := Int.floor_eq_iff.2 ⟨by push_cast; linarith, by push_cast; linarith⟩
    rw [abs_of_neg (by linarith)] at heven
    rw [hfloor, if_neg, sub_add_cancel]
    push_cast
    rintro (hlt | ⟨htie, hodd⟩)
    · linarith
    · have := heven (by linarith)
      grind

namespace Format

/-- The last place of a number with as many bits as the format keeps, whatever
its exponent. -/
noncomputable def freePlace (F : Format) (y : ℝ) : Int := Int.log 2 y - F.mantBits

/-- **What a positive number and a sign have to be rounded to.** -/
structure RoundsToEven (F : Format) (s : Bool) (y : ℝ) (r : Nat) : Prop where
  /-- The result is a pattern of the format. -/
  lt : r < 2 * F.signBit
  /-- It has the sign that is asked for, also if it is zero or an infinity. -/
  sign : F.negative r = s
  /-- It is the infinity if the number is too large when rounded with exponents
  of any size, and only then. -/
  infinite : r = F.infinity s ↔ 2 ^ (F.bias + 1) ≤ roundedTo (2 ^ F.freePlace y) y
  /-- Otherwise it has a value. -/
  finite : r ≠ F.infinity s → F.Finite r
  /-- No value is nearer. -/
  nearest : F.Finite r → ∀ c, F.Finite c → |sgn s * y - F.value r| ≤ |sgn s * y - F.value c|
  /-- If another is equally near, the significand is even. -/
  even : F.Finite r → ∀ c, F.Finite c → F.value c ≠ F.value r →
    |sgn s * y - F.value r| = |sgn s * y - F.value c| →
    Even (F.unpack r).sig
  /-- The value is a multiple of the last place, which below the normal range is
  that of the smallest subnormal. -/
  value : F.Finite r → F.value r = sgn s * roundedTo (2 ^ max (F.freePlace y) F.minLsb) y
  /-- A carry out of the significand goes into the exponent. -/
  carry : F.Finite r → nearestEven (y / 2 ^ max (F.freePlace y) F.minLsb) = 2 * F.hiddenBit →
    F.mantissa r = 0 ∧ F.biasedExp r = max (F.freePlace y) F.minLsb + F.mantBits + F.bias + 1

variable {F : Format} {y : ℝ} {a e q : Nat}

/-- The last bit of a pattern is that of its significand. -/
theorem even_sig (hF : F.Regular) (h : Even a) : Even (F.unpack a).sig := by
  have hmant : Even (F.mantissa a) := by
    rwa [mantissa, Nat.even_iff, Nat.mod_mod_of_dvd _ hF.even_hiddenBit.two_dvd, ← Nat.even_iff]
  rw [unpack]
  split
  · exact hmant
  · exact hmant.add hF.even_hiddenBit

/-- Below the normal range nothing is too large. -/
theorem roundedTo_lt (hF : F.Regular) {e : Int} (hy : 0 < y) (hfree : F.freePlace y < F.minLsb)
    (he : e ≤ F.minLsb) : roundedTo (2 ^ e) y < 2 ^ (F.bias + 1) := by
  have hbias := hF.bias_pos
  rw [freePlace, minLsb] at hfree
  rw [minLsb] at he
  have hlt := (Int.lt_zpow_iff_log_lt (x := -F.bias + 1) one_lt_two hy).2 (by omega)
  have hpow : (2 : ℝ) ^ e ≤ 2 ^ (-F.bias + 1 : Int) := zpow_le_zpow_right₀ one_le_two (by omega)
  have hmax : (2 : ℝ) ^ (-F.bias + 1 + 1 : Int) ≤ 2 ^ (F.bias + 1 : Int) :=
    zpow_le_zpow_right₀ one_le_two (by omega)
  rw [Nat.cast_ofNat] at hlt
  rw [zpow_add_one₀ two_ne_zero] at hmax
  have hle := roundedTo_le (u := 2 ^ e) (by positivity) y
  norm_cast at *
  linarith

namespace Places

variable (hy : 0 < y) (h : F.Places (y / F.quantum) e q)
include hy h

/-- The place is that of the number, unless that is too low, and the significand
is the number in units of that place. -/
theorem place_eq : max (F.freePlace y) F.minLsb = F.minLsb + e ∧
    nearestEven (y / 2 ^ (F.minLsb + e)) = q := by
  have hquot : y / F.quantum / 2 ^ e = y / 2 ^ (F.minLsb + e) := by
    rw [div_div, quantum, zpow_add₀ two_ne_zero, zpow_natCast]
  have hhidden : (2 : ℝ) ^ (F.minLsb + e + F.mantBits) = F.hiddenBit * 2 ^ (F.minLsb + e) := by
    rw [zpow_add₀ two_ne_zero, zpow_natCast, hiddenBit_eq, mul_comm]
    push_cast
    rfl
  obtain ⟨hnear, hfull, hfits⟩ := h
  rw [hquot] at hnear hfull hfits
  rw [le_div_iff₀ (by positivity), ← hhidden] at hfull
  rw [div_lt_iff₀ (by positivity), mul_assoc, ← hhidden, ← zpow_one_add₀ two_ne_zero] at hfits
  have hlo : F.minLsb + e + F.mantBits ≤ Int.log 2 y ∨ e = 0 := by
    refine hfull.imp_left fun hle => (Int.zpow_le_iff_le_log one_lt_two hy).1 ?_
    rwa [Nat.cast_ofNat]
  have hhi : Int.log 2 y < 1 + (F.minLsb + e + F.mantBits) := by
    rwa [← Int.lt_zpow_iff_log_lt one_lt_two hy, Nat.cast_ofNat]
  refine ⟨?_, hnear.nearestEven_eq⟩
  rw [freePlace]
  omega

theorem roundsToEven (hF : F.Regular) (s : Bool) : F.RoundsToEven s y (F.zero s + F.pack e q) := by
  have hquantum := F.quantum_pos
  have hlt : F.pack e q < F.signBit := (min_le_right ..).trans_lt F.expMask_lt_signBit
  have hmagnitude : F.magnitude (F.zero s + F.pack e q) = min (e * F.hiddenBit + q) F.expMask :=
    magnitude_zero_add hlt s
  have hfinite : F.Finite (F.zero s + F.pack e q) ↔ e * F.hiddenBit + q < F.expMask := by
    rw [Finite, hmagnitude]
    omega
  have hinfinite : F.zero s + F.pack e q = F.infinity s ↔ F.expMask ≤ e * F.hiddenBit + q := by
    rw [infinity, Nat.add_comm F.expMask, Nat.add_left_cancel_iff, pack, min_eq_right_iff]
  obtain ⟨hplace, hround⟩ := h.place_eq hy
  have hvalue : roundedTo (2 ^ (F.minLsb + e)) y = F.units (e * F.hiddenBit + q) * F.quantum := by
    rw [roundedTo, hround, h.units_eq, quantum, zpow_add₀ two_ne_zero, zpow_natCast]
    push_cast
    ring
  have hoverflow : F.expMask ≤ e * F.hiddenBit + q ↔
      2 ^ (F.bias + 1) ≤ roundedTo (2 ^ (F.minLsb + e)) y := by
    rw [hvalue, ← units_expMask_mul hF, mul_le_mul_iff_left₀ hquantum, Nat.cast_le,
      units_strictMono.le_iff_le]
  have hnearest (hfin : F.Finite (F.zero s + F.pack e q)) := by
    have hdelivers := h.delivers hF (s := s) (x := sgn s * y) (by positivity)
      (by rw [div_mul_cancel₀ _ hquantum.ne']) false
    cases hdelivers.1 with
    | nearest _ _ near even => exact And.intro near even
    | overflow _ hinf => exact absurd hinf hfin.not_infinite
  refine ⟨zero_add_lt hlt, negative_zero_add hlt s, ?_, fun hne => ?_,
    fun hfin => (hnearest hfin).1,
    fun hfin c hc hne htie => even_sig hF ((hnearest hfin).2 c hc hne htie), fun hfin => ?_,
    fun hfin hcarry => ?_⟩
  · rw [hinfinite, hoverflow]
    by_cases hfree : F.minLsb ≤ F.freePlace y
    · rw [← hplace, max_eq_left hfree]
    · -- no exponent is low enough to make a difference
      have hsmall {i : Int} := roundedTo_lt hF (e := i) hy (not_le.1 hfree)
      exact iff_of_false (not_le.2 (hsmall (by omega))) (not_le.2 (hsmall (not_le.1 hfree).le))
  · exact hfinite.2 (not_le.1 (hinfinite.not.1 hne))
  · rw [hplace, hvalue, value_zero_add hlt, pack, min_eq_left (hfinite.1 hfin).le]
  · rw [hplace, hround] at hcarry
    have hbias := hF.bias_pos
    have hq : e * F.hiddenBit + q = (e + 2) * F.hiddenBit := by
      have : q = 2 * F.hiddenBit := by exact_mod_cast hcarry
      rw [this]
      ring
    rw [mantissa_eq, biasedExp_eq, hmagnitude, min_eq_left (hfinite.1 hfin).le, hq,
      Nat.mul_mod_left, Nat.mul_div_cancel _ F.hiddenBit_pos, hplace, minLsb]
    exact ⟨rfl, by omega⟩

end Places

end Format

/-- **The one rounding is to the nearest, with ties to even**, of the number
that significand and sticky flag stand for. -/
theorem FloatPolicy.soft_rounds_to_even (w : Width) (s sticky : Bool) (sig : U128) (exp : Int)
    (v : ℝ) (hsig : sig ≠ 0) (hle : sig.toNat ≤ v) (hlt : v < sig.toNat + 1)
    (hsticky : sticky = false ↔ v = sig.toNat)
    (hbits : sticky → 2 ^ (w.format.mantBits + 2) ≤ sig.toNat ∧ sig.toNat < 2 ^ 127) :
    w.format.RoundsToEven s (v * 2 ^ exp) (w.format.roundPack s sig.toNat exp sticky) ∧
      ∀ e : I32, e.toInt = exp → |exp| ≤ 2 ^ 18 →
        Word.Yields (OnWords.roundPack w.format s sig e sticky)
          (·.toNat = w.format.roundPack s sig.toNat exp sticky) := by
  have hne : sig.toNat ≠ 0 := (Word.eq_zero_iff rfl).not.1 hsig
  have hv : 0 < v := lt_of_lt_of_le (Nat.cast_pos.2 (Nat.pos_of_ne_zero hne)) hle
  refine ⟨?_, fun e he hexp => ?_⟩
  · obtain ⟨e, q, hplaces, hr⟩ := Format.roundPack_sticky_places w.regular hle hlt hsticky hne
      (fun h => (Nat.pow_le_pow_right two_pos (Nat.le_succ _)).trans (hbits h).1) s exp
    rw [hr]
    exact hplaces.roundsToEven (by positivity) w.regular s
  · obtain ⟨hlo, hhi⟩ := abs_le.1 hexp
    exact OnWords.roundPack_yields rfl he hlo hhi s sticky fun h => (hbits h).2

/-- What the flag stands for moves a significand halfway between two values past
the tie. -/
theorem FloatPolicy.soft_rounds_past_tie :
    Format.f32.RoundsToEven true (33554434.5 * 2 ^ (0 : Int)) 0xcc000001 ∧
      Word.Yields (OnWords.roundPack Format.f32 true 33554434 0 true) (·.toNat = 0xcc000001) := by
  have hsig : ((33554434 : U128).toNat : ℝ) = 33554434 := by simp
  have h := FloatPolicy.soft_rounds_to_even .w32 true true 33554434 0 33554434.5 (by decide)
    (by rw [hsig]; norm_num)
    (by rw [hsig]; norm_num) (by rw [hsig]; norm_num) (by decide)
  exact ⟨h.1, h.2 0 rfl (by decide)⟩

end WasmEngine
