import WasmEngine.Proofs.Float.Closest

/-!
# Rounding is correct

`WasmEngine.Format.roundPack` delivers the number it is given
(`WasmEngine.Format.roundPack_delivers`). The number need not be an integral
significand at its exponent. Where operations compute with a few extra bits, the
significand **stands for** a number in its last place (`WasmEngine.StandsFor`):
it is that number, or it is odd and the number is less than one away. An odd
significand is on the same side of every even one as what it stands for; if two
bits or more are dropped, the halfway points are even, and the rounding cannot
tell the difference.
-/

namespace WasmEngine

/-- The integer nearest to a number, if it is not negative; of two the even one. -/
structure NearestInt (t : ℝ) (q : Nat) : Prop where
  /-- It is at most a half away. -/
  near : |t - q| ≤ 1 / 2
  /-- If it is a half away, it is even. -/
  even : |t - q| = 1 / 2 → Even q

theorem NearestInt.natCast (q : Nat) : NearestInt q q :=
  ⟨by norm_num, by norm_num⟩

/-- What a significand stands for, up to what lies below its last place. -/
def StandsFor (sig : Nat) (v : ℝ) : Prop := v = sig ∨ (Odd sig ∧ |v - sig| < 1)

namespace StandsFor

variable {sig m n : Nat} {v : ℝ}

theorem lt_of_lt (h : StandsFor sig v) (hlt : sig < m) : v < m := by
  have hcast : (sig : ℝ) + 1 ≤ m := by exact_mod_cast hlt
  obtain rfl | ⟨-, hv⟩ := h
  · linarith
  · linarith [(abs_lt.1 hv).2]

theorem lt_of_gt (h : StandsFor sig v) (hlt : m < sig) : m < v := by
  have hcast : (m : ℝ) + 1 ≤ sig := by exact_mod_cast hlt
  obtain rfl | ⟨-, hv⟩ := h
  · linarith
  · linarith [(abs_lt.1 hv).1]

/-- An even significand stands for itself only. -/
theorem eq_of_even (h : StandsFor sig v) (heven : Even sig) : v = sig := by
  obtain hv | ⟨hodd, -⟩ := h
  · exact hv
  · exact absurd heven (Nat.not_even_iff_odd.2 hodd)

/-- Even numbers do not separate a significand from what it stands for. -/
theorem le_of_le (h : StandsFor sig v) (hm : Even m) (hle : m ≤ sig) : m ≤ v := by
  obtain rfl | hlt := hle.eq_or_lt
  · exact (h.eq_of_even hm).ge
  · exact (h.lt_of_gt hlt).le

theorem even_add (h : StandsFor sig v) (hm : Even m) : StandsFor (m + sig) (m + v) := by
  obtain rfl | ⟨hodd, hv⟩ := h
  · exact .inl (by push_cast; rfl)
  · refine .inr ⟨hm.add_odd hodd, ?_⟩
    push_cast
    rwa [add_sub_add_left_eq_sub]

theorem even_sub (h : StandsFor sig v) (hm : Even m) (hle : sig ≤ m) :
    StandsFor (m - sig) (m - v) := by
  obtain rfl | ⟨hodd, hv⟩ := h
  · exact .inl (by rw [Nat.cast_sub hle])
  · refine .inr ⟨Nat.Even.sub_odd hle hm hodd, ?_⟩
    rwa [Nat.cast_sub hle, sub_sub_sub_cancel_left, abs_sub_comm]

end StandsFor

/-- To be nearest, with the denominator cleared. -/
theorem NearestInt.div {v d : ℝ} {q : Nat} (hd : 0 < d) (hnear : |v - d * q| ≤ d / 2)
    (heven : |v - d * q| = d / 2 → Even q) : NearestInt (v / d) q := by
  have habs : |v / d - q| = |v - d * q| / d := by
    rw [← abs_of_pos hd, ← abs_div, abs_of_pos hd]
    congr 1
    field_simp
  constructor
  · rw [habs, div_le_iff₀ hd]
    linarith
  · rw [habs, div_eq_iff hd.ne']
    intro h
    exact heven (by linarith)

/-- **A right shift rounds correctly** what the significand stands for, if it
drops two bits or the significand is exact. -/
theorem nearestInt_shiftRightRound {sig n : Nat} {v : ℝ} (h : StandsFor sig v) (hn : 0 < n)
    (hexact : 2 ≤ n ∨ v = sig) : NearestInt (v / 2 ^ n) (shiftRightRound sig n) := by
  obtain ⟨j, rfl⟩ : ∃ j, n = j + 1 := ⟨n - 1, by omega⟩
  have hdiv := Nat.div_add_mod sig (2 ^ (j + 1))
  have hmod := Nat.mod_lt sig (Nat.two_pow_pos (j + 1))
  simp only [shiftRightRound, Nat.shiftRight_eq_div_pow, Nat.one_shiftLeft, Nat.add_sub_cancel]
  generalize sig / 2 ^ (j + 1) = k at hdiv
  generalize sig % 2 ^ (j + 1) = rem at hdiv hmod
  have hpow : 2 ^ (j + 1) = 2 * 2 ^ j := pow_succ' 2 j
  have hpowR : (2 : ℝ) ^ (j + 1) = 2 * 2 ^ j := pow_succ' 2 j
  have hpos : (0 : ℝ) < 2 ^ j := by positivity
  -- the number against the multiples on both sides and the point in the middle
  have hlow : 2 ^ (j + 1) * (k : ℝ) ≤ v := by
    have heven : Even (2 ^ (j + 1) * k) := by
      rw [hpow, Nat.mul_assoc]
      exact even_two_mul _
    exact_mod_cast h.le_of_le heven (by omega)
  have hhigh : v < 2 ^ (j + 1) * ((k : ℝ) + 1) := by
    have hlt : sig < 2 ^ (j + 1) * (k + 1) := by
      rw [Nat.mul_add, Nat.mul_one]
      omega
    exact_mod_cast h.lt_of_lt hlt
  have hmidCast : ((2 ^ (j + 1) * k + 2 ^ j : Nat) : ℝ) =
    2 ^ (j + 1) * k + 2 ^ j := by push_cast; rfl
  have hbelow : rem < 2 ^ j → v < 2 ^ (j + 1) * k + 2 ^ j := by
    intro hlt
    rw [← hmidCast]
    exact h.lt_of_lt (by omega)
  have habove : 2 ^ j < rem → 2 ^ (j + 1) * k + 2 ^ j < v := by
    intro hlt
    rw [← hmidCast]
    exact h.lt_of_gt (by omega)
  have hmiddle : rem = 2 ^ j → v = 2 ^ (j + 1) * k + 2 ^ j := by
    intro heq
    have hv : v = sig := by
      refine hexact.elim (fun hj => h.eq_of_even ?_) id
      obtain ⟨i, rfl⟩ : ∃ i, j = i + 1 := ⟨j - 1, by omega⟩
      exact ⟨2 ^ (i + 1) * k + 2 ^ i, by rw [← hdiv, heq]; ring⟩
    rw [hv, ← hdiv, heq, hmidCast]
  have hD : 2 ^ (j + 1) * ((k : ℝ) + 1) = 2 ^ (j + 1) * k + 2 * 2 ^ j := by rw [hpowR]; ring
  split_ifs with haway
  · have habs : |v - 2 ^ (j + 1) * (k + 1 : Nat)| = 2 ^ (j + 1) * k + 2 * 2 ^ j - v := by
      rw [Nat.cast_add, Nat.cast_one, hD, abs_sub_comm, abs_of_nonneg (by linarith)]
    refine NearestInt.div (by positivity) ?_ ?_
    · rw [habs]
      rcases haway with hgt | ⟨heq, -⟩
      · linarith [habove hgt]
      · linarith [hmiddle heq]
    · rw [habs]
      intro htie
      rcases haway with hgt | ⟨-, hodd⟩
      · linarith [habove hgt]
      · rw [Nat.even_iff]
        omega
  · have habs : |v - 2 ^ (j + 1) * k| = v - 2 ^ (j + 1) * k := abs_of_nonneg (by linarith)
    rw [not_or, not_and] at haway
    obtain hlt | heq : rem < 2 ^ j ∨ rem = 2 ^ j := by omega
    · have := hbelow hlt
      exact NearestInt.div (by positivity) (by linarith) (fun htie => by linarith)
    · have := hmiddle heq
      refine NearestInt.div (by positivity) (by linarith) fun _ => ?_
      have := haway.2 heq
      rw [Nat.even_iff]
      omega

theorem nearestInt_scaleRound {sig : Nat} {v : ℝ} {shift : Int} (h : StandsFor sig v)
    (hexact : 2 ≤ shift ∨ v = sig) : NearestInt (v / 2 ^ shift) (scaleRound sig shift) := by
  rw [scaleRound]
  split
  case isTrue hle =>
    have hv : v = sig := hexact.resolve_left (by omega)
    obtain ⟨n, rfl⟩ : ∃ n : Nat, shift = -n := ⟨(-shift).toNat, by omega⟩
    have hquot : v / 2 ^ (-n : Int) = (sig <<< n : Nat) := by
      rw [hv, zpow_neg, div_inv_eq_mul, zpow_natCast, Nat.shiftLeft_eq]
      push_cast
      rfl
    rw [neg_neg, Int.toNat_natCast, hquot]
    exact .natCast _
  case isFalse hlt =>
    obtain ⟨n, rfl⟩ : ∃ n : Nat, shift = n := ⟨shift.toNat, by omega⟩
    rw [zpow_natCast, Int.toNat_natCast]
    exact nearestInt_shiftRightRound h (by omega) (hexact.imp_left (by omega))

namespace Format

variable {F : Format}

/-- The gap above a magnitude. -/
theorem units_pack_lt {e q c : Nat} (hq : q ≤ 2 * F.hiddenBit) (he : F.hiddenBit ≤ q ∨ e = 0)
    (hc : e * F.hiddenBit + q < c) : (q + 1) * 2 ^ e ≤ F.units c := by
  refine le_trans ?_ (units_strictMono.monotone hc)
  have hpos := F.hiddenBit_pos
  obtain hlt | rfl := hq.lt_or_eq
  · exact (units_pack hlt (by omega)).ge
  · -- a carry has been made, and the next gap is twice as large
    have hsucc : e * F.hiddenBit + 2 * F.hiddenBit + 1 =
      (e + 1) * F.hiddenBit + (F.hiddenBit + 1) := by ring
    rw [Nat.succ_eq_add_one, hsucc, units_pack (by omega) (by omega), pow_succ', ← Nat.mul_assoc]
    exact Nat.mul_le_mul_right _ (by omega)

/-- The gap below a magnitude, unless its significand is the least of its place. -/
theorem units_lt_pack {e q c : Nat} (hq : q ≤ 2 * F.hiddenBit) (he : F.hiddenBit < q ∨ e = 0)
    (hc : c < e * F.hiddenBit + q) : F.units c + 2 ^ e ≤ q * 2 ^ e := by
  obtain rfl | hpos : q = 0 ∨ 0 < q := Nat.eq_zero_or_pos q
  · obtain rfl : e = 0 := by omega
    omega
  · have hpred : F.units c ≤ F.units (e * F.hiddenBit + (q - 1)) :=
      units_strictMono.monotone (by omega)
    rw [units_pack (by omega) (by omega)] at hpred
    calc F.units c + 2 ^ e ≤ (q - 1) * 2 ^ e + 1 * 2 ^ e := by omega
      _ = q * 2 ^ e := by rw [← Nat.add_mul, Nat.sub_add_cancel hpos]

/-- **A significand at its place**: `q` units of `2 ^ e` quanta each, for `t`
quanta. -/
structure Places (F : Format) (t : ℝ) (e q : Nat) : Prop where
  /-- No other significand is nearer. -/
  nearest : NearestInt (t / 2 ^ e) q
  /-- All bits that the format keeps are in use, unless there is no lower place. -/
  full : F.hiddenBit ≤ t / 2 ^ e ∨ e = 0
  /-- There are no more bits than that. -/
  fits : t / 2 ^ e < 2 * F.hiddenBit

namespace Places

variable {t x : ℝ} {e q : Nat} (h : F.Places t e q)
include h

theorem hiddenBit_le : F.hiddenBit ≤ q ∨ e = 0 := by
  refine h.full.imp_left fun hlo => ?_
  have : (F.hiddenBit : ℝ) < q + 1 := by linarith [(abs_le.1 h.nearest.near).2]
  exact Nat.lt_succ_iff.1 (by exact_mod_cast this)

/-- Rounding may make a carry, and then leaves no other bit. -/
theorem le_two_mul : q ≤ 2 * F.hiddenBit := by
  have : (q : ℝ) < 2 * F.hiddenBit + 1 := by linarith [(abs_le.1 h.nearest.near).1, h.fits]
  exact Nat.lt_succ_iff.1 (by exact_mod_cast this)

theorem units_eq : F.units (e * F.hiddenBit + q) = q * 2 ^ e :=
  units_pack h.le_two_mul h.hiddenBit_le

variable (hF : F.Regular)
include hF

/-- **The nearest significand gives the closest magnitude**. Below the least
significand of the place the gaps are smaller, but then the number is not below
it. -/
theorem closest : F.Closest Set.univ t (e * F.hiddenBit + q) := by
  have hpow : (0 : ℝ) < 2 ^ e := by positivity
  have hqhi := h.le_two_mul
  have hqlo := h.hiddenBit_le
  have hunits := h.units_eq
  obtain ⟨u, rfl⟩ : ∃ u, t = u * 2 ^ e := ⟨t / 2 ^ e, by field_simp⟩
  obtain ⟨hq, hlo, -⟩ := h
  rw [mul_div_cancel_right₀ _ hpow.ne'] at hq hlo
  obtain ⟨hq₁, hq₂⟩ := abs_le.1 hq.near
  have hself : |u * 2 ^ e - F.units (e * F.hiddenBit + q)| = |u - q| * 2 ^ e := by
    rw [hunits]
    push_cast
    rw [← sub_mul, abs_mul, abs_of_pos hpow]
  have heven : |u - q| = 1 / 2 → Even (e * F.hiddenBit + q) := fun h =>
    (hF.even_hiddenBit.mul_left e).add (hq.even h)
  -- it suffices that the other magnitude is half a gap away
  have hfar {c : Nat} (h : 2 ^ e / 2 ≤ |u * 2 ^ e - F.units c|) :
      |u - q| * 2 ^ e ≤ |u * 2 ^ e - F.units c| ∧
        (|u - q| * 2 ^ e = |u * 2 ^ e - F.units c| → Even (e * F.hiddenBit + q)) := by
    have hle : |u - q| * 2 ^ e ≤ 1 / 2 * 2 ^ e := mul_le_mul_of_nonneg_right hq.near hpow.le
    refine ⟨by linarith, fun htie => heven ?_⟩
    exact mul_right_cancel₀ hpow.ne' (by linarith : |u - q| * 2 ^ e = 1 / 2 * 2 ^ e)
  intro c _
  rw [hself]
  obtain hc | rfl | hc := Nat.lt_trichotomy c (e * F.hiddenBit + q)
  · by_cases hleast : F.hiddenBit < q ∨ e = 0
    · have hgap : (F.units c : ℝ) + 2 ^ e ≤
        q * 2 ^ e := by exact_mod_cast units_lt_pack hqhi hleast hc
      obtain ⟨hle, htie⟩ := hfar (c := c) (by
        rw [abs_of_nonneg] <;> nlinarith)
      exact ⟨hle, fun h _ => htie h⟩
    · -- the number is at least the least significand of its place
      have hu : (q : ℝ) ≤ u := by
        have : q = F.hiddenBit := by omega
        exact this ▸ hlo.resolve_right (by omega)
      have hlt : (F.units c : ℝ) < q * 2 ^ e := by
        have := units_strictMono (F := F) hc
        rw [hunits] at this
        exact_mod_cast this
      have hmul : (q : ℝ) * 2 ^ e ≤ u * 2 ^ e := mul_le_mul_of_nonneg_right hu hpow.le
      rw [abs_of_nonneg (sub_nonneg.2 hu), abs_of_nonneg (by linarith), sub_mul]
      exact ⟨by linarith, fun h => by linarith⟩
  · rw [hself]
    exact ⟨le_rfl, fun _ h => absurd rfl h⟩
  · have hgap : ((q : ℝ) + 1) * 2 ^ e ≤ F.units c := by exact_mod_cast units_pack_lt hqhi hqlo hc
    obtain ⟨hle, htie⟩ := hfar (c := c) (by
      rw [abs_sub_comm, abs_of_nonneg] <;> nlinarith)
    exact ⟨hle, fun h _ => htie h⟩

theorem delivers {s : Bool} (ht : 0 < t) (hx : x = sgn s * (t * F.quantum)) (z : Bool) :
    F.Delivers (.finite x z) (F.zero s + F.pack e q) :=
  delivers_of_closest hF (h.closest hF) ht.le hx fun h0 => absurd h0 ht.ne'

end Places

variable (hF : F.Regular)
include hF

/-- **Rounding finds the place and the significand** of the number that it is
given, if the significand that stands for it is exact or has two bits more than
the format keeps. -/
theorem roundPack_places {sig : Nat} {v : ℝ} (h : StandsFor sig v) (hsig : sig ≠ 0)
    (hexact : v = sig ∨ 2 ^ (F.mantBits + 2) ≤ sig) (s : Bool) (exp : Int) :
    ∃ e q, F.Places (v * 2 ^ exp / F.quantum) e q ∧
    F.roundPack s sig exp false = F.zero s + F.pack e q := by
  have hlog₁ : 2 ^ sig.log2 ≤ sig := Nat.log2_self_le hsig
  have hlog₂ : sig < 2 ^ (sig.log2 + 1) := Nat.lt_log2_self
  rw [roundPack_eq hF s hsig]
  refine ⟨_, _, ?_, rfl⟩
  have hplace : F.lastPlace sig exp = max (exp + sig.log2 - F.mantBits) F.minLsb := rfl
  generalize F.lastPlace sig exp = lsb at hplace
  obtain ⟨e, he⟩ : ∃ e : Nat, lsb = F.minLsb + e := ⟨(lsb - F.minLsb).toNat, by omega⟩
  have htoNat : (lsb - F.minLsb).toNat = e := by omega
  have ht : v * 2 ^ exp / F.quantum / 2 ^ e = v / 2 ^ (lsb - exp) := by
    rw [he, quantum, zpow_sub₀ two_ne_zero, zpow_add₀ two_ne_zero, zpow_natCast]
    field_simp
  rw [htoNat]
  refine ⟨?_, ?_, ?_⟩ <;> rw [ht]
  · refine nearestInt_scaleRound h (hexact.symm.imp_left fun hbits => ?_)
    have : F.mantBits + 2 ≤ sig.log2 := (Nat.le_log2 hsig).2 hbits
    omega
  · by_cases hmin : lsb = F.minLsb
    · exact .inr (by omega)
    · -- all bits of the significand are in use
      have hshift : lsb - exp = sig.log2 - F.mantBits := by omega
      have hle : ((2 ^ sig.log2 : Nat) : ℝ) ≤ v := by
        obtain rfl | hbits := hexact
        · exact_mod_cast hlog₁
        · have hlarge : F.mantBits + 2 ≤ sig.log2 := (Nat.le_log2 hsig).2 hbits
          exact h.le_of_le ((Nat.even_pow.2 ⟨even_two, by omega⟩)) hlog₁
      refine .inl ?_
      rw [hshift, le_div_iff₀ (by positivity), hiddenBit_eq, Nat.cast_pow, Nat.cast_two,
        ← zpow_natCast, ← zpow_add₀ two_ne_zero, add_sub_cancel, zpow_natCast]
      exact_mod_cast hle
  · have hlt : v < ((2 ^ (sig.log2 + 1) : Nat) : ℝ) := h.lt_of_lt hlog₂
    rw [div_lt_iff₀ (by positivity)]
    calc v < ((2 ^ (sig.log2 + 1) : Nat) : ℝ) := hlt
      _ = 2 ^ (sig.log2 + 1 : Int) := by push_cast; norm_cast
      _ ≤ 2 ^ (1 + F.mantBits + (lsb - exp) : Int) := zpow_le_zpow_right₀ one_le_two (by omega)
      _ = 2 * F.hiddenBit * 2 ^ (lsb - exp) := by
        rw [hiddenBit_eq, zpow_add₀ two_ne_zero, zpow_add₀ two_ne_zero, zpow_one, zpow_natCast]
        push_cast
        rfl

/-- **Rounding delivers the number that the significand stands for.** -/
theorem roundPack_delivers {sig : Nat} {v x : ℝ} {exp : Int} {s : Bool}
    (h : StandsFor sig v) (hsig : sig ≠ 0) (hexact : v = sig ∨ 2 ^ (F.mantBits + 2) ≤ sig)
    (hx : x = sgn s * (v * 2 ^ exp)) (z : Bool) :
    F.Delivers (.finite x z) (F.roundPack s sig exp false) := by
  have hv : 0 < v := by
    have := h.lt_of_gt (Nat.pos_of_ne_zero hsig)
    exact_mod_cast this
  have hq := F.quantum_pos
  obtain ⟨e, q, hplaces, hr⟩ := roundPack_places hF h hsig hexact s exp
  rw [hr]
  exact hplaces.delivers hF (by positivity) (by rw [hx, div_mul_cancel₀ _ hq.ne']) z

end Format

end WasmEngine
