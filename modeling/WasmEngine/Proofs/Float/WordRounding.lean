import WasmEngine.Proofs.Float.IntoFloats
import WasmEngine.Proofs.Float.OnWords

/-!
# Rounding on words

What the parts of a pattern come to on words, and the one rounding. The
constants of both formats are computed without a breach, and so are the tests
for special patterns. A finite value has a significand below `2 ^ 53` and an
exponent of the size of a thousand or two (`WasmEngine.OnWords.Parts.Bounded`);
that leaves all the room in 128 and 32 bits that the operations on it need.

Rounding is given significands of up to 128 bits, and of up to 127 if a sticky
bit is to be appended (`WasmEngine.OnWords.roundPack_yields`). A shift to the
left brings a short significand up to the bits that the format keeps, and no
further. A shift to the right may be by more than 128 places; it is made only up
to 127, and beyond that the result is known.
-/

namespace WasmEngine

namespace OnWords

open Word

variable {w : Width} {a b : U64}

/-! ### The constants of a format -/

theorem toNat_mantBits (w : Width) : (mantBits w.format).toNat = w.format.mantBits := by
  cases w <;> rfl

theorem mantBits_le (w : Width) : w.format.mantBits ≤ 52 := by
  cases w <;> decide

theorem bias_le (w : Width) : w.format.bias ≤ 1023 := by
  cases w <;> decide

theorem hiddenBit_le (w : Width) : w.format.hiddenBit ≤ 2 ^ 52 := by
  cases w <;> decide

theorem signBit_le (w : Width) : w.format.signBit ≤ 2 ^ 63 := by
  cases w <;> decide

theorem minLsb_ge (w : Width) : -1074 ≤ w.format.minLsb := by
  cases w <;> decide

theorem minLsb_le (w : Width) : w.format.minLsb ≤ 0 := by
  cases w <;> decide

/-! Each of these is computed, for either format. -/

theorem bias_yields (w : Width) : Yields (bias w.format) (·.toInt = w.format.bias) := by
  cases w <;> exact ⟨_, rfl, rfl⟩

theorem maxExp_yields (w : Width) : Yields (maxExp w.format) (·.toNat = w.format.maxExp) := by
  cases w <;> exact ⟨_, rfl, rfl⟩

theorem signBit_yields (w : Width) : Yields (signBit w.format) (·.toNat = w.format.signBit) := by
  cases w <;> exact ⟨_, rfl, rfl⟩

theorem hiddenBit_yields (w : Width) :
    Yields (hiddenBit w.format) (·.toNat = w.format.hiddenBit) := by
  cases w <;> exact ⟨_, rfl, rfl⟩

theorem mantMask_yields (w : Width) :
    Yields (mantMask w.format) (·.toNat = w.format.hiddenBit - 1) := by
  cases w <;> exact ⟨_, rfl, rfl⟩

theorem expMask_yields (w : Width) : Yields (expMask w.format) (·.toNat = w.format.expMask) := by
  cases w <;> exact ⟨_, rfl, rfl⟩

theorem quietBit_yields (w : Width) : Yields (quietBit w.format) (·.toNat = w.format.quietBit) := by
  cases w <;> exact ⟨_, rfl, rfl⟩

theorem canonicalNan_yields (w : Width) :
    Yields (canonicalNan w.format) (·.toNat = w.format.canonicalNan) := by
  cases w <;> exact ⟨_, rfl, rfl⟩

theorem zero_yields (w : Width) (s : Bool) :
    Yields (zero w.format s) (·.toNat = w.format.zero s) := by
  cases w <;> cases s <;> exact ⟨_, rfl, rfl⟩

theorem infinity_yields (w : Width) (s : Bool) :
    Yields (infinity w.format s) (·.toNat = w.format.infinity s) := by
  cases w <;> cases s <;> exact ⟨_, rfl, rfl⟩

theorem minLsb_yields (w : Width) : Yields (minLsb w.format) (·.toInt = w.format.minLsb) := by
  cases w <;> exact ⟨_, rfl, rfl⟩

theorem toSigned_mantBits_yields (w : Width) :
    Yields (toSigned (mantBits w.format)) (·.toInt = w.format.mantBits) := by
  cases w <;> exact ⟨_, rfl, rfl⟩

/-! ### Parts of a pattern -/

theorem negative_eq (w : Width) (a : U64) :
    negative w.format a = .ok (w.format.negative a.toNat) := by
  refine ((signBit_yields w).bind fun s hs => .pure ?_).eq_ok
  rw [Format.negative, Format.signBit_eq]
  exact and_bit_bne_zero rfl (hs.trans w.format.signBit_eq)

theorem magnitude_yields (ha : a.toNat < 2 * w.format.signBit) :
    Yields (magnitude w.format a) (·.toNat = w.format.magnitude a.toNat) := by
  refine (signBit_yields w).bind fun s hs => .pure ?_
  have hk : 2 ^ (w.format.mantBits + w.format.expBits) ≤ 2 ^ 63 :=
    Format.signBit_eq w.format ▸ signBit_le w
  rw [Format.signBit_eq] at hs
  rw [Format.signBit_eq, ← pow_succ'] at ha
  rw [Format.magnitude, Format.signBit_eq]
  generalize w.format.mantBits + w.format.expBits = k at *
  have hk' : k ≤ 63 := (Nat.pow_le_pow_iff_right one_lt_two).1 hk
  refine Nat.eq_of_testBit_eq fun i => ?_
  rw [BitVec.toNat_and, Nat.testBit_and, Nat.testBit_mod_two_pow, BitVec.testBit_toNat (~~~s),
    BitVec.getLsbD_not, ← BitVec.testBit_toNat s, hs, Nat.testBit_two_pow, Bool.and_comm]
  -- below, at and above the sign bit
  obtain hi | rfl | hi := lt_trichotomy i k
  · simp [hi, hi.ne', show i < 64 by omega]
  · simp
  · rw [Nat.testBit_lt_two_pow (lt_of_lt_of_le ha (Nat.pow_le_pow_right Nat.two_pos hi)),
      Bool.and_false, Bool.and_false]

theorem mantissa_yields (w : Width) (a : U64) :
    Yields (mantissa w.format a) (·.toNat = w.format.mantissa a.toNat) := by
  refine (mantMask_yields w).bind fun m hm => .pure ?_
  rw [Format.mantissa, Format.hiddenBit_eq]
  exact toNat_and_mask rfl (w.format.hiddenBit_eq ▸ hm)

theorem biasedExp_le (w : Width) (a : Nat) : w.format.biasedExp a ≤ 2047 := by
  have : w.format.biasedExp a < w.format.maxExp + 1 := Nat.mod_lt _ (Nat.succ_pos _)
  have := w.regular.maxExp_eq
  have := bias_le w
  omega

theorem biasedExp_yields (w : Width) (a : U64) :
    Yields (biasedExp w.format a) (·.toInt = w.format.biasedExp a.toNat) := by
  have hmant := mantBits_le w
  refine (shiftRight_yields rfl (toNat_mantBits w) (by omega)).bind fun h hh => ?_
  refine (maxExp_yields w).bind fun m hm => ?_
  have hand : (h &&& m).toNat = w.format.biasedExp a.toNat := by
    rw [BitVec.toNat_and, hm, hh, ← Format.hiddenBit_eq, Format.biasedExp, Format.maxExp_add_one,
      ← Nat.and_two_pow_sub_one_eq_mod, ← Format.maxExp_add_one, Nat.add_sub_cancel]
  have := biasedExp_le w a.toNat
  exact toSigned_yields hand (by omega)

section Classes

variable (ha : a.toNat < 2 * w.format.signBit)
include ha

theorem isNan_eq : isNan w.format a = .ok (w.format.isNan a.toNat) := by
  refine ((magnitude_yields ha).bind fun m hm => (expMask_yields w).bind fun e he => .pure ?_).eq_ok
  rw [Format.isNan, ← hm, ← he]
  rfl

theorem isInfinite_eq : isInfinite w.format a = .ok (w.format.isInfinite a.toNat) := by
  refine ((magnitude_yields ha).bind fun m hm => (expMask_yields w).bind fun e he => .pure ?_).eq_ok
  rw [Format.isInfinite, ← hm, ← he, Bool.eq_iff_iff, beq_iff_eq, beq_iff_eq, BitVec.toNat_inj]

theorem isZero_eq : isZero w.format a = .ok (w.format.isZero a.toNat) := by
  refine ((magnitude_yields ha).bind fun m hm => .pure ?_).eq_ok
  rw [Format.isZero, ← hm, Bool.eq_iff_iff, beq_iff_eq, beq_iff_eq, ← BitVec.toNat_inj]
  rfl

end Classes

theorem quiet_yields (w : Width) (a : U64) :
    Yields (quiet w.format a) (·.toNat = w.format.quiet a.toNat) := by
  refine (quietBit_yields w).bind fun q hq => .pure ?_
  rw [BitVec.toNat_or, hq, Format.quiet]

theorem propagate_eq (ha : a.toNat < 2 * w.format.signBit) (hb : b.toNat < 2 * w.format.signBit) :
    propagate w.format a b = .ok ((w.format.propagate a.toNat b.toNat).map (BitVec.ofNat 64)) := by
  rw [propagate, isNan_eq ha, ok_bind, Format.propagate]
  split
  case isTrue h => rw [(quiet_yields w a).eq_ofNat, ok_bind]; rfl
  case isFalse h =>
    rw [isNan_eq hb, ok_bind]
    split
    case isTrue h => rw [(quiet_yields w b).eq_ofNat, ok_bind]; rfl
    case isFalse h => rfl

/-- The value that parts stand for. -/
def Parts.unpacked (v : Parts) : Unpacked := ⟨v.negative, v.sig.toNat, v.exp.toInt⟩

theorem unpack_yields (w : Width) (a : U64) :
    Yields (unpack w.format a) (·.unpacked = w.format.unpack a.toNat) := by
  rw [unpack, negative_eq, ok_bind, Format.unpack]
  refine (biasedExp_yields w a).bind fun e he => (mantissa_yields w a).bind fun m hm =>
    (minLsb_yields w).bind fun l hl => ?_
  have hexp := biasedExp_le w a.toNat
  have hmin := minLsb_ge w
  have hmax := minLsb_le w
  have hlow : w.format.mantissa a.toNat < 2 ^ w.format.mantBits :=
    w.format.hiddenBit_eq ▸ Nat.mod_lt _ w.format.hiddenBit_pos
  have hzero : e = 0 ↔ w.format.biasedExp a.toNat = 0 := by
    rw [eq_iff_toInt (j := 0) he rfl, Int.natCast_eq_zero]
  simp only [hzero]
  refine .ite (fun _ => .pure (by rw [Parts.unpacked, hm, hl])) fun _ => ?_
  refine (hiddenBit_yields w).bind fun k hk => ?_
  refine (join_yields hk hm (dvd_of_eq w.format.hiddenBit_eq.symm) hlow).bind fun sig hsig => ?_
  refine (addSigned_yields he hl (by omega) (by omega)).bind fun d hd => ?_
  refine (subSigned_yields (j := 1) hd rfl (by omega) (by omega)).bind fun exp hexp => .pure ?_
  rw [Parts.unpacked, hsig, hexp, Nat.add_comm]

theorem unpack_exp_bounds (w : Width) (a : Nat) : -1074 ≤ (w.format.unpack a).exp ∧
    (w.format.unpack a).exp ≤ 2047 := by
  have := biasedExp_le w a
  have := minLsb_ge w
  have := minLsb_le w
  rw [Format.unpack]
  split <;> dsimp only <;> omega

theorem unpackNormalized_exp_bounds (w : Width) (a : Nat) :
    -1126 ≤ (w.format.unpackNormalized a).exp ∧ (w.format.unpackNormalized a).exp ≤ 2047 := by
  have := unpack_exp_bounds w a
  have := mantBits_le w
  rw [Format.unpackNormalized]
  dsimp only
  omega

/-- The zeros above a significand are never fewer than the word has to spare. -/
theorem unpackNormalized_yields (hz : ¬w.format.isZero a.toNat) :
    Yields (unpackNormalized w.format a) (·.unpacked = w.format.unpackNormalized a.toNat) := by
  have hne := Format.unpack_sig_ne_zero hz
  have hlt := Format.unpack_sig_lt (F := w.format) a.toNat
  have hexp := unpack_exp_bounds w a.toNat
  obtain ⟨-, -, -, hnorm⟩ := Format.unpackNormalized_spec hz
  have hmant := mantBits_le w
  have hlog : (w.format.unpack a.toNat).sig.log2 ≤ w.format.mantBits := by
    rw [Format.hiddenBit_eq, ← pow_succ'] at hlt
    exact Nat.lt_succ_iff.1 ((Nat.log2_lt hne).2 hlt)
  rw [Format.unpackNormalized] at hnorm ⊢
  dsimp only at hnorm ⊢
  rw [Nat.shiftLeft_eq] at hnorm ⊢
  have hfit :
      (w.format.unpack a.toNat).sig * 2 ^ (w.format.mantBits - (w.format.unpack a.toNat).sig.log2) <
      2 ^ 64 :=
    hnorm.trans_le (Nat.pow_le_pow_right Nat.two_pos (by omega))
  refine (unpack_yields w a).bind fun v hv => ?_
  have hvsig : v.sig.toNat = (w.format.unpack a.toNat).sig := congrArg Unpacked.sig hv
  have hvexp : v.exp.toInt = (w.format.unpack a.toNat).exp := congrArg Unpacked.exp hv
  refine (sub_yields (i := 63) rfl (toNat_mantBits w) (by omega)).bind fun spare hspare => ?_
  refine (sub_yields (toNat_leadingZeros hvsig (by decide) hne) hspare (by omega)).bind
    fun shift hshift => ?_
  rw [show 64 - 1 - (w.format.unpack a.toNat).sig.log2 - (63 - w.format.mantBits) =
    w.format.mantBits - (w.format.unpack a.toNat).sig.log2 by omega] at hshift
  refine (shiftLeft_yields hvsig hshift (by omega) hfit).bind fun sig hsig => ?_
  refine (toSigned_yields hshift (by omega)).bind fun d hd => ?_
  refine (subSigned_yields hvexp hd (by omega) (by omega)).bind fun exp hexp => .pure ?_
  rw [Parts.unpacked, hsig, hexp, ← hv, Parts.unpacked]

/-- The parts of finite values lie within these bounds, normalized or not. -/
structure Parts.Bounded (v : Parts) : Prop where
  sig_lt : v.sig.toNat < 2 ^ 53
  exp_ge : -1126 ≤ v.exp.toInt
  exp_le : v.exp.toInt ≤ 2047

theorem Parts.bounded_of_unpack {v : Parts} {a : Nat}
    (hv : v.unpacked = w.format.unpack a) : v.Bounded := by
  have hsig := Format.unpack_sig_lt (F := w.format) a
  have hexp := unpack_exp_bounds w a
  have := hiddenBit_le w
  rw [← hv] at hsig hexp
  exact ⟨hsig.trans_le (by omega), le_trans (by decide) hexp.1, hexp.2⟩

theorem Parts.bounded_of_unpackNormalized {v : Parts} {a : Nat} (hz : ¬w.format.isZero a)
    (hv : v.unpacked = w.format.unpackNormalized a) : v.Bounded := by
  have hsig := (Format.unpackNormalized_spec hz).2.2.2
  have hexp := unpackNormalized_exp_bounds w a
  have := mantBits_le w
  rw [← hv] at hsig hexp
  exact ⟨hsig.trans_le (Nat.pow_le_pow_right Nat.two_pos (by omega)), hexp.1, hexp.2⟩

/-! ### Rounding -/

/-- What is far below the last place is rounded to zero. -/
theorem shiftRightRound_eq_zero {v n : Nat} (h : v < 2 ^ (n - 1)) : shiftRightRound v n = 0 := by
  have hlt : v < 2 ^ n := h.trans_le (Nat.pow_le_pow_right Nat.two_pos (Nat.sub_le ..))
  simp only [shiftRightRound, Nat.one_shiftLeft, Nat.shiftRight_eq_div_pow, Nat.div_eq_of_lt hlt,
    Nat.mod_eq_of_lt hlt]
  rw [if_neg (by omega)]

section Scale

variable {sig : U128} {shift : I32} {i : Nat} {e : Int} (hsig : sig.toNat = i)
  (hshift : shift.toInt = e)
include hsig hshift

theorem splitAt_yields (hpos : 0 < e) (hle : e ≤ 128) :
    Yields (splitAt sig shift) fun r => r.1.toNat = i / 2 ^ e.toNat ∧
    r.2.toNat = i % 2 ^ e.toNat := by
  have hn : shift.toNat = e.toNat := toNat_eq_toNat hshift hpos.le
  have hwhole : shift = 128 ↔ e = 128 := eq_iff_toInt hshift rfl
  have hlt : i < 2 ^ 128 := hsig ▸ sig.isLt
  rw [splitAt]
  split
  case isTrue h =>
    -- nothing of the significand is above
    have h128 : e.toNat = 128 := by
      have := hwhole.1 h
      omega
    rw [h128, Nat.div_eq_of_lt hlt, Nat.mod_eq_of_lt hlt]
    exact .ok ⟨rfl, hsig⟩
  case isFalse h =>
    rw [hwhole] at h
    refine (shiftRight_yields hsig hn (by omega)).bind fun q hq => ?_
    refine (two_pow_yields hn (by omega)).bind fun unit hunit => ?_
    refine (sub_yields (j := 1) hunit rfl Nat.one_le_two_pow).bind fun mask hmask => ?_
    exact .pure ⟨hq, toNat_and_mask hsig hmask⟩

/-- Scaling to the last place, whichever side of the significand that is on. -/
theorem scale_yields (hi : i ≠ 0) (hfit : e ≤ 0 → i * 2 ^ (-e).toNat < 2 ^ 128) :
    Yields (scale sig shift) (·.toNat = scaleRound i e) := by
  have hlt : i < 2 ^ 128 := hsig ▸ sig.isLt
  rw [scale, scaleRound]
  by_cases hle : e ≤ 0
  · -- a shift to the left, which drops nothing
    rw [if_pos ((sle_iff (j := 0) hshift rfl).2 hle), if_pos hle, Nat.shiftLeft_eq]
    have hdist : (-e).toNat < 128 := by
      rw [← Nat.pow_lt_pow_iff_right one_lt_two]
      exact (Nat.le_mul_of_pos_left _ (Nat.pos_of_ne_zero hi)).trans_lt (hfit hle)
    refine (negSigned_yields hshift (by omega)).bind fun d hd => ?_
    exact shiftLeft_yields hsig (toNat_eq_toNat hd (by omega)) hdist (hfit hle)
  rw [if_neg ((sle_iff (j := 0) hshift rfl).not.2 hle), if_neg hle]
  by_cases hfar : 128 < e
  · -- the significand is less than half a unit
    rw [if_pos ((slt_iff (i := 128) rfl hshift).2 hfar), shiftRightRound_eq_zero]
    · exact .ok rfl
    · exact hlt.trans_le (Nat.pow_le_pow_right Nat.two_pos (by omega))
  rw [if_neg ((slt_iff (i := 128) rfl hshift).not.2 hfar)]
  refine (splitAt_yields hsig hshift (by omega) (by omega)).bind fun r hr => ?_
  refine (subSigned_yields (j := 1) hshift rfl (by omega) (by omega)).bind fun place hplace => ?_
  refine (two_pow_yields (toNat_eq_toNat hplace (by omega)) (by omega)).bind fun half hhalf => ?_
  rw [show (e - 1).toNat = e.toNat - 1 by omega] at hhalf
  have hcond : (half < r.2 ∨ (r.2 = half ∧ r.1 &&& 1 = 1)) ↔
      2 ^ (e.toNat - 1) < i % 2 ^ e.toNat ∨
      (i % 2 ^ e.toNat = 2 ^ (e.toNat - 1) ∧ i / 2 ^ e.toNat % 2 = 1) := by
    rw [BitVec.lt_def, ← BitVec.toNat_inj, ← BitVec.toNat_inj, BitVec.toNat_and, hhalf, hr.1, hr.2,
      show (1 : U128).toNat = 1 from rfl, Nat.and_one_is_mod]
  simp only [shiftRightRound, Nat.one_shiftLeft, Nat.shiftRight_eq_div_pow, hcond]
  split
  case isTrue h =>
    -- a place above the significand's own leaves room for one more
    have : i / 2 ^ e.toNat < 2 ^ 127 := by
      refine Nat.div_lt_of_lt_mul (hlt.trans_le ?_)
      rw [← pow_add]
      exact Nat.pow_le_pow_right Nat.two_pos (by omega)
    exact add_yields (j := 1) hr.1 rfl (by omega)
  case isFalse h => exact .ok hr.1

end Scale

theorem signBit_dvd_zero (w : Width) (s : Bool) : 2 ^ (w.format.mantBits + w.format.expBits) ∣
    w.format.zero s := by
  rw [← Format.signBit_eq]
  cases s
  · exact dvd_zero _
  · exact dvd_rfl

theorem hiddenBit_dvd_zero (w : Width) (s : Bool) : 2 ^ w.format.mantBits ∣ w.format.zero s :=
  (Nat.pow_dvd_pow 2 (Nat.le_add_right ..)).trans (signBit_dvd_zero w s)

/-- Sign, exponent and significand lie side by side. -/
theorem joined_yields {sign field mant : U64} {s : Bool} {e m : Nat}
    (hsign : sign.toNat = w.format.zero s) (hfield : field.toNat = e * 2 ^ w.format.mantBits)
    (hmant : mant.toNat = m) (he : e < w.format.maxExp) (hm : m < 2 ^ w.format.mantBits) :
    Yields (do let high ← join sign field; join high mant)
      (·.toNat = w.format.zero s + e * 2 ^ w.format.mantBits + m) := by
  have hlt : e * 2 ^ w.format.mantBits < 2 ^ (w.format.mantBits + w.format.expBits) := by
    rw [pow_add, Nat.mul_comm, ← Format.maxExp_add_one]
    exact Nat.mul_lt_mul_of_pos_left (by omega) (Nat.two_pow_pos _)
  refine (join_yields hsign hfield (signBit_dvd_zero w s) hlt).bind fun high hhigh => ?_
  exact join_yields hhigh hmant (Nat.dvd_add (hiddenBit_dvd_zero w s) (Nat.dvd_mul_left ..)) hm

section Assemble

variable {q : U128} {lsb : I32} {i : Nat} {e : Int} (hq : q.toNat = i) (hlsb : lsb.toInt = e)
include hq hlsb

/-- The carry, told by the bit above those that the format keeps. -/
theorem carried_yields (hhi : e < 2 ^ 20) (hlo : -2 ^ 20 ≤ e) :
    Yields (carried w.format q lsb) fun r => r.1.toNat =
    (if 2 * w.format.hiddenBit ≤ i then i / 2 else i) ∧
      r.2.toInt = if 2 * w.format.hiddenBit ≤ i then e + 1 else e := by
  have hmant := mantBits_le w
  refine (add_yields (j := 1) (toNat_mantBits w) rfl (by omega)).bind fun beyond hbeyond => ?_
  refine (shiftRight_yields hq hbeyond (by omega)).bind fun carry hcarry => ?_
  have hnone : carry = 0 ↔ ¬2 * w.format.hiddenBit ≤ i := by
    rw [eq_zero_iff hcarry, Nat.div_eq_zero_iff_lt (Nat.two_pow_pos _), pow_succ',
      ← Format.hiddenBit_eq, not_le]
  simp only [hnone, ite_not]
  split
  case isTrue h =>
    refine (shiftRight_yields (j := 1) hq rfl (by decide)).bind fun q' hq' => ?_
    exact (addSigned_yields (j := 1) hlsb rfl (by omega) (by omega)).bind fun lsb' hlsb' =>
      .pure ⟨hq', hlsb'⟩
  case isFalse h => exact .pure ⟨hq, hlsb⟩

/-- The pattern: subnormal, infinite, or with an exponent that fits its field. -/
theorem encode_yields (hi : i < 2 * w.format.hiddenBit) (hmin : w.format.minLsb ≤ e)
    (hhi : e ≤ 2 ^ 20) (s : Bool) : Yields (encode w.format s q lsb) (·.toNat =
      if i < w.format.hiddenBit then w.format.zero s + i
      else if w.format.maxExp ≤ e + w.format.mantBits + w.format.bias then w.format.infinity s
      else
        w.format.zero s + (e + w.format.mantBits + w.format.bias).toNat * w.format.hiddenBit + i %
          w.format.hiddenBit) := by
  have hmant := mantBits_le w
  have hbias := bias_le w
  have hhidden := hiddenBit_le w
  have hminLsb : w.format.minLsb = 1 - w.format.bias - w.format.mantBits := rfl
  have hmax := w.regular.maxExp_eq
  refine (zero_yields w s).bind fun sign hsign => ?_
  refine (shiftRight_yields hq (toNat_mantBits w) (by omega)).bind fun leading hleading => ?_
  refine (resize_yields hq (by omega)).bind fun low hlow => ?_
  have hsmall : leading = 0 ↔ i < w.format.hiddenBit := by
    rw [eq_zero_iff hleading, Nat.div_eq_zero_iff_lt (Nat.two_pow_pos _), Format.hiddenBit_eq]
  simp only [hsmall]
  refine .ite (fun h => join_yields hsign hlow (hiddenBit_dvd_zero w s) (w.format.hiddenBit_eq ▸ h))
    fun _ => ?_
  refine (toSigned_mantBits_yields w).bind fun mant hmant => (bias_yields w).bind fun b hb => ?_
  refine (addSigned_yields hlsb hmant (by omega) (by omega)).bind fun d hd => ?_
  refine (addSigned_yields hd hb (by omega) (by omega)).bind fun biased hbiased => ?_
  refine (maxExp_yields w).bind fun top htop => (toSigned_yields htop (by omega)).bind
    fun top' htop' => ?_
  simp only [sle_iff htop' hbiased]
  refine .ite (fun _ => infinity_yields w s) fun hfinite => ?_
  have hfit : (e + w.format.mantBits + w.format.bias).toNat * 2 ^ w.format.mantBits < 2 ^ 64 := by
    have hle := signBit_le w
    have hmask := w.format.expMask_lt_signBit
    have : (e + w.format.mantBits + w.format.bias).toNat * w.format.hiddenBit ≤ w.format.expMask :=
      Nat.mul_le_mul_right _ (by omega)
    rw [← Format.hiddenBit_eq]
    omega
  refine (toUnsigned_yields hbiased (by omega) (by omega)).bind fun field hfield => ?_
  refine (shiftLeft_yields hfield (toNat_mantBits w) (by omega) hfit).bind fun field' hfield' => ?_
  refine (mantMask_yields w).bind fun mask hmask => ?_
  have hlow' : (low &&& mask).toNat = i % 2 ^ w.format.mantBits :=
    toNat_and_mask hlow (w.format.hiddenBit_eq ▸ hmask)
  rw [Format.hiddenBit_eq]
  exact joined_yields hsign hfield' hlow' (by omega) (Nat.mod_lt _ (Nat.two_pow_pos _))

theorem assembled_yields (hi : i ≤ 2 * w.format.hiddenBit) (hmin : w.format.minLsb ≤ e)
    (hhi : e < 2 ^ 20) (s : Bool) :
    Yields (do let r ← carried w.format q lsb; encode w.format s r.1 r.2)
      (·.toNat = w.format.assemble s i e) := by
  have hpos := w.format.hiddenBit_pos
  have hminLo := minLsb_ge w
  refine (carried_yields hq hlsb hhi (by omega)).bind fun r hr => ?_
  refine encode_yields hr.1 hr.2 ?_ ?_ ?_ s
  all_goals split <;> omega

end Assemble

theorem roundExact_yields {sig : U128} {exp : I32} {i : Nat} {e : Int} (hsig : sig.toNat = i)
    (hexp : exp.toInt = e) (hlo : -2 ^ 19 ≤ e) (hhi : e ≤ 2 ^ 19) (s : Bool) :
    Yields (roundExact w.format s sig exp) (·.toNat = w.format.roundPack s i e false) := by
  by_cases hi : i = 0
  · rw [roundExact, if_pos ((eq_zero_iff hsig).2 hi), hi, Format.roundPack_zero]
    exact zero_yields w s
  have hlog : i.log2 < 128 := (Nat.log2_lt hi).2 (hsig ▸ sig.isLt)
  have hmant := mantBits_le w
  have hhidden := hiddenBit_le w
  have hminLo := minLsb_ge w
  have hminHi := minLsb_le w
  have hplace : w.format.lastPlace i e = max (e + i.log2 - w.format.mantBits) w.format.minLsb := rfl
  have hle : scaleRound i (w.format.lastPlace i e - e) ≤ 2 * w.format.hiddenBit :=
    Format.scaleRound_le i e
  rw [roundExact, if_neg ((eq_zero_iff hsig).not.2 hi), Format.roundPack_eq_assemble s hi]
  refine (toSigned_yields (toNat_leadingZeros hsig (by decide) hi) (by omega)).bind
    fun zeros hzeros => ?_
  refine (subSigned_yields (i := 127) rfl hzeros (by omega) (by omega)).bind fun bits hbits => ?_
  rw [show (127 : Int) - ((128 - 1 - i.log2 : Nat) : Int) = i.log2 by omega] at hbits
  refine (addSigned_yields hexp hbits (by omega) (by omega)).bind fun top htop => ?_
  refine (toSigned_mantBits_yields w).bind fun mant hmant => ?_
  refine (subSigned_yields htop hmant (by omega) (by omega)).bind fun last hlast =>
    (minLsb_yields w).bind fun least hleast => ?_
  have hlsb : (maxSigned last least).toInt = w.format.lastPlace i e := toInt_maxSigned hlast hleast
  refine (subSigned_yields hlsb hexp (by omega) (by omega)).bind fun shift hshift => ?_
  -- what a shift to the left yields is bounded by what rounding yields
  have hfit (h : w.format.lastPlace i e - e ≤ 0) :
      i * 2 ^ (-(w.format.lastPlace i e - e)).toNat < 2 ^ 128 := by
    rw [scaleRound, if_pos h, Nat.shiftLeft_eq] at hle
    omega
  refine (scale_yields hsig hshift hi hfit).bind fun q hq => ?_
  exact assembled_yields hq hlsb hle (by omega) (by omega) s

/-- **The one rounding stays within its words**, for exponents of that size and
a significand that has room for the sticky bit. -/
theorem roundPack_yields {sig : U128} {exp : I32} {i : Nat} {e : Int} (hsig : sig.toNat = i)
    (hexp : exp.toInt = e) (hlo : -2 ^ 18 ≤ e) (hhi : e ≤ 2 ^ 18) (s sticky : Bool)
    (hroom : sticky → i < 2 ^ 127) :
    Yields (roundPack w.format s sig exp sticky) (·.toNat = w.format.roundPack s i e sticky) := by
  rw [roundPack]
  cases sticky with
  | false => exact roundExact_yields hsig hexp (by omega) (by omega) s
  | true =>
    have hlt : i < 2 ^ 127 := hroom rfl
    -- the sticky bit is the last of a significand twice as long
    rw [Format.roundPack_sticky, if_pos rfl]
    refine (shiftLeft_yields (j := 1) hsig rfl (by decide) (by omega)).bind fun twice htwice => ?_
    refine (join_yields (b := 1) (j := 1) htwice rfl (Nat.dvd_mul_left ..) (by decide)).bind
      fun sig' hsig' => ?_
    refine (subSigned_yields (j := 1) hexp rfl (by omega) (by omega)).bind fun exp' hexp' => ?_
    exact roundExact_yields (by omega) hexp' (by omega) (by omega) s

example : roundPack .f64 false (1 <<< 127) 0 true = .error .dropped := rfl

end OnWords

end WasmEngine
