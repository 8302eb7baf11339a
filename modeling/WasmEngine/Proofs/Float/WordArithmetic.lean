import WasmEngine.Proofs.Float.WordRounding

/-!
# Arithmetic on words

Each operation of the soft policy, computed on words, ends without a breach and
with the pattern that unbounded integers give. What there is to see is how large
things become before they are rounded:

* a sum has 64 extra bits, and so fewer than 118, even if the operands are of
  one sign; their exponents may lie thousands apart, which no shift is made for
  (`WasmEngine.OnWords.shiftRightJam_yields`);
* a product has at most 106 bits, a dividend 109, and a radicand 112;
* the root that is being found and the digits to come share the 128 bits
  (`WasmEngine.OnWords.rootDigits_yields`), and the root is exact
  (`WasmEngine.OnWords.isqrt_exact`);
* a unit more carries a pattern at most to the infinity
  (`WasmEngine.OnWords.roundToInt_yields`).
-/

namespace WasmEngine

namespace OnWords

open Word

variable {w : Width} {a b : U64}

/-! ### Sums -/

/-- Whatever the distance, no shift is by the width or more. -/
theorem shiftRightJam_yields {v : U128} {d : U32} {i n : Nat} (hv : v.toNat = i)
    (hd : d.toNat = n) : Yields (shiftRightJam v d) (·.toNat = WasmEngine.shiftRightJam i n) := by
  have hi : i < 2 ^ 128 := hv ▸ v.isLt
  rw [shiftRightJam, WasmEngine.shiftRightJam, Nat.one_shiftLeft, Nat.shiftRight_eq_div_pow]
  by_cases hzero : n = 0
  · rw [if_pos ((eq_zero_iff hd).2 hzero), hzero, pow_zero, Nat.mod_one, if_pos rfl, Nat.div_one]
    exact .ok hv
  rw [if_neg ((eq_zero_iff hd).not.2 hzero)]
  have hlt : d < 128 ↔ n < 128 := by rw [BitVec.lt_def, hd]; rfl
  simp only [hlt]
  split
  case isTrue h =>
    refine (shiftRight_yields hv hd h).bind fun kept hkept => ?_
    refine (sub_yields (i := 128) rfl hd h.le).bind fun distance hdistance => ?_
    refine (shiftOut_yields hv hdistance (by omega)).bind fun dropped hdropped => .pure ?_
    -- the shift to the left keeps exactly the bits that the other one drops
    have hlost : dropped = 0 ↔ i % 2 ^ n = 0 := by
      rw [eq_zero_iff hdropped, ← Nat.dvd_iff_mod_eq_zero, ← Nat.dvd_iff_mod_eq_zero]
      rw [show 2 ^ 128 = 2 ^ n * 2 ^ (128 - n) by rw [← pow_add]; congr 1; omega]
      exact Nat.mul_dvd_mul_iff_right (Nat.two_pow_pos _)
    simp only [hlost]
    rw [BitVec.toNat_or, hkept]
    split <;> simp
  case isFalse h =>
    have hlt' : i < 2 ^ n := hi.trans_le (Nat.pow_le_pow_right Nat.two_pos (by omega))
    rw [Nat.mod_eq_of_lt hlt', Nat.div_eq_of_lt hlt']
    simp only [eq_zero_iff hv]
    refine .ok ?_
    split <;> rfl

theorem extended_yields {sig : U64} {i : Nat} (hsig : sig.toNat = i) (hi : i < 2 ^ 53) :
    Yields (extended sig) (·.toNat = i <<< 64) := by
  refine (resize_yields hsig (by omega)).bind fun wide hwide => ?_
  rw [Nat.shiftLeft_eq]
  exact shiftLeft_yields (j := 64) hwide rfl (by decide) (by omega)

theorem combine_yields {big small : U128} {exp : I32} {i j : Nat} {e : Int} (hbig : big.toNat = i)
    (hsmall : small.toNat = j) (hexp : exp.toInt = e) (hi : i < 2 ^ 127) (hj : j < 2 ^ 127)
    (hlo : -2 ^ 18 ≤ e) (hhi : e ≤ 2 ^ 18) (s t : Bool) :
    Yields (combine w.format s t big small exp) (·.toNat =
      if s = t then w.format.roundPack s (i + j) e false
      else if j < i then w.format.roundPack s (i - j) e false
      else if i < j then w.format.roundPack t (j - i) e false
      else w.format.zero false) := by
  simp only [combine, BitVec.lt_def, hbig, hsmall]
  have hround (s : Bool) {sum : U128} {k : Nat} (hsum : sum.toNat = k) :
      Yields (roundPack w.format s sum exp false) (·.toNat = w.format.roundPack s k e false) :=
    roundPack_yields hsum hexp hlo hhi s false (by simp)
  split_ifs
  · exact (Word.add_yields hbig hsmall (by omega)).bind fun sum hsum => hround s hsum
  · exact (Word.sub_yields hbig hsmall (by omega)).bind fun difference hd => hround s hd
  · exact (Word.sub_yields hsmall hbig (by omega)).bind fun difference hd => hround t hd
  · exact zero_yields w false

theorem addAligned_yields {x y : Parts} (hx : x.Bounded) (hy : y.Bounded)
    (hle : y.exp.toInt ≤ x.exp.toInt) :
    Yields (addAligned w.format x y) (·.toNat = w.format.addAligned x.unpacked y.unpacked) := by
  obtain ⟨hxsig, hxlo, hxhi⟩ := hx
  obtain ⟨hysig, hylo, hyhi⟩ := hy
  have hwide {sig : U64} (h : sig.toNat < 2 ^ 53) : sig.toNat <<< 64 < 2 ^ 117 := by
    rw [Nat.shiftLeft_eq]
    omega
  -- folding in the dropped bits adds one at most
  have hsmall (n : Nat) : WasmEngine.shiftRightJam (y.sig.toNat <<< 64) n < 2 ^ 127 := by
    have hjam := Format.shiftRightJam_le (y.sig.toNat <<< 64) n
    have hdiv := Nat.div_le_self (y.sig.toNat <<< 64) (2 ^ n)
    have := hwide hysig
    omega
  refine (subSigned_yields (j := 64) rfl rfl (by omega) (by omega)).bind fun exp hexp => ?_
  refine (extended_yields rfl hxsig).bind fun big hbig => (extended_yields rfl hysig).bind
    fun wide hwide' => ?_
  refine (subSigned_yields rfl rfl (by omega) (by omega)).bind fun apart hapart => ?_
  refine (toUnsigned_yields hapart (by omega) (by omega)).bind fun distance hdistance => ?_
  refine (shiftRightJam_yields hwide' hdistance).bind fun small hsmall' => ?_
  exact combine_yields hbig hsmall' hexp ((hwide hxsig).trans (by decide)) (hsmall _)
    (by omega) (by omega) _ _

theorem addFinite_yields (a b : U64) :
    Yields (addFinite w.format a b) (·.toNat =
      if (w.format.unpack b.toNat).exp ≤ (w.format.unpack a.toNat).exp then
        w.format.addAligned (w.format.unpack a.toNat) (w.format.unpack b.toNat)
      else w.format.addAligned (w.format.unpack b.toNat) (w.format.unpack a.toNat)) := by
  refine (unpack_yields w a).bind fun x hx => (unpack_yields w b).bind fun y hy => ?_
  have hxb := Parts.bounded_of_unpack hx
  have hyb := Parts.bounded_of_unpack hy
  simp only [BitVec.sle_iff_toInt_le, ← hx, ← hy]
  refine .ite (fun h => addAligned_yields hxb hyb h) fun h => addAligned_yields hyb hxb ?_
  exact (not_le.1 h).le

/-- A normalized divisor is not zero, and the quotient leaves room for the
sticky bit. -/
theorem quotient_yields (ha : ¬w.format.isZero a.toNat) (hb : ¬w.format.isZero b.toNat) (s : Bool) :
    Yields (quotient w.format s a b) (·.toNat =
      w.format.roundPack s ((w.format.unpackNormalized a.toNat).sig <<< (w.format.mantBits + 4) /
        (w.format.unpackNormalized b.toNat).sig)
        ((w.format.unpackNormalized a.toNat).exp - (w.format.unpackNormalized b.toNat).exp -
          (w.format.mantBits + 4 : Nat))
        ((w.format.unpackNormalized a.toNat).sig <<< (w.format.mantBits + 4) %
          (w.format.unpackNormalized b.toNat).sig != 0)) := by
  have hmant := mantBits_le w
  have hpos : (w.format.unpackNormalized b.toNat).sig ≠ 0 :=
    (lt_of_lt_of_le (Nat.two_pow_pos _) (Format.unpackNormalized_spec hb).2.2.1).ne'
  refine (unpackNormalized_yields ha).bind fun x hx =>
    (unpackNormalized_yields hb).bind fun y hy => ?_
  obtain ⟨hxsig, hxlo, hxhi⟩ := Parts.bounded_of_unpackNormalized ha hx
  obtain ⟨hysig, hylo, hyhi⟩ := Parts.bounded_of_unpackNormalized hb hy
  rw [← hx, ← hy]
  rw [← hy] at hpos
  have hlt : x.sig.toNat * 2 ^ (w.format.mantBits + 4) < 2 ^ 127 := by
    refine (Nat.mul_lt_mul_of_lt_of_le hxsig
      (Nat.pow_le_pow_right Nat.two_pos (show _ ≤ 56 by omega)) (Nat.two_pow_pos _)).trans ?_
    decide
  refine (Word.add_yields (j := 4) (toNat_mantBits w) rfl (by omega)).bind fun shift hshift => ?_
  refine (resize_yields rfl (by omega)).bind fun wide hwide => ?_
  refine (shiftLeft_yields hwide hshift (by omega) (by omega)).bind fun dividend hdividend => ?_
  refine (resize_yields rfl (by omega)).bind fun divisor hdivisor => ?_
  refine (Word.div_yields hdividend hdivisor hpos).bind fun q hq =>
    (rem_yields hdividend hdivisor hpos).bind fun r hr => ?_
  refine (subSigned_yields rfl rfl (by omega) (by omega)).bind fun e he =>
    (toSigned_yields hshift (by omega)).bind fun d hd => ?_
  refine (subSigned_yields he hd (by omega) (by omega)).bind fun exp hexp => ?_
  rw [bne_zero_eq hr, Nat.shiftLeft_eq]
  exact roundPack_yields hq hexp (by omega) (by omega) s _ fun _ =>
    (Nat.div_le_self ..).trans_lt hlt

theorem propagate_lt {F : Format} (hF : F.Regular) {a b nan : Nat} (ha : a < 2 * F.signBit)
    (hb : b < 2 * F.signBit) (h : F.propagate a b = some nan) : nan < 2 * F.signBit := by
  rw [Format.propagate] at h
  split_ifs at h
  · exact Option.some.inj h ▸ hF.quiet_lt ha
  · exact Option.some.inj h ▸ hF.quiet_lt hb

theorem toNat_ofNat_pattern {a : Nat} (ha : a < 2 * w.format.signBit) :
    (BitVec.ofNat 64 a).toNat = a := by
  have := signBit_le w
  rw [BitVec.toNat_ofNat, Nat.mod_eq_of_lt (by omega)]

section Operations

variable (ha : a.toNat < 2 * w.format.signBit) (hb : b.toNat < 2 * w.format.signBit)
include ha hb

/-- The NaN rule comes before the operation. -/
theorem propagated_yields {c : Checked U64} {r : Nat} (hc : Yields c (·.toNat = r)) :
    Yields (do
        match ← propagate w.format a b with
        | some nan => return nan
        | none => c)
      (·.toNat = match w.format.propagate a.toNat b.toNat with
        | some nan => nan
        | none => r) := by
  rw [propagate_eq ha hb, ok_bind]
  cases hnan : w.format.propagate a.toNat b.toNat with
  | some nan => exact .pure (toNat_ofNat_pattern (propagate_lt w.regular ha hb hnan))
  | none => exact hc

theorem add_yields : Yields (add w.format a b) (·.toNat = w.format.add a.toNat b.toNat) := by
  refine propagated_yields ha hb ?_
  simp only [isInfinite_eq ha, isInfinite_eq hb, negative_eq, isZero_eq ha, isZero_eq hb, ok_bind]
  refine .ite (fun _ => canonicalNan_yields w) fun _ => .ite (fun _ => .pure rfl) fun _ =>
    .ite (fun _ => .pure rfl) fun _ => ?_
  refine .ite (fun _ => .pure (BitVec.toNat_and ..)) fun _ => .ite (fun _ => .pure rfl) fun _ =>
    .ite (fun _ => .pure rfl) fun _ => ?_
  exact addFinite_yields a b

theorem sub_yields : Yields (sub w.format a b) (·.toNat = w.format.sub a.toNat b.toNat) := by
  refine propagated_yields ha hb ((signBit_yields w).bind fun s hs => ?_)
  have hxor : (b ^^^ s).toNat = b.toNat ^^^ w.format.signBit := by rw [BitVec.toNat_xor, hs]
  rw [← hxor]
  exact add_yields ha (hxor ▸ Format.xor_signBit_lt hb)

theorem mul_yields : Yields (mul w.format a b) (·.toNat = w.format.mul a.toNat b.toNat) := by
  refine propagated_yields ha hb ?_
  simp only [isInfinite_eq ha, isInfinite_eq hb, negative_eq, isZero_eq ha, isZero_eq hb, ok_bind]
  refine .ite (fun _ => canonicalNan_yields w) fun _ =>
    .ite (fun _ => infinity_yields w _) fun _ => ?_
  refine .ite (fun _ => zero_yields w _) fun _ => ?_
  refine (unpack_yields w a).bind fun x hx => (unpack_yields w b).bind fun y hy => ?_
  obtain ⟨hxsig, hxlo, hxhi⟩ := Parts.bounded_of_unpack hx
  obtain ⟨hysig, hylo, hyhi⟩ := Parts.bounded_of_unpack hy
  refine (resize_yields rfl (by omega)).bind fun xsig hxs => (resize_yields rfl (by omega)).bind
    fun ysig hys => ?_
  refine (Word.mul_yields hxs hys ((Nat.mul_lt_mul'' hxsig hysig).trans (by decide))).bind
    fun product hproduct => ?_
  refine (addSigned_yields rfl rfl (by omega) (by omega)).bind fun exp hexp => ?_
  rw [← hx, ← hy]
  exact roundPack_yields hproduct hexp (by omega) (by omega) _ _ (by simp)

theorem div_yields : Yields (div w.format a b) (·.toNat = w.format.div a.toNat b.toNat) := by
  refine propagated_yields ha hb ?_
  simp only [isInfinite_eq ha, isInfinite_eq hb, negative_eq, isZero_eq ha, isZero_eq hb, ok_bind]
  refine .ite (fun _ => canonicalNan_yields w) fun _ =>
    .ite (fun _ => infinity_yields w _) fun hbz => ?_
  refine .ite (fun _ => zero_yields w _) fun haz => ?_
  exact quotient_yields (fun h => haz (.inr h)) (fun h => hbz (.inr h)) _

end Operations

/-! ### Roots -/

theorem digit_eq (k : Nat) : 1 <<< (2 * k) = 4 ^ k := by
  rw [Nat.one_shiftLeft, pow_mul]
  rfl

/-- The digits skipped are zero. -/
theorem firstDigit_spec {n bit : U128} {k : Nat} (hbit : bit.toNat = 4 ^ k / 4) :
    ∃ j ≤ k, (firstDigit n bit).toNat = 4 ^ j / 4 ∧
    isqrtSteps j n.toNat 0 = isqrtSteps k n.toNat 0 := by
  induction k generalizing bit with
  | zero =>
    refine ⟨0, le_rfl, ?_, rfl⟩
    have : ¬n < bit := by
      rw [BitVec.lt_def, hbit]
      exact Nat.not_lt_zero _
    rw [firstDigit, if_neg this, hbit]
  | succ k ih =>
    rw [pow_succ, Nat.mul_div_cancel _ (by decide)] at hbit
    by_cases h : n < bit
    · have hnext : (bit >>> 2).toNat =
        4 ^ k / 4 := by rw [BitVec.toNat_ushiftRight, hbit, Nat.shiftRight_eq_div_pow]
      -- this power is too large to be taken away, so that the digit is zero
      have hskip : isqrtSteps (k + 1) n.toNat 0 = isqrtSteps k n.toNat 0 := by
        rw [BitVec.lt_def, hbit] at h
        rw [isqrtSteps, digit_eq, if_neg (by omega)]
      obtain ⟨j, hj, hdigit, hsteps⟩ := ih hnext
      refine ⟨j, hj.trans (Nat.le_succ k), ?_, hsteps.trans hskip.symm⟩
      rw [firstDigit, if_pos h, hdigit]
    · refine ⟨k + 1, le_rfl, ?_, rfl⟩
      rw [firstDigit, if_neg h, hbit, pow_succ, Nat.mul_div_cancel _ (by decide)]

/-- With `k` digits still to come, the root so far leaves as much room as they
need. -/
theorem rootDigits_yields {k : Nat} (hk : k ≤ 64) {rem root bit : U128} {i j : Nat}
    (hrem : rem.toNat = i) (hroot : root.toNat = j) (hbit : bit.toNat = 4 ^ k / 4)
    (hroom : j + 4 ^ k ≤ 2 ^ (64 + k)) :
    Yields (rootDigits rem root bit) fun r => r.1.toNat = (isqrtSteps k i j).1 ∧
    r.2.toNat = (isqrtSteps k i j).2 := by
  induction k generalizing rem root bit i j with
  | zero =>
    rw [rootDigits, if_pos ((eq_zero_iff hbit).2 rfl)]
    exact .ok ⟨hroot, hrem⟩
  | succ k ih =>
    rw [pow_succ, Nat.mul_div_cancel _ (by decide)] at hbit
    rw [pow_succ, ← Nat.add_assoc, pow_succ] at hroom
    have hpos : 0 < 4 ^ k := Nat.pow_pos (by decide)
    have hpow : 2 ^ (64 + k) * 2 ≤ 2 ^ 128 := by
      rw [← pow_succ]
      exact Nat.pow_le_pow_right Nat.two_pos (by omega)
    have hhalf : (root >>> 1).toNat =
      j / 2 := by rw [BitVec.toNat_ushiftRight, hroot, Nat.shiftRight_eq_div_pow, pow_one]
    have hnext : (bit >>> 2).toNat =
      4 ^ k / 4 := by rw [BitVec.toNat_ushiftRight, hbit, Nat.shiftRight_eq_div_pow]
    rw [rootDigits, if_neg ((eq_zero_iff hbit).not.2 hpos.ne'), isqrtSteps, digit_eq]
    refine (Word.add_yields hroot hbit (by omega)).bind fun trial htrial => ?_
    have hle : trial ≤ rem ↔ j + 4 ^ k ≤ i := by rw [BitVec.le_def, htrial, hrem]
    simp only [hle]
    -- the root is halved with every digit, and so is the room
    split
    case isTrue h =>
      refine (Word.sub_yields hrem htrial h).bind fun rem' hrem' => ?_
      refine (Word.add_yields hhalf hbit (by omega)).bind fun root' hroot' => ?_
      exact ih (by omega) hrem' hroot' hnext (by omega)
    case isFalse h => exact ih (by omega) hrem hhalf hnext (by omega)

theorem isqrt_yields {n : U128} {i : Nat} (hn : n.toNat = i) :
    Yields (isqrt n) fun r => r.1.toNat = (WasmEngine.isqrt i).1 ∧
    r.2.toNat = (WasmEngine.isqrt i).2 := by
  refine (two_pow_yields (j := 126) rfl (by decide)).bind fun bit hbit => ?_
  obtain ⟨k, hk, hdigit, hsteps⟩ := firstDigit_spec (n := n) (k := 64) (hbit.trans (by decide))
  rw [hn] at hsteps
  rw [WasmEngine.isqrt, ← hsteps]
  refine rootDigits_yields (j := 0) hk hn rfl hdigit ?_
  rw [Nat.zero_add, ← digit_eq, Nat.one_shiftLeft]
  exact Nat.pow_le_pow_right Nat.two_pos (by omega)

/-- **Square roots are exact.** On every word the digits come to an end with no
sum beyond 128 bits, and with the root rounded down and the remainder. -/
theorem isqrt_exact (n : U128) : Yields (isqrt n) fun r =>
    (r.1.toNat, r.2.toNat) = WasmEngine.isqrt n.toNat ∧ r.1.toNat ^ 2 + r.2.toNat = n.toNat ∧
      r.2.toNat ≤ 2 * r.1.toNat ∧
      r.1.toNat = Nat.sqrt n.toNat ∧ (r.2 = 0 ↔ IsSquare n.toNat) := by
  obtain ⟨r, heq, hr⟩ := isqrt_yields (n := n) rfl
  obtain ⟨hsum, hlt⟩ := isqrt_spec n.isLt
  rw [← hr.1, ← hr.2] at hsum
  rw [← hr.1] at hlt
  have hroot : r.1.toNat = Nat.sqrt n.toNat := Nat.eq_sqrt'.2 ⟨hsum ▸ Nat.le_add_right _ _, hlt⟩
  have hrem : r.2.toNat ≤ 2 * r.1.toNat := by
    rw [add_sq] at hlt
    omega
  refine ⟨r, heq, Prod.ext hr.1 hr.2, hsum, hrem, hroot,
    (eq_zero_iff rfl).trans ⟨fun hzero => ?_, fun ⟨k, hk⟩ => ?_⟩⟩
  · exact ⟨r.1.toNat, by rw [← hsum, hzero, Nat.add_zero, sq]⟩
  · rw [hk, Nat.sqrt_eq] at hroot
    rw [hroot, hk, sq] at hsum
    omega

theorem isqrt_lt {n : Nat} (hn : n < 2 ^ 128) : (WasmEngine.isqrt n).1 < 2 ^ 64 := by
  have hsum := (isqrt_spec hn).1
  refine lt_of_pow_lt_pow_left₀ 2 (Nat.zero_le _) ?_
  rw [← pow_mul]
  omega

theorem rootShift_yields (w : Width) :
    Yields (rootShift w.format) (·.toNat = (w.format.mantBits + 6) / 2 * 2) := by
  cases w <;> exact ⟨_, rfl, rfl⟩

theorem evened_yields {v : Parts} (hv : v.Bounded) :
    Yields (evened v) fun r => r.1.toNat =
    (if v.exp.toInt % 2 ≠ 0 then 2 * v.sig.toNat else v.sig.toNat) ∧
      r.2.toInt = if v.exp.toInt % 2 ≠ 0 then v.exp.toInt - 1 else v.exp.toInt := by
  obtain ⟨hsig, hlo, hhi⟩ := hv
  simp only [evened, odd_iff rfl]
  split
  case isTrue h =>
    rw [Nat.mul_comm]
    refine (shiftLeft_yields (j := 1) rfl rfl (by decide) (by omega)).bind fun sig hsig => ?_
    exact (subSigned_yields (j := 1) rfl rfl (by omega) (by omega)).bind fun exp hexp =>
      .pure ⟨hsig, hexp⟩
  case isFalse h => exact .pure ⟨rfl, rfl⟩

/-- An even exponent is halved without a rest, and the root leaves room for the
sticky bit. -/
theorem root_yields (hz : ¬w.format.isZero a.toNat) :
    Yields (root w.format a) (·.toNat =
      let v := w.format.unpackNormalized a.toNat
      let odd := v.exp % 2 ≠ 0
      let sig := if odd then 2 * v.sig else v.sig
      let exp := if odd then v.exp - 1 else v.exp
      let shift := (w.format.mantBits + 6) / 2 * 2
      let r := WasmEngine.isqrt (sig <<< shift)
      w.format.roundPack false r.1 ((exp - shift) / 2) (r.2 != 0)) := by
  have hmant := mantBits_le w
  refine (unpackNormalized_yields hz).bind fun v hv => ?_
  have hbounded := Parts.bounded_of_unpackNormalized hz hv
  refine (evened_yields hbounded).bind fun x hx => (rootShift_yields w).bind fun shift hshift => ?_
  obtain ⟨hvsig, hvlo, hvhi⟩ := hbounded
  rw [← hv, Parts.unpacked]
  dsimp only
  have hlt : (if v.exp.toInt % 2 ≠ 0 then 2 * v.sig.toNat else v.sig.toNat) <
    2 ^ 54 := by split <;> omega
  have hexp : (if v.exp.toInt % 2 ≠ 0 then v.exp.toInt - 1 else v.exp.toInt) % 2 = 0 ∧
      -1127 ≤ (if v.exp.toInt % 2 ≠ 0 then v.exp.toInt - 1 else v.exp.toInt) ∧
      (if v.exp.toInt % 2 ≠ 0 then v.exp.toInt - 1 else v.exp.toInt) ≤ 2047 := by split <;> omega
  generalize (if v.exp.toInt % 2 ≠ 0 then 2 * v.sig.toNat else v.sig.toNat) = i at *
  generalize (if v.exp.toInt % 2 ≠ 0 then v.exp.toInt - 1 else v.exp.toInt) = e at *
  have hfit : i * 2 ^ ((w.format.mantBits + 6) / 2 * 2) < 2 ^ 128 := by
    refine (Nat.mul_lt_mul_of_lt_of_le hlt (Nat.pow_le_pow_right Nat.two_pos (show _ ≤ 58 by omega))
      (Nat.two_pow_pos _)).trans ?_
    decide
  refine (resize_yields hx.1 (by omega)).bind fun wide hwide => ?_
  refine (shiftLeft_yields hwide hshift (by omega) hfit).bind fun radicand hradicand => ?_
  refine (isqrt_yields hradicand).bind fun r hr =>
    (toSigned_yields hshift (by omega)).bind fun d hd => ?_
  refine (subSigned_yields hx.2 hd (by omega) (by omega)).bind fun e' he' =>
    (divSigned_two_yields he').bind fun half hhalf => ?_
  rw [Int.tdiv_eq_ediv_of_dvd (by omega)] at hhalf
  rw [bne_zero_eq hr.2, Nat.shiftLeft_eq]
  exact roundPack_yields hr.1 hhalf (by omega) (by omega) _ _ fun _ =>
    (isqrt_lt hfit).trans (by decide)

theorem sqrt_yields (ha : a.toNat < 2 * w.format.signBit) :
    Yields (sqrt w.format a) (·.toNat = w.format.sqrt a.toNat) := by
  rw [sqrt, Format.sqrt]
  simp only [isNan_eq ha, isZero_eq ha, negative_eq, isInfinite_eq ha, ok_bind]
  refine .ite (fun _ => quiet_yields w a) fun _ => .ite (fun _ => .pure rfl) fun hz => ?_
  exact .ite (fun _ => canonicalNan_yields w) fun _ => .ite (fun _ => .pure rfl)
    fun _ => root_yields hz

/-! ### Integral values -/

/-- The fraction is dropped, or a unit is added in its place. -/
theorem dropFraction_yields {exp : I32} {e : Int} {n : Nat} (hexp : exp.toInt = e) (he : 0 ≤ e)
    (hn : e.toNat + n = w.format.mantBits) (hfit : a.toNat - a.toNat % 2 ^ n + 2 ^ n < 2 ^ 64)
    (mode : Rounding) (s : Bool) : Yields (dropFraction w.format mode s exp a) (·.toNat =
      if a.toNat % 2 ^ n = 0 then a.toNat
      else if mode.away s (2 ^ n / 2 < a.toNat % 2 ^ n ||
          (a.toNat % 2 ^ n == 2 ^ n / 2 && (a.toNat - a.toNat % 2 ^ n) / 2 ^ n % 2 == 1)) then
        a.toNat - a.toNat % 2 ^ n + 2 ^ n
      else a.toNat - a.toNat % 2 ^ n) := by
  have hmant := mantBits_le w
  refine (toUnsigned_yields hexp he (by omega)).bind fun places hplaces => ?_
  refine (Word.sub_yields (toNat_mantBits w) hplaces (by omega)).bind fun fraction hfraction => ?_
  rw [show w.format.mantBits - e.toNat = n by omega] at hfraction
  refine (two_pow_yields hfraction (by omega)).bind fun unit hunit => ?_
  refine (Word.sub_yields (j := 1) hunit rfl Nat.one_le_two_pow).bind fun below hbelow => ?_
  refine (shiftRight_yields (j := 1) hunit rfl (by decide)).bind fun half hhalf => ?_
  have hfrac : (a &&& below).toNat = a.toNat % 2 ^ n := toNat_and_mask rfl hbelow
  have hbase : (a &&& ~~~below).toNat = a.toNat - a.toNat % 2 ^ n := toNat_and_not_mask rfl hbelow
  have hless : decide (half < a &&& below) = decide (2 ^ n / 2 < a.toNat % 2 ^ n) := by
    simp only [BitVec.lt_def, hhalf, hfrac, pow_one]
  have htie : (a &&& below == half) = (a.toNat % 2 ^ n == 2 ^ n / 2) := by
    rw [Bool.eq_iff_iff, beq_iff_eq, beq_iff_eq, ← BitVec.toNat_inj, hfrac, hhalf, pow_one]
  simp only [eq_zero_iff hfrac, hless, htie, and_bit_bne_zero hbase hunit]
  exact .ite (fun _ => .pure rfl) fun _ => .ite (fun _ => Word.add_yields hbase hunit hfit)
    fun _ => .pure hbase

theorem belowOne_yields {b exp : I32} {m : U64} (a : U64) (hb : b.toInt = w.format.bias)
    (hexp : exp.toInt = w.format.biasedExp a.toNat - w.format.bias)
    (hm : m.toNat = w.format.mantissa a.toNat) (mode : Rounding) (s : Bool) :
    Yields (belowOne w.format mode s b exp m) (·.toNat =
      w.format.zero s + if mode.away s (w.format.biasedExp a.toNat + 1 ==
        w.format.bias && w.format.mantissa a.toNat != 0) then
        w.format.bias * w.format.hiddenBit
      else 0) := by
  have hmant := mantBits_le w
  have hbias := bias_le w
  have hsign := signBit_le w
  have hlt : w.format.bias * w.format.hiddenBit < w.format.signBit :=
    (Format.one_lt_expMask (Width.regular w)).trans w.format.expMask_lt_signBit
  have hhalf : (exp == -1) = (w.format.biasedExp a.toNat + 1 == w.format.bias) := by
    rw [Bool.eq_iff_iff, beq_iff_eq, beq_iff_eq, eq_iff_toInt (j := -1) hexp rfl]
    omega
  refine (toUnsigned_yields hb (by omega) (by omega)).bind fun field hfield => ?_
  rw [Int.toNat_natCast] at hfield
  refine (shiftLeft_yields hfield (toNat_mantBits w) (by omega)
    (by rw [← Format.hiddenBit_eq]; omega)).bind fun one hone => ?_
  rw [← Format.hiddenBit_eq] at hone
  refine (zero_yields w s).bind fun sign hsign => ?_
  rw [bne_zero_eq hm, hhalf]
  refine join_yields hsign ?_ (signBit_dvd_zero w s) ?_
  · split
    · exact hone
    · rfl
  · rw [← Format.signBit_eq]
    split <;> omega

theorem roundToInt_yields (ha : a.toNat < 2 * w.format.signBit) (mode : Rounding) :
    Yields (roundToInt w.format mode a) (·.toNat = w.format.roundToInt mode a.toNat) := by
  have hmant := mantBits_le w
  have hbias := bias_le w
  have hbiased := biasedExp_le w a.toNat
  rw [roundToInt, Format.roundToInt]
  simp only [isNan_eq ha, isZero_eq ha, negative_eq, isInfinite_eq ha, ok_bind]
  refine .ite (fun _ => quiet_yields w a) fun hnan => .ite (fun _ => .pure rfl) fun hspecial => ?_
  refine (biasedExp_yields w a).bind fun biased hb => (mantissa_yields w a).bind fun m hm =>
    (bias_yields w).bind fun b hb' => ?_
  refine (subSigned_yields hb hb' (by omega) (by omega)).bind fun exp hexp =>
    (toSigned_mantBits_yields w).bind fun mant hmant' => ?_
  have hlarge : mant.sle exp ↔ w.format.bias + w.format.mantBits ≤ w.format.biasedExp a.toNat := by
    rw [sle_iff hmant' hexp]
    omega
  have hsmall : exp.slt 0 ↔ w.format.biasedExp a.toNat < w.format.bias := by
    rw [slt_iff (j := 0) hexp rfl]
    omega
  simp only [hlarge, hsmall]
  refine .ite (fun _ => .pure rfl) fun hlarge => .ite (fun hsmall => ?_) fun hsmall => ?_
  · exact belowOne_yields a hb' hexp hm mode _
  · have hdvd : 2 ^ (w.format.bias + w.format.mantBits - w.format.biasedExp a.toNat) ∣
      w.format.hiddenBit := by
      rw [Format.hiddenBit_eq]
      exact Nat.pow_dvd_pow 2 (by omega)
    have hfinite : w.format.magnitude a.toNat < w.format.expMask :=
      Format.finite_of (Bool.eq_false_iff.2 hnan) fun h => hspecial (.inl h)
    simp only [Nat.one_shiftLeft]
    refine dropFraction_yields hexp (by omega) (by omega) ?_ mode _
    -- the unit is added to the magnitude, which stays at most that of the infinity
    have hle := Format.sub_mod_unit_add_le hdvd hfinite
    have hlt := Format.zero_add_lt (s := w.format.negative a.toNat) w.format.expMask_lt_signBit
    have hsign := signBit_le w
    rw [Format.sub_mod_unit ha hdvd]
    omega

end OnWords

end WasmEngine
