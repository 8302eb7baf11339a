import WasmEngine.Proofs.Float.WordArithmetic

/-!
# No step overflows

The rest of the soft policy on words: comparisons, conversions from and to
integers and between the formats, and the operations at the widths of their
patterns. Together with the arithmetic that makes the whole policy:
`WasmEngine.FloatPolicy.soft_fits_words`.

To an integer, a value is shifted by no more than 64 places to the left, so that
128 bits hold it; whether it is in range is decided after that. A NaN is taken
to the other format bit by bit, where the quiet bit may be there already
(`WasmEngine.Format.zero_or_canonicalNan_or`).
-/

namespace WasmEngine

/-- A NaN put together by bits is the quieted one of that payload. -/
theorem Format.zero_or_canonicalNan_or {F : Format} {m : Nat} (hF : F.Regular)
    (hm : m < F.hiddenBit) (s : Bool) :
    F.zero s ||| F.canonicalNan ||| m = F.zero s + F.quiet (F.expMask + m) := by
  have hq := hF.quietBit_lt
  have hor := or_quietBit_lt hF hm
  have hexp {p : Nat} (hp : p < F.hiddenBit) : F.expMask + p = F.expMask ||| p := by
    rw [hiddenBit_eq] at hp
    rw [expMask, hiddenBit_eq, Nat.mul_comm, Nat.two_pow_add_eq_or_of_lt hp]
  have hsign : F.zero s + (F.expMask + (m ||| F.quietBit)) =
      F.zero s ||| (F.expMask + (m ||| F.quietBit)) := by
    have hlt : F.expMask + (m ||| F.quietBit) < F.signBit := by
      rw [← expMask_add_hiddenBit]
      omega
    rw [signBit_eq] at hlt
    cases s
    · rw [zero, if_neg Bool.false_ne_true, Nat.zero_add, Nat.zero_or]
    · rw [zero, if_pos rfl, signBit_eq]
      simpa using Nat.two_pow_add_eq_or_of_lt hlt 1
  rw [quiet_expMask_add hF hm, hsign, canonicalNan, hexp hq, hexp hor, Nat.or_assoc, Nat.or_assoc,
    Nat.or_comm F.quietBit]

namespace OnWords

open Word

variable {w : Width} {a b : U64}

/-! ### Comparisons -/

section Comparisons

variable (ha : a.toNat < 2 * w.format.signBit) (hb : b.toNat < 2 * w.format.signBit)
include ha hb

theorem eq_eq : eq w.format a b = .ok (w.format.eq a.toNat b.toNat) := by
  have hsame : (a == b) =
    (a.toNat == b.toNat) := by rw [Bool.eq_iff_iff, beq_iff_eq, beq_iff_eq, BitVec.toNat_inj]
  simp only [eq, isNan_eq ha, isNan_eq hb, isZero_eq ha, isZero_eq hb, ok_bind, hsame]
  rfl

theorem lt_eq : lt w.format a b = .ok (w.format.lt a.toNat b.toNat) := by
  refine Yields.eq_ok ?_
  simp only [lt, Format.lt, isNan_eq ha, isNan_eq hb, isZero_eq ha, isZero_eq hb,
    negative_eq, ok_bind]
  refine .ite (fun _ => .pure rfl) fun _ => ?_
  refine (magnitude_yields ha).bind fun x hx => (magnitude_yields hb).bind fun y hy => ?_
  cases w.format.negative a.toNat <;> cases w.format.negative b.toNat
  · exact .pure rfl
  · exact .pure rfl
  · exact .pure rfl
  · exact .pure (by simp only [BitVec.lt_def, hx, hy])

theorem le_eq : le w.format a b = .ok (w.format.le a.toNat b.toNat) := by
  simp only [le, lt_eq ha hb, eq_eq ha hb, ok_bind]
  rfl

end Comparisons

/-! ### Integers -/

theorem signMagnitude_eq (t : IntTarget) (r : Raw) :
    ((signMagnitude t r).1, (signMagnitude t r).2.toNat) = t.signMagnitude r := by
  have hsign : (t.signMagnitude r).1 = true ↔ t.number r < 0 := by
    rw [← IntTarget.value_eq_number]
    exact decide_eq_true_iff
  have hmagnitude : (t.signMagnitude r).2 = (t.number r).natAbs := by
    rw [← IntTarget.value_eq_number]
    rfl
  have hlow := r.low.isLt
  have habs := r.low.abs.isLt
  refine Prod.ext (Bool.eq_iff_iff.2 (Iff.trans ?_ hsign.symm)) (Eq.trans ?_ hmagnitude.symm)
  · cases t <;>
      simp only [signMagnitude, IntTarget.number, BitVec.msb_eq_toInt, decide_eq_true_iff,
        Bool.false_eq_true, false_iff] <;> omega
  · cases t <;> simp only [signMagnitude, IntTarget.number, BitVec.toNat_setWidth, ← toNat_abs_eq,
      Int.natAbs_natCast] <;> omega

theorem ofInt_yields (w : Width) (t : IntTarget) (r : Raw) :
    Yields (ofInt w.format t r) (·.toNat = w.format.ofInt t r) := by
  have hv := signMagnitude_eq t r
  have hlt := (signMagnitude t r).2.isLt
  refine (resize_yields rfl (by omega)).bind fun sig hsig => ?_
  rw [Format.ofInt, ← hv]
  exact roundPack_yields (e := 0) hsig rfl (by omega) (by omega) _ _ (by simp)

theorem twosComplement_eq {t : IntTarget} {s : Bool} {m : U64} (hm : m.toNat ≤ t.limit s) :
    twosComplement t s m = .ok (t.word (if s then -(m.toNat : Int) else m.toNat)) := by
  have hlt := m.isLt
  cases t <;> cases s
  all_goals simp only [IntTarget.limit, IntTarget.signed, IntTarget.count, IntTarget.bits,
    Nat.reduceShiftLeft] at hm
  case i32.true =>
    refine Yields.eq_ok ((resize_yields rfl (by omega)).bind fun low hlow =>
      .pure (BitVec.eq_of_toNat_eq ?_))
    rw [BitVec.toNat_setWidth, BitVec.toNat_neg, hlow, IntTarget.word, BitVec.toNat_ofNat]
    simp only [IntTarget.count, IntTarget.bits, Nat.reduceShiftLeft, if_true]
    omega
  all_goals
    refine congrArg Except.ok (BitVec.eq_of_toNat_eq ?_)
    simp only [IntTarget.word, IntTarget.count, IntTarget.bits, Nat.reduceShiftLeft,
      BitVec.toNat_ofNat, BitVec.toNat_neg, if_true, Bool.false_eq_true, if_false]
    omega

theorem ofSignMagnitude?_eq (t : IntTarget) (s : Bool) (m : U64) : ofSignMagnitude? t s m =
    .ok (t.ofSignMagnitude? s m.toNat) := by
  have hlimit : BitVec.ofNat 64 (t.limit s) < m ↔ t.limit s < m.toNat := by
    rw [BitVec.lt_def, BitVec.toNat_ofNat, Nat.mod_eq_of_lt (t.limit_lt s)]
  simp only [ofSignMagnitude?, IntTarget.ofSignMagnitude?, hlimit]
  split
  case isTrue h => rfl
  case isFalse h =>
    rw [twosComplement_eq (not_lt.1 h)]
    rfl

theorem integerPart_yields {v : Parts} (hv : v.Bounded) (hexp : v.exp.toInt ≤ 64) :
    Yields (integerPart v) (·.toNat =
      if 0 ≤ v.exp.toInt then v.sig.toNat <<< v.exp.toInt.toNat
      else v.sig.toNat >>> (-v.exp.toInt).toNat) := by
  obtain ⟨hsig, hlo, hhi⟩ := hv
  simp only [integerPart, sle_iff (i := 0) (x := 0) rfl rfl, slt_iff (i := -64) (x := -64) rfl rfl]
  refine .ite (fun h => ?_) fun h => ?_
  · have hfit : v.sig.toNat * 2 ^ v.exp.toInt.toNat < 2 ^ 128 := by
      refine (Nat.mul_lt_mul_of_lt_of_le hsig
        (Nat.pow_le_pow_right Nat.two_pos (show _ ≤ 64 by omega)) (Nat.two_pow_pos _)).trans ?_
      decide
    rw [Nat.shiftLeft_eq]
    refine (resize_yields rfl (by omega)).bind fun wide hwide => ?_
    exact shiftLeft_yields hwide (toNat_eq_toNat rfl h) (by omega) hfit
  rw [Nat.shiftRight_eq_div_pow]
  split
  case isTrue hnear =>
    refine (negSigned_yields rfl (by omega)).bind fun d hd => ?_
    refine (shiftRight_yields rfl (toNat_eq_toNat hd (by omega)) (by omega)).bind fun low hlow => ?_
    exact resize_yields hlow ((Nat.div_le_self ..).trans_lt (by omega))
  case isFalse hfar =>
    -- a shift by so much leaves nothing of a significand
    rw [Nat.div_eq_of_lt (hsig.trans_le (Nat.pow_le_pow_right Nat.two_pos (by omega)))]
    exact .ok rfl

theorem integerOf_eq (t : IntTarget) (s : Bool) (m : U128) :
    integerOf t s m = .ok (match t.ofSignMagnitude? s m.toNat with
      | some r => .ok r
      | none => .error .integerOverflow) := by
  have hlimit := t.limit_lt s
  rw [integerOf]
  split
  case isTrue h =>
    -- too large for 64 bits, and so for every range
    have hnone : t.ofSignMagnitude? s m.toNat =
      none := by rw [IntTarget.ofSignMagnitude?, if_pos (by omega)]
    rw [hnone]
  case isFalse h =>
    refine Yields.eq_ok ((resize_yields rfl (by omega)).bind fun low hlow => ?_)
    rw [ofSignMagnitude?_eq, ok_bind, hlow]
    cases t.ofSignMagnitude? s m.toNat with
    | none => exact .pure rfl
    | some r => exact .pure rfl

theorem toInt_eq (ha : a.toNat < 2 * w.format.signBit) (t : IntTarget) : toInt w.format t a =
    .ok (w.format.toInt t a.toNat) := by
  refine Yields.eq_ok ?_
  have hmant := mantBits_le w
  simp only [toInt, Format.toInt, isNan_eq ha, isInfinite_eq ha, isZero_eq ha, ok_bind]
  refine .ite (fun _ => .pure rfl) fun _ => .ite (fun _ => .pure rfl) fun _ =>
    .ite (fun _ => .pure rfl) fun _ => ?_
  refine (unpack_yields w a).bind fun v hv => (toSigned_mantBits_yields w).bind fun mant hm => ?_
  refine (subSigned_yields (i := 64) rfl hm (by omega) (by omega)).bind fun most hmost => ?_
  simp only [slt_iff hmost rfl, ← hv]
  refine .ite (fun _ => .pure rfl) fun hle => ?_
  have hexp : v.exp.toInt ≤ 64 := by
    have : v.exp.toInt ≤ 64 - w.format.mantBits := not_lt.1 hle
    omega
  refine (integerPart_yields (Parts.bounded_of_unpack hv) hexp).bind fun m hm => ?_
  rw [integerOf_eq, hm]
  exact .ok rfl

/-! ### Between the formats -/

theorem ofFormat_yields (w v : Width) (a : U64) :
    Yields (ofFormat w.format v.format a) (·.toNat = w.format.ofFormat v.format a.toNat) := by
  refine (unpack_yields v a).bind fun x hx => ?_
  obtain ⟨hsig, hlo, hhi⟩ := Parts.bounded_of_unpack hx
  refine (resize_yields rfl (by omega)).bind fun sig hsig => ?_
  rw [Format.ofFormat, ← hx]
  exact roundPack_yields hsig rfl (by omega) (by omega) _ _ (by simp)

theorem zero_negative {F G : Format} {a : Nat} (ha : a < 2 * G.signBit) : F.zero (G.negative a) =
    a / G.signBit * F.signBit := by
  have hlt : a / G.signBit < 2 := Nat.div_lt_of_lt_mul (by omega)
  obtain h | h := Nat.le_one_iff_eq_zero_or_eq_one.1 (Nat.lt_succ_iff.1 hlt)
  all_goals simp [Format.zero, Format.negative, h]

theorem demoteNan_yields (a : U64) :
    Yields (demoteNan a) (·.toNat = WasmEngine.demoteNan a.toNat) := by
  have ha := a.isLt
  refine (shiftRight_yields (j := 63) rfl rfl (by decide)).bind fun top htop =>
    (resize_yields htop (by omega)).bind fun top' htop' => ?_
  refine (shiftLeft_yields (j := 31) htop' rfl (by decide) (by omega)).bind fun sign hsign => ?_
  refine (canonicalNan_yields .w32).bind fun nan hnan => (resize_yields hnan (by decide)).bind
    fun nan' hnan' => ?_
  refine (Word.sub_yields (i := 52) (j := 23) rfl rfl (by decide)).bind
    fun narrowing hnarrowing => ?_
  refine (shiftRight_yields rfl hnarrowing (by decide)).bind fun high hhigh => ?_
  refine (mantMask_yields .w32).bind fun mask hmask => (resize_yields hmask (by decide)).bind
    fun mask' hmask' => .pure ?_
  have hpayload : Format.f64.mantissa a.toNat >>> 29 = a.toNat / 2 ^ 29 % 2 ^ 23 := by
    rw [Nat.shiftRight_eq_div_pow]
    exact Nat.mod_mul_right_div_self a.toNat (2 ^ 29) (2 ^ 23)
  have hlow : (high.setWidth 32 &&& mask').toNat = Format.f64.mantissa a.toNat >>> 29 := by
    rw [toNat_and_mask (j := 23) (BitVec.toNat_setWidth 32 high) hmask', hhigh, hpayload]
    exact Nat.mod_mod_of_dvd _ (by decide)
  have hzero : Format.f32.zero (Format.f64.negative a.toNat) = a.toNat / 2 ^ 63 * 2 ^ 31 :=
    zero_negative a.isLt
  rw [BitVec.toNat_or, BitVec.toNat_or, hsign, hnan', hlow, ← hzero, WasmEngine.demoteNan]
  exact Format.zero_or_canonicalNan_or (Width.regular .w32) (hpayload ▸ Nat.mod_lt _ (by decide)) _

theorem promoteNan_yields (a : U32) :
    Yields (promoteNan a) (·.toNat = WasmEngine.promoteNan a.toNat) := by
  have ha := a.isLt
  refine (shiftRight_yields (j := 31) rfl rfl (by decide)).bind fun top htop =>
    (resize_yields htop (by omega)).bind fun top' htop' => ?_
  refine (shiftLeft_yields (j := 63) htop' rfl (by decide) (by omega)).bind fun sign hsign => ?_
  refine (canonicalNan_yields .w64).bind fun nan hnan => (resize_yields rfl (by omega)).bind
    fun wide hwide => ?_
  refine (mantMask_yields .w32).bind fun mask hmask => ?_
  refine (Word.sub_yields (i := 52) (j := 23) rfl rfl (by decide)).bind fun widening hwidening => ?_
  have hlow : (wide &&& mask).toNat = Format.f32.mantissa a.toNat :=
    toNat_and_mask (j := 23) hwide hmask
  have hfit : Format.f32.mantissa a.toNat * 2 ^ (52 - 23) < 2 ^ 52 := by
    have : Format.f32.mantissa a.toNat < 2 ^ 23 := Nat.mod_lt _ (Nat.two_pow_pos 23)
    exact (Nat.mul_lt_mul_of_pos_right this (Nat.two_pow_pos _)).trans_eq (pow_add 2 23 29).symm
  refine (shiftLeft_yields hlow hwidening (by decide) (hfit.trans (by decide))).bind
    fun payload hpayload => .pure ?_
  have hzero : Format.f64.zero (Format.f32.negative a.toNat) = a.toNat / 2 ^ 31 * 2 ^ 63 :=
    zero_negative a.isLt
  rw [BitVec.toNat_or, BitVec.toNat_or, hsign, hnan, hpayload, ← hzero,
    WasmEngine.promoteNan, Nat.shiftLeft_eq]
  exact Format.zero_or_canonicalNan_or (Width.regular .w64) hfit _

theorem demote_yields (a : U64) : Yields (demote a) (·.toNat = softDemote a.toNat) := by
  have ha : a.toNat < 2 * Width.w64.format.signBit := a.isLt
  have hnan : isNan .f64 a = .ok (Format.f64.isNan a.toNat) := isNan_eq (w := .w64) ha
  have hinf : isInfinite .f64 a = .ok (Format.f64.isInfinite a.toNat) :=
    isInfinite_eq (w := .w64) ha
  have hzero : isZero .f64 a = .ok (Format.f64.isZero a.toNat) := isZero_eq (w := .w64) ha
  have hneg : negative .f64 a = .ok (Format.f64.negative a.toNat) := negative_eq .w64 a
  simp only [demote, softDemote, hnan, hinf, hzero, hneg, ok_bind]
  refine .ite (fun _ => demoteNan_yields a) fun _ => .ite (fun _ => ?_) fun _ =>
    .ite (fun _ => ?_) fun _ => ?_
  · exact (infinity_yields .w32 _).bind fun r hr => resize_yields hr (Format.Valued.infinity _).lt
  · exact (zero_yields .w32 _).bind fun r hr => resize_yields hr (Format.Valued.zero _).lt
  · exact (ofFormat_yields .w32 .w64 a).bind fun r hr => resize_yields hr
      (Format.roundPack_lt (Width.regular .w32) ..)

theorem promote_yields (a : U32) : Yields (promote a) (·.toNat = softPromote a.toNat) := by
  have ha : a.toNat < 2 * Width.w32.format.signBit := a.isLt
  refine (resize_yields rfl (ha.trans (by decide))).bind fun wide hwide => ?_
  rw [← hwide] at ha
  have hnan : isNan .f32 wide = .ok (Format.f32.isNan wide.toNat) := isNan_eq (w := .w32) ha
  have hinf : isInfinite .f32 wide = .ok (Format.f32.isInfinite wide.toNat) :=
    isInfinite_eq (w := .w32) ha
  have hzero : isZero .f32 wide = .ok (Format.f32.isZero wide.toNat) := isZero_eq (w := .w32) ha
  have hneg : negative .f32 wide = .ok (Format.f32.negative wide.toNat) := negative_eq .w32 wide
  simp only [softPromote, hnan, hinf, hzero, hneg, ok_bind, hwide]
  refine .ite (fun _ => promoteNan_yields a) fun _ =>
    .ite (fun _ => infinity_yields .w64 _) fun _ => ?_
  refine .ite (fun _ => zero_yields .w64 _) fun _ => ?_
  exact hwide ▸ ofFormat_yields .w64 .w32 wide

theorem demote_eq (a : Pattern .w64) : demote a = .ok (FloatPolicy.soft.demote a) :=
  (demote_yields a).eq_ofNat

theorem promote_eq (a : Pattern .w32) : promote a = .ok (FloatPolicy.soft.promote a) :=
  (promote_yields a).eq_ofNat

/-! ### Operations at a width -/

section Lift

variable {x y : Pattern w} {f : U64 → Checked U64} {f₂ : U64 → U64 → Checked U64} {g : Nat → Nat}
  {g₂ : Nat → Nat → Nat}

theorem widen_yields (x : Pattern w) : Yields (resize 64 x) fun r => r.toNat = x.toNat ∧
    r.toNat < 2 * w.format.signBit := by
  have hx := Width.toNat_lt x
  have := signBit_le w
  exact (resize_yields rfl (by omega)).imp fun r hr => ⟨hr, by rw [hr]; exact hx⟩

theorem narrow_eq {r : U64} {i : Nat} (hr : r.toNat = i) (hi : i < 2 * w.format.signBit) :
    resize w.bits r = .ok (BitVec.ofNat w.bits i) :=
  (resize_yields hr (w.two_pow_bits ▸ hi)).eq_ofNat

theorem lift_eq
    (hf : ∀ r : U64, r.toNat < 2 * w.format.signBit → Yields (f r) (·.toNat = g r.toNat))
    (hg : g x.toNat < 2 * w.format.signBit) : lift f x = .ok (FloatOps.lift w g x) := by
  refine Yields.eq_ok ((widen_yields x).bind fun r hr => (hf r hr.2).bind fun z hz => ?_)
  rw [hr.1] at hz
  rw [narrow_eq hz hg]
  exact .ok rfl

theorem lift₂_eq
    (hf : ∀ r s : U64, r.toNat < 2 * w.format.signBit → s.toNat < 2 * w.format.signBit →
      Yields (f₂ r s) (·.toNat = g₂ r.toNat s.toNat))
    (hg : g₂ x.toNat y.toNat < 2 * w.format.signBit) :
    lift₂ f₂ x y = .ok (FloatOps.lift₂ w g₂ x y) := by
  refine Yields.eq_ok ((widen_yields x).bind fun r hr => (widen_yields y).bind fun s hs =>
    (hf r s hr.2 hs.2).bind fun z hz => ?_)
  rw [hr.1, hs.1] at hz
  rw [narrow_eq hz hg]
  exact .ok rfl

theorem test_eq {p : U64 → U64 → Checked Bool} {q : Nat → Nat → Bool}
    (hp : ∀ r s : U64, r.toNat < 2 * w.format.signBit → s.toNat < 2 * w.format.signBit →
      p r s = .ok (q r.toNat s.toNat))
    (x y : Pattern w) : test p x y = .ok (q x.toNat y.toNat) := by
  refine Yields.eq_ok ((widen_yields x).bind fun r hr => (widen_yields y).bind fun s hs => ?_)
  rw [hp r s hr.2 hs.2, hr.1, hs.1]
  exact .ok rfl

end Lift

theorem unary_eq (op : FloatUnary) (a : Pattern w) :
    unary op a = .ok ((FloatOps.soft w).unary op a) := by
  have hround (mode : Rounding) : lift (roundToInt w.format mode) a =
      .ok ((FloatOps.soft w).round mode a) :=
    lift_eq (fun r hr => roundToInt_yields hr mode)
      (Format.nanRule_roundToInt w.regular (Width.toNat_lt a) mode).lt
  cases op with
  | abs => rfl
  | neg => rfl
  | ceil => exact hround .ceil
  | floor => exact hround .floor
  | trunc => exact hround .trunc
  | nearest => exact hround .nearest
  | sqrt =>
    exact lift_eq (fun r hr => sqrt_yields hr) (Format.nanRule_sqrt w.regular (Width.toNat_lt a)).lt

theorem choose_eq {zeros : Pattern w → Pattern w → Pattern w} {q : Bool} {a b : Pattern w}
    (less : Pattern w → Pattern w → Checked Bool) (hless : less a b = .ok q) :
    choose zeros less a b = .ok (match w.format.propagate a.toNat b.toNat with
      | some nan => BitVec.ofNat _ nan
      | none =>
        if w.format.isZero a.toNat ∧ w.format.isZero b.toNat then zeros a b else if q then a
        else b) := by
  refine Yields.eq_ok ((widen_yields a).bind fun x hx => (widen_yields b).bind fun y hy => ?_)
  rw [propagate_eq hx.2 hy.2, ok_bind, isZero_eq hx.2, isZero_eq hy.2, hx.1, hy.1, hless]
  cases hnan : w.format.propagate a.toNat b.toNat with
  | some nan =>
    have hlt : nan < 2 * w.format.signBit := propagate_lt w.regular (Width.toNat_lt a)
      (Width.toNat_lt b) hnan
    simp only [Option.map_some, narrow_eq (toNat_ofNat_pattern hlt) hlt]
    exact .ok rfl
  | none =>
    simp only [Option.map_none, ok_bind]
    exact .ite (fun _ => .pure rfl) fun _ => .ite (fun _ => .pure rfl) fun _ => .pure rfl

theorem binary_eq (op : FloatBinary) (a b : Pattern w) :
    binary op a b = .ok ((FloatOps.soft w).binary op a b) := by
  have ha := Width.toNat_lt a
  have hb := Width.toNat_lt b
  have hlt (x y : Pattern w) : test (lt w.format) x y = .ok ((FloatOps.soft w).lt x y) :=
    test_eq (fun r s => lt_eq) x y
  cases op with
  | add => exact lift₂_eq (fun r s => add_yields) (Format.nanRule_add w.regular ha hb).lt
  | sub => exact lift₂_eq (fun r s => sub_yields) (Format.nanRule_sub w.regular ha hb).lt
  | mul => exact lift₂_eq (fun r s => mul_yields) (Format.nanRule_mul w.regular ha hb).lt
  | div => exact lift₂_eq (fun r s => div_yields) (Format.nanRule_div w.regular ha hb).lt
  | min => exact choose_eq (fun a b => test (lt w.format) a b) (hlt a b)
  | max => exact choose_eq (fun a b => test (lt w.format) b a) (hlt b a)
  | copysign => rfl

theorem compare_eq (op : FloatCompare) (a b : Pattern w) :
    compare op a b = .ok ((FloatOps.soft w).compare op a b) := by
  have heq (x y : Pattern w) : test (eq w.format) x y = .ok ((FloatOps.soft w).eq x y) :=
    test_eq (fun r s => eq_eq) x y
  have hlt (x y : Pattern w) : test (lt w.format) x y = .ok ((FloatOps.soft w).lt x y) :=
    test_eq (fun r s => lt_eq) x y
  have hle (x y : Pattern w) : test (le w.format) x y = .ok ((FloatOps.soft w).le x y) :=
    test_eq (fun r s => le_eq) x y
  cases op with
  | eq => exact heq a b
  | ne =>
    rw [compare, heq a b]
    rfl
  | lt => exact hlt a b
  | gt => exact hlt b a
  | le => exact hle a b
  | ge => exact hle b a

theorem convert_eq (w : Width) (t : IntTarget) (r : Raw) :
    convert w t r = .ok ((FloatOps.soft w).ofInt t r) := by
  refine Yields.eq_ok ((ofInt_yields w t r).bind fun a ha => ?_)
  rw [narrow_eq ha (Format.roundPack_lt w.regular ..)]
  exact .ok rfl

theorem truncate_eq (t : IntTarget) (a : Pattern w) :
    truncate t a = .ok ((FloatOps.soft w).toInt t a) := by
  refine Yields.eq_ok ((widen_yields a).bind fun r hr => ?_)
  rw [toInt_eq hr.2, hr.1]
  exact .ok rfl

theorem truncateSat_eq (t : IntTarget) (a : Pattern w) :
    truncateSat t a = .ok ((FloatOps.soft w).toIntSat t a) := by
  refine Yields.eq_ok ((widen_yields a).bind fun r hr => ?_)
  rw [negative_eq, ok_bind, truncate_eq, ok_bind, hr.1, FloatOps.toIntSat]
  cases (FloatOps.soft w).toInt t a with
  | ok r => exact .pure rfl
  | error e => cases e <;> exact .pure rfl

end OnWords

namespace FloatPolicy

/-- **The soft policy never leaves its words.** Computed on words, step by step,
every operation ends without a breach for all patterns, integers and ranges, and
with the bits that unbounded integers give. -/
theorem soft_fits_words :
    (∀ (w : Width) (op : FloatUnary) (a : Pattern w), OnWords.unary op a =
      .ok ((soft.ops w).unary op a)) ∧
    (∀ (w : Width) (op : FloatBinary) (a b : Pattern w), OnWords.binary op a b =
      .ok ((soft.ops w).binary op a b)) ∧
    (∀ (w : Width) (op : FloatCompare) (a b : Pattern w), OnWords.compare op a b =
      .ok ((soft.ops w).compare op a b)) ∧
    (∀ (w : Width) (t : IntTarget) (r : Raw), OnWords.convert w t r =
      .ok ((soft.ops w).ofInt t r)) ∧
    (∀ (w : Width) (t : IntTarget) (a : Pattern w), OnWords.truncate t a =
      .ok ((soft.ops w).toInt t a)) ∧
    (∀ (w : Width) (t : IntTarget) (a : Pattern w), OnWords.truncateSat t a =
      .ok ((soft.ops w).toIntSat t a)) ∧
    (∀ a : Pattern .w64, OnWords.demote a = .ok (soft.demote a)) ∧
    ∀ a : Pattern .w32, OnWords.promote a = .ok (soft.promote a) := by
  exact ⟨fun w => OnWords.unary_eq, fun w => OnWords.binary_eq, fun w => OnWords.compare_eq,
    OnWords.convert_eq, fun w => OnWords.truncate_eq, fun w => OnWords.truncateSat_eq,
    OnWords.demote_eq, OnWords.promote_eq⟩

end FloatPolicy

end WasmEngine
