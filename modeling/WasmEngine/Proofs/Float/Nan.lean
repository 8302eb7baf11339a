import WasmEngine.Proofs.Float.Pack

/-!
# The NaN rule

Which NaN an operation returns, and when it returns one at all, is fixed by its
operands (`WasmEngine.Format.NanRule`): the result is a NaN exactly if an
operand is one or the operation is invalid; the first NaN operand comes back
with its quiet bit set and otherwise unchanged; and an invalid operation gives
the canonical NaN. The rule holds of every operation of the soft policy that
computes a value (`WasmEngine.FloatPolicy.soft_nan_rule`).

Behind it are three ways to meet the rule, one for each outcome: a NaN operand,
an invalid operation, a result that is none. That the results of the third kind
are none is where something could go wrong, and there the magnitudes help:
rounding stops at the infinity (`WasmEngine.Format.roundPack_cases`), and adding
a unit to a magnitude carries at most to the next exponent.
-/

namespace WasmEngine

/-- Whether an operation on operands other than NaNs has no value. -/
def FloatBinary.Invalid (op : FloatBinary) (F : Format) (a b : Nat) : Prop :=
  match op with
  | .add => F.isInfinite a ∧ F.isInfinite b ∧ F.negative a ≠ F.negative b
  | .sub => F.isInfinite a ∧ F.isInfinite b ∧ F.negative a = F.negative b
  | .mul => (F.isInfinite a ∧ F.isZero b) ∨ (F.isInfinite b ∧ F.isZero a)
  | .div => (F.isInfinite a ∧ F.isInfinite b) ∨ (F.isZero a ∧ F.isZero b)
  | .min | .max | .copysign => False

@[inherit_doc FloatBinary.Invalid]
def FloatUnary.Invalid (op : FloatUnary) (F : Format) (a : Nat) : Prop :=
  match op with
  | .sqrt => F.negative a ∧ ¬F.isZero a
  | .abs | .neg | .ceil | .floor | .trunc | .nearest => False

namespace Format

/-- **The NaN rule** for the result `r` of an operation. -/
structure NanRule (F : Format) (operands : List Nat) (invalid : Prop) (r : Nat) : Prop where
  /-- The result is a pattern of the format. -/
  lt : r < 2 * F.signBit
  /-- It is a NaN for a NaN operand or an invalid operation, and only then. -/
  isNan_iff : F.isNan r ↔ (∃ a ∈ operands, F.isNan a) ∨ invalid
  /-- Every NaN result is quiet. -/
  quiet : F.isNan r → r.testBit (F.mantBits - 1)
  /-- The first NaN operand comes back, with the quiet bit added. -/
  operand : ∀ a, operands.find? F.isNan = some a → r = a ||| F.quietBit
  /-- Without a NaN operand, a NaN result is the canonical one. -/
  canonical : operands.find? F.isNan = none → F.isNan r → r = F.canonicalNan

/-- A pattern that has a value, possibly infinite. -/
structure Valued (F : Format) (r : Nat) : Prop where
  /-- It is a pattern of the format. -/
  lt : r < 2 * F.signBit
  /-- It is no NaN. -/
  not_nan : F.isNan r = false

variable {F : Format} {operands : List Nat} {invalid : Prop} {r a b p : Nat}

theorem Valued.zero_add (hp : p ≤ F.expMask) (s : Bool) : F.Valued (F.zero s + p) :=
  ⟨zero_add_lt (lt_of_le_of_lt hp F.expMask_lt_signBit), not_isNan_zero_add hp⟩

theorem Valued.zero (s : Bool) : F.Valued (F.zero s) := Valued.zero_add (Nat.zero_le _) s

theorem Valued.infinity (s : Bool) : F.Valued (F.infinity s) := by
  rw [Format.infinity, Nat.add_comm]
  exact Valued.zero_add le_rfl s

theorem Valued.and (ha : a < 2 * F.signBit) (hzero : F.isZero a) : F.Valued (a &&& b) where
  lt := lt_of_le_of_lt Nat.and_le_left ha
  not_nan := by
    rw [isZero_iff] at hzero
    simp [isNan, magnitude_and, hzero]

/-! ### Three ways to meet the rule -/

namespace NanRule

theorem of_invalid (hF : F.Regular) (hn : ∀ a ∈ operands, F.isNan a = false) (hi : invalid) :
    F.NanRule operands invalid F.canonicalNan where
  lt := by have := hF.canonicalNan_lt; omega
  isNan_iff := iff_of_true hF.isNan_canonicalNan (.inr hi)
  quiet _ := hF.testBit_canonicalNan
  operand a ha := absurd (List.find?_some ha) (by simp [hn a (List.mem_of_find?_eq_some ha)])
  canonical _ _ := rfl

theorem of_valued (hn : ∀ a ∈ operands, F.isNan a = false) (hi : ¬invalid) (hr : F.Valued r) :
    F.NanRule operands invalid r where
  lt := hr.lt
  isNan_iff := by
    refine iff_of_false (by simp [hr.not_nan]) ?_
    rintro (⟨a, ha, hnan⟩ | h)
    · simp [hn a ha] at hnan
    · exact hi h
  quiet h := absurd h (by simp [hr.not_nan])
  operand a ha := absurd (List.find?_some ha) (by simp [hn a (List.mem_of_find?_eq_some ha)])
  canonical _ h := absurd h (by simp [hr.not_nan])

theorem of_operand (hF : F.Regular) (hfind : operands.find? F.isNan = some a)
    (ha : a < 2 * F.signBit) : F.NanRule operands invalid (F.quiet a) where
  lt := hF.quiet_lt ha
  isNan_iff := iff_of_true (isNan_quiet (List.find?_some hfind))
    (.inl ⟨a, List.mem_of_find?_eq_some hfind, List.find?_some hfind⟩)
  quiet _ := testBit_quiet a
  operand b hb := by
    obtain rfl : a = b := Option.some_inj.1 (hfind.symm.trans hb)
    rfl
  canonical h := by simp [hfind] at h

/-- The rule for an operation on one operand: only a result for an operand other
than a NaN has to be looked at. -/
theorem of_unary (hF : F.Regular) (ha : a < 2 * F.signBit) (hnan : F.isNan a → r = F.quiet a)
    (hr : F.isNan a = false → (∀ c ∈ [a], F.isNan c = false) → F.NanRule [a] invalid r) :
    F.NanRule [a] invalid r := by
  cases h : F.isNan a with
  | true =>
    rw [hnan h]
    exact of_operand hF (by simp [h]) ha
  | false => exact hr h (by simp [h])

/-- The rule for an operation on two operands that begins with
`Format.propagate`. -/
theorem of_propagate (hF : F.Regular) (ha : a < 2 * F.signBit) (hb : b < 2 * F.signBit)
    (hnan : ∀ nan, F.propagate a b = some nan → r = nan)
    (hr : F.propagate a b = none → (∀ c ∈ [a, b], F.isNan c = false) → F.NanRule [a, b] invalid r) :
    F.NanRule [a, b] invalid r := by
  cases hna : F.isNan a with
  | true =>
    rw [hnan (F.quiet a) (by simp [propagate, hna])]
    exact of_operand hF (by simp [hna]) ha
  | false =>
    cases hnb : F.isNan b with
    | true =>
      rw [hnan (F.quiet b) (by simp [propagate, hna, hnb])]
      exact of_operand hF (by simp [hna, hnb]) hb
    | false => exact hr (by simp [propagate, hna, hnb]) (by simp [hna, hnb])

end NanRule

/-! ### Arithmetic -/

section Arithmetic

theorem add_of_invalid (ha : F.isNan a = false) (hb : F.isNan b = false)
    (hi : FloatBinary.add.Invalid F a b) : F.add a b = F.canonicalNan := by
  have hp : F.propagate a b = none := by simp [propagate, ha, hb]
  simp only [add, hp]
  exact if_pos hi

variable (hF : F.Regular)
include hF

theorem valued_roundPack (s : Bool) (sig : Nat) (exp : Int) (sticky : Bool) :
    F.Valued (F.roundPack s sig exp sticky) :=
  ⟨roundPack_lt hF s sig exp sticky, not_isNan_roundPack hF s sig exp sticky⟩

theorem valued_addAligned (x y : Unpacked) : F.Valued (F.addAligned x y) := by
  simp only [addAligned]
  split_ifs
  · exact valued_roundPack hF ..
  · exact valued_roundPack hF ..
  · exact valued_roundPack hF ..
  · exact Valued.zero false

/-- What addition returns for operands other than NaNs, unless it is invalid. -/
theorem valued_add (ha : F.Valued a) (hb : F.Valued b) (hi : ¬FloatBinary.add.Invalid F a b) :
    F.Valued (F.add a b) := by
  have hp : F.propagate a b = none := by simp [propagate, ha.not_nan, hb.not_nan]
  simp only [add, hp]
  split_ifs with h₁ h₂ h₃ h₄ h₅ h₆ h₇
  · exact absurd h₁ hi
  · exact ha
  · exact hb
  · exact .and ha.lt h₄.1
  · exact hb
  · exact ha
  · exact valued_addAligned hF ..
  · exact valued_addAligned hF ..

variable (ha : a < 2 * F.signBit)
include ha

section Binary

variable (hb : b < 2 * F.signBit)
include hb

theorem nanRule_add : F.NanRule [a, b] (FloatBinary.add.Invalid F a b) (F.add a b) := by
  refine .of_propagate hF ha hb (fun nan h => by simp [add, h]) fun _ hn => ?_
  have hna : F.isNan a = false := hn a (by simp)
  have hnb : F.isNan b = false := hn b (by simp)
  by_cases hi : FloatBinary.add.Invalid F a b
  · rw [add_of_invalid hna hnb hi]
    exact .of_invalid hF hn hi
  · exact .of_valued hn hi (valued_add hF ⟨ha, hna⟩ ⟨hb, hnb⟩ hi)

/-- Subtraction adds the second operand with its sign flipped, but a NaN among
the operands returns with the sign it had. -/
theorem nanRule_sub : F.NanRule [a, b] (FloatBinary.sub.Invalid F a b) (F.sub a b) := by
  refine .of_propagate hF ha hb (fun nan h => by simp [sub, h]) fun hp hn => ?_
  have hna : F.isNan a = false := hn a (by simp)
  have hnb : F.isNan (b ^^^ F.signBit) = false := by
    rw [isNan, magnitude_xor_signBit]
    exact hn b (by simp)
  have hinvalid : FloatBinary.add.Invalid F a (b ^^^ F.signBit) ↔
      FloatBinary.sub.Invalid F a b := by
    simp only [FloatBinary.Invalid, isInfinite, magnitude_xor_signBit, negative_xor_signBit]
    cases F.negative a <;> cases F.negative b <;> simp
  have hsub : F.sub a b = F.add a (b ^^^ F.signBit) := by simp only [sub, hp]
  rw [hsub]
  by_cases hi : FloatBinary.sub.Invalid F a b
  · rw [add_of_invalid hna hnb (hinvalid.2 hi)]
    exact .of_invalid hF hn hi
  · exact .of_valued hn hi (valued_add hF ⟨ha, hna⟩ ⟨xor_signBit_lt hb, hnb⟩ (hinvalid.not.2 hi))

theorem nanRule_mul : F.NanRule [a, b] (FloatBinary.mul.Invalid F a b) (F.mul a b) := by
  refine .of_propagate hF ha hb (fun nan h => by simp [mul, h]) fun hp hn => ?_
  simp only [mul, hp]
  split_ifs with hi h₁ h₂
  · exact .of_invalid hF hn hi
  · exact .of_valued hn hi (.infinity _)
  · exact .of_valued hn hi (.zero _)
  · exact .of_valued hn hi (valued_roundPack hF ..)

theorem nanRule_div : F.NanRule [a, b] (FloatBinary.div.Invalid F a b) (F.div a b) := by
  refine .of_propagate hF ha hb (fun nan h => by simp [div, h]) fun hp hn => ?_
  simp only [div, hp]
  split_ifs with hi h₁ h₂
  · exact .of_invalid hF hn hi
  · exact .of_valued hn hi (.infinity _)
  · exact .of_valued hn hi (.zero _)
  · exact .of_valued hn hi (valued_roundPack hF ..)

end Binary

theorem nanRule_sqrt : F.NanRule [a] (FloatUnary.sqrt.Invalid F a) (F.sqrt a) := by
  refine .of_unary hF ha (fun h => by simp [sqrt, h]) fun hna hn => ?_
  simp only [sqrt, hna, Bool.false_eq_true, if_false]
  split_ifs with hzero hneg hinf
  · exact .of_valued hn (fun hi => hi.2 hzero) ⟨ha, hna⟩
  · exact .of_invalid hF hn ⟨hneg, hzero⟩
  · exact .of_valued hn (fun hi => hneg hi.1) ⟨ha, hna⟩
  · exact .of_valued hn (fun hi => hneg hi.1) (valued_roundPack hF ..)
  · exact .of_valued hn (fun hi => hneg hi.1) (valued_roundPack hF ..)

end Arithmetic

/-! ### Rounding to an integral value -/

/-- Dropping the bits below a unit leaves the sign alone. -/
theorem sub_mod_unit {u : Nat} (ha : a < 2 * F.signBit) (hu : u ∣ F.hiddenBit) :
    a - a % u = F.zero (F.negative a) + (F.magnitude a - F.magnitude a % u) := by
  have hmod : F.magnitude a % u = a % u := by
    rw [magnitude, Nat.mod_mod_of_dvd _ (hu.trans ⟨_, F.signBit_eq_mul⟩)]
  have hsplit := zero_add_magnitude ha
  have := Nat.mod_le (F.magnitude a) u
  omega

/-- A unit more does not take a finite magnitude beyond the infinity. -/
theorem sub_mod_unit_add_le {u : Nat} (hu : u ∣ F.hiddenBit) (hp : p < F.expMask) :
    p - p % u + u ≤ F.expMask := by
  obtain ⟨c, hc⟩ : u ∣ F.expMask := hu.trans ⟨_, Nat.mul_comm ..⟩
  rw [hc] at hp ⊢
  have hlt : p / u + 1 ≤ c := Nat.div_lt_of_lt_mul hp
  calc p - p % u + u = u * (p / u + 1) := by
        have := Nat.div_add_mod p u
        rw [Nat.mul_add, Nat.mul_one]
        omega
    _ ≤ u * c := Nat.mul_le_mul_left u hlt

theorem nanRule_roundToInt (hF : F.Regular) (ha : a < 2 * F.signBit) (mode : Rounding) :
    F.NanRule [a] False (F.roundToInt mode a) := by
  refine .of_unary hF ha (fun h => by simp [roundToInt, h]) fun hna hn => .of_valued hn id ?_
  simp only [roundToInt, hna, Bool.false_eq_true, if_false]
  split_ifs with hspecial hintegral hsmall haway hexact haway
  · exact ⟨ha, hna⟩
  · exact ⟨ha, hna⟩
  · refine .zero_add (Nat.mul_le_mul_right _ ?_) _
    have := hF.maxExp_eq
    omega
  · exact .zero_add (Nat.zero_le _) _
  · exact ⟨ha, hna⟩
  all_goals
    have hu : 1 <<< (F.bias + F.mantBits - F.biasedExp a) ∣ F.hiddenBit := by
      rw [hiddenBit_eq, Nat.one_shiftLeft]
      exact Nat.pow_dvd_pow 2 (by omega)
    rw [sub_mod_unit ha hu]
  · -- the unit is added to the magnitude
    have hfinite : F.magnitude a < F.expMask := by
      simp only [isNan, isInfinite, decide_eq_false_iff_not] at hna hspecial
      grind
    rw [Nat.add_assoc]
    exact .zero_add (sub_mod_unit_add_le hu hfinite) _
  · refine .zero_add ?_ _
    simp only [isNan, decide_eq_false_iff_not] at hna
    omega

/-! ### Building a NaN from its parts -/

section Parts

variable {m : Nat} (hF : F.Regular) (hm : m < F.hiddenBit)
include hF hm

theorem quiet_expMask_add : F.quiet (F.expMask + m) = F.expMask + (m ||| F.quietBit) := by
  have hq := hF.quietBit_lt
  rw [hiddenBit_eq] at hm hq
  rw [quiet, expMask, hiddenBit_eq, Nat.mul_comm, Nat.two_pow_add_eq_or_of_lt hm, Nat.or_assoc,
    ← Nat.two_pow_add_eq_or_of_lt (Nat.or_lt_two_pow hm hq)]

theorem or_quietBit_lt : m ||| F.quietBit < F.hiddenBit := by
  have hq := hF.quietBit_lt
  rw [hiddenBit_eq] at hm hq ⊢
  exact Nat.or_lt_two_pow hm hq

theorem quiet_expMask_add_lt : F.quiet (F.expMask + m) < F.signBit := by
  have := or_quietBit_lt hF hm
  have := F.expMask_add_hiddenBit
  rw [quiet_expMask_add hF hm]
  omega

theorem isNan_zero_add_quiet (s : Bool) : F.isNan (F.zero s + F.quiet (F.expMask + m)) := by
  have hpos : 0 < F.quietBit := by
    have := hF.two_mul_quietBit
    have := F.hiddenBit_pos
    omega
  have : F.quietBit ≤ m ||| F.quietBit := Nat.right_le_or
  rw [isNan_iff, magnitude_zero_add (quiet_expMask_add_lt hF hm), quiet_expMask_add hF hm]
  omega

/-- The payload of a quieted NaN, the quiet bit included. -/
theorem testBit_zero_add_quiet (s : Bool) {i : Nat} (hi : i < F.mantBits) :
    (F.zero s + F.quiet (F.expMask + m)).testBit i =
    (m.testBit i || decide (F.mantBits - 1 = i)) := by
  have hmantissa : F.mantissa (F.zero s + F.quiet (F.expMask + m)) = m ||| F.quietBit := by
    rw [mantissa_eq, magnitude_zero_add (quiet_expMask_add_lt hF hm), quiet_expMask_add hF hm,
      expMask, Nat.mul_add_mod', Nat.mod_eq_of_lt (or_quietBit_lt hF hm)]
  rw [← testBit_mantissa hi, hmantissa, Nat.testBit_or, quietBit, Nat.one_shiftLeft,
    Nat.testBit_two_pow]

end Parts

end Format

/-! ### The smaller and the larger of two -/

namespace FloatOps

variable {w : Width} (ops : FloatOps w) (a b : Pattern w)

/-- The rule for a choice between the operands, however it is made, that begins
with `Format.propagate`. -/
theorem nanRule_of_choice {r : Pattern w}
    (hnan : ∀ nan, w.format.propagate a.toNat b.toNat = some nan → r = BitVec.ofNat _ nan)
    (hr : w.format.propagate a.toNat b.toNat = none →
      r = a ∨ r = b ∨ (w.format.isZero a.toNat ∧ w.format.isZero b.toNat ∧
        (r = a ||| b ∨ r = a &&& b))) :
    w.format.NanRule [a.toNat, b.toNat] False r.toNat := by
  have ha := Width.toNat_lt a
  have hb := Width.toNat_lt b
  refine .of_propagate w.regular ha hb (fun nan h => ?_) fun h hn => .of_valued hn id
    ⟨Width.toNat_lt r, ?_⟩
  · have hlt : nan < 2 * w.format.signBit := by
      simp only [Format.propagate] at h
      split_ifs at h
      · exact Option.some_inj.1 h ▸ w.regular.quiet_lt ha
      · exact Option.some_inj.1 h ▸ w.regular.quiet_lt hb
    rw [hnan nan h, Width.toNat_ofNat hlt]
  · have hna : w.format.isNan a.toNat = false := hn _ (by simp)
    have hnb : w.format.isNan b.toNat = false := hn _ (by simp)
    obtain rfl | rfl | ⟨hza, hzb, rfl | rfl⟩ := hr h
    · exact hna
    · exact hnb
    · rw [Format.isZero_iff] at hza hzb
      simp [Format.isNan, Format.magnitude_or, hza, hzb]
    · exact (Format.Valued.and ha hza).not_nan

theorem nanRule_min : w.format.NanRule [a.toNat, b.toNat] False (ops.min a b).toNat := by
  refine nanRule_of_choice a b (fun nan h => by simp [min, h]) fun h => ?_
  simp only [min, h]
  split_ifs with hzero
  · exact .inr (.inr ⟨hzero.1, hzero.2, .inl rfl⟩)
  · exact .inl rfl
  · exact .inr (.inl rfl)

theorem nanRule_max : w.format.NanRule [a.toNat, b.toNat] False (ops.max a b).toNat := by
  refine nanRule_of_choice a b (fun nan h => by simp [max, h]) fun h => ?_
  simp only [max, h]
  split_ifs with hzero
  · exact .inr (.inr ⟨hzero.1, hzero.2, .inr rfl⟩)
  · exact .inl rfl
  · exact .inr (.inl rfl)

theorem nanRule_lift₂ {f : Nat → Nat → Nat} {invalid : Prop}
    (hf : w.format.NanRule [a.toNat, b.toNat] invalid (f a.toNat b.toNat)) :
    w.format.NanRule [a.toNat, b.toNat] invalid (lift₂ w f a b).toNat := by
  rwa [lift₂, Width.toNat_ofNat hf.lt]

theorem nanRule_lift {f : Nat → Nat} {invalid : Prop}
    (hf : w.format.NanRule [a.toNat] invalid (f a.toNat)) :
    w.format.NanRule [a.toNat] invalid (lift w f a).toNat := by
  rwa [lift, Width.toNat_ofNat hf.lt]

/-- The rule for all operations on two operands that compute a value. -/
theorem nanRule_binary_soft {op : FloatBinary} (hop : op ≠ .copysign) :
    w.format.NanRule [a.toNat, b.toNat] (op.Invalid w.format a.toNat b.toNat)
      ((soft w).binary op a b).toNat := by
  have hF := w.regular
  have ha := Width.toNat_lt a
  have hb := Width.toNat_lt b
  cases op with
  | add => exact nanRule_lift₂ a b (Format.nanRule_add hF ha hb)
  | sub => exact nanRule_lift₂ a b (Format.nanRule_sub hF ha hb)
  | mul => exact nanRule_lift₂ a b (Format.nanRule_mul hF ha hb)
  | div => exact nanRule_lift₂ a b (Format.nanRule_div hF ha hb)
  | min => exact nanRule_min _ a b
  | max => exact nanRule_max _ a b
  | copysign => exact absurd rfl hop

/-- The rule for all operations on one operand that compute a value. -/
theorem nanRule_unary_soft {op : FloatUnary} (habs : op ≠ .abs) (hneg : op ≠ .neg) :
    w.format.NanRule [a.toNat] (op.Invalid w.format a.toNat) ((soft w).unary op a).toNat := by
  have hF := w.regular
  have ha := Width.toNat_lt a
  cases op with
  | abs => exact absurd rfl habs
  | neg => exact absurd rfl hneg
  | ceil => exact nanRule_lift a (Format.nanRule_roundToInt hF ha .ceil)
  | floor => exact nanRule_lift a (Format.nanRule_roundToInt hF ha .floor)
  | trunc => exact nanRule_lift a (Format.nanRule_roundToInt hF ha .trunc)
  | nearest => exact nanRule_lift a (Format.nanRule_roundToInt hF ha .nearest)
  | sqrt => exact nanRule_lift a (Format.nanRule_sqrt hF ha)

end FloatOps

/-! ### NaNs across formats -/

/-- **The NaN rule** for a 64-bit float at 32 bits. -/
structure DemotesNan (a : Pattern .w64) (r : Pattern .w32) : Prop where
  /-- A NaN becomes a NaN, and nothing else does. -/
  isNan_eq : Format.f32.isNan r.toNat = Format.f64.isNan a.toNat
  /-- A NaN keeps its sign. -/
  sign : Format.f64.isNan a.toNat → r.msb = a.msb
  /-- The upper payload bits are kept. -/
  payload : Format.f64.isNan a.toNat → ∀ i < 22, r.getLsbD i = a.getLsbD (i + 29)
  /-- The quiet bit is set. -/
  quiet : Format.f64.isNan a.toNat → r.getLsbD 22

/-- **The NaN rule** for a 32-bit float at 64 bits. -/
structure PromotesNan (a : Pattern .w32) (r : Pattern .w64) : Prop where
  /-- A NaN becomes a NaN, and nothing else does. -/
  isNan_eq : Format.f64.isNan r.toNat = Format.f32.isNan a.toNat
  /-- A NaN keeps its sign. -/
  sign : Format.f32.isNan a.toNat → r.msb = a.msb
  /-- All payload bits are kept. -/
  payload : Format.f32.isNan a.toNat → ∀ i < 22, r.getLsbD (i + 29) = a.getLsbD i
  /-- The new payload bits are zero. -/
  low : Format.f32.isNan a.toNat → ∀ i < 29, r.getLsbD i = false
  /-- The quiet bit is set. -/
  quiet : Format.f32.isNan a.toNat → r.getLsbD 51

/-- A NaN put together from a sign and a payload has that sign, and that payload
with the quiet bit. -/
theorem nan_parts {w : Width} {r : Pattern w} {s : Bool} {m : Nat} (hm : m < w.format.hiddenBit)
    (hr : r = BitVec.ofNat _ (w.format.zero s + w.format.quiet (w.format.expMask + m))) :
    w.format.isNan r.toNat ∧ r.msb = s ∧
      ∀ {i}, i < w.format.mantBits → r.getLsbD i =
      (m.testBit i || decide (w.format.mantBits - 1 = i)) := by
  have hlt := Format.quiet_expMask_add_lt w.regular hm
  have htoNat : r.toNat = _ := hr ▸ Width.toNat_ofNat (Format.zero_add_lt hlt)
  rw [← Width.negative_toNat, htoNat]
  refine ⟨Format.isNan_zero_add_quiet w.regular hm _, Format.negative_zero_add hlt _, fun hi => ?_⟩
  rw [← BitVec.testBit_toNat, htoNat, Format.testBit_zero_add_quiet w.regular hm _ hi]

section Demote

variable (a : Pattern .w64)

theorem valued_softDemote (hna : Format.f64.isNan a.toNat = false) :
    Format.f32.Valued (softDemote a.toNat) := by
  simp only [softDemote, hna, Bool.false_eq_true, if_false]
  split_ifs
  · exact .infinity _
  · exact .zero _
  · exact Format.valued_roundPack Width.w32.regular ..

theorem demotesNan_soft : DemotesNan a (FloatPolicy.soft.demote a) := by
  cases hna : Format.f64.isNan a.toNat with
  | false =>
    have hr := valued_softDemote a hna
    have htoNat : (FloatPolicy.soft.demote a).toNat = softDemote a.toNat :=
      Width.toNat_ofNat (w := .w32) hr.lt
    exact ⟨by rw [htoNat, hr.not_nan, hna], by simp [hna], by simp [hna], by simp [hna]⟩
  | true =>
    have hm : Format.f64.mantissa a.toNat >>> 29 < Format.f32.hiddenBit := by
      rw [Nat.shiftRight_eq_div_pow]
      exact Nat.div_lt_of_lt_mul (Nat.mod_lt _ (by decide))
    have hsoft : FloatPolicy.soft.demote a = BitVec.ofNat 32 (demoteNan a.toNat) :=
      congrArg (BitVec.ofNat 32) (if_pos hna)
    obtain ⟨hnan, hsign, hbits⟩ := nan_parts (w := .w32) hm hsoft
    have hbit {i : Nat} (hi : i < 23) : (FloatPolicy.soft.demote a).getLsbD i =
        (a.getLsbD (i + 29) || decide (22 = i)) := by
      have hi' : 29 + i < Format.f64.mantBits := Nat.add_lt_add_left hi 29
      rw [hbits hi, Nat.testBit_shiftRight, Format.testBit_mantissa hi',
        BitVec.testBit_toNat, Nat.add_comm 29]
      rfl
    refine ⟨hnan.trans hna.symm, fun _ => hsign.trans (Width.negative_toNat a),
      fun _ i hi => ?_, fun _ => ?_⟩
    · rw [hbit (by omega), decide_eq_false (by omega), Bool.or_false]
    · rw [hbit (by omega), decide_eq_true rfl, Bool.or_true]

end Demote

section Promote

variable (a : Pattern .w32)

theorem valued_softPromote (hna : Format.f32.isNan a.toNat = false) :
    Format.f64.Valued (softPromote a.toNat) := by
  simp only [softPromote, hna, Bool.false_eq_true, if_false]
  split_ifs
  · exact .infinity _
  · exact .zero _
  · exact Format.valued_roundPack Width.w64.regular ..

theorem promotesNan_soft : PromotesNan a (FloatPolicy.soft.promote a) := by
  cases hna : Format.f32.isNan a.toNat with
  | false =>
    have hr := valued_softPromote a hna
    have htoNat : (FloatPolicy.soft.promote a).toNat = softPromote a.toNat :=
      Width.toNat_ofNat (w := .w64) hr.lt
    exact ⟨by rw [htoNat, hr.not_nan, hna], by simp [hna], by simp [hna],
      by simp [hna], by simp [hna]⟩
  | true =>
    have hm : Format.f32.mantissa a.toNat <<< 29 < Format.f64.hiddenBit := by
      have hwide : Format.f64.hiddenBit = Format.f32.hiddenBit * 2 ^ 29 := by decide
      rw [Nat.shiftLeft_eq, hwide]
      exact Nat.mul_lt_mul_of_pos_right (Nat.mod_lt _ Format.f32.hiddenBit_pos) (Nat.two_pow_pos 29)
    have hsoft : FloatPolicy.soft.promote a = BitVec.ofNat 64 (promoteNan a.toNat) :=
      congrArg (BitVec.ofNat 64) (if_pos hna)
    obtain ⟨hnan, hsign, hbits⟩ := nan_parts (w := .w64) hm hsoft
    have hbit {i : Nat} (hi : i < 52) : (FloatPolicy.soft.promote a).getLsbD i =
        (decide (29 ≤ i) && a.getLsbD (i - 29) || decide (51 = i)) := by
      have hi' : i - 29 < Format.f32.mantBits := by
        change i - 29 < 23
        omega
      rw [hbits hi, Nat.testBit_shiftLeft, Format.testBit_mantissa hi', BitVec.testBit_toNat]
      rfl
    refine ⟨hnan.trans hna.symm, fun _ => hsign.trans (Width.negative_toNat a), fun _ i hi => ?_,
      fun _ i hi => ?_, fun _ => ?_⟩
    · rw [hbit (by omega), decide_eq_true (by omega), decide_eq_false (by omega), Bool.or_false,
        Bool.true_and, Nat.add_sub_cancel]
    · rw [hbit (by omega), decide_eq_false (by omega), decide_eq_false (by omega),
        Bool.or_false, Bool.false_and]
    · rw [hbit (by omega), decide_eq_true rfl, Bool.or_true]

end Promote

/-- **The NaN rule holds of every operation of the soft policy**: of those on
one and on two operands, except for the ones that only touch the sign, and of
the changes of width. -/
theorem FloatPolicy.soft_nan_rule :
    (∀ (w : Width) (op : FloatBinary) (a b : Pattern w), op ≠ .copysign →
      w.format.NanRule [a.toNat, b.toNat] (op.Invalid w.format a.toNat b.toNat)
        ((soft.ops w).binary op a b).toNat) ∧
    (∀ (w : Width) (op : FloatUnary) (a : Pattern w), op ≠ .abs → op ≠ .neg →
      w.format.NanRule [a.toNat] (op.Invalid w.format a.toNat) ((soft.ops w).unary op a).toNat) ∧
    (∀ a, DemotesNan a (soft.demote a)) ∧ (∀ a, PromotesNan a (soft.promote a)) :=
  ⟨fun _ _ a b hop => FloatOps.nanRule_binary_soft a b hop, fun _ _ a habs hneg =>
    FloatOps.nanRule_unary_soft a habs hneg, demotesNan_soft, promotesNan_soft⟩

/-- Subtracting a signalling NaN of negative sign from an infinity gives that
NaN, its sign not flipped; and the root of a negative number is the canonical
NaN. -/
theorem FloatPolicy.soft_nan_rule_signalling :
    FloatBinary.sub ≠ .copysign ∧
    ((soft.ops .w32).binary .sub 0x7f800000#32 0xff812345#32).toNat = 0xffc12345 ∧
    FloatUnary.sqrt ≠ .abs ∧ FloatUnary.sqrt ≠ .neg ∧
      (soft.ops .w64).unary .sqrt 0xbff0000000000000#64 = 0x7ff8000000000000#64 :=
  have hsqrt := soft_nan_rule.2.1 .w64 .sqrt 0xbff0000000000000#64 (by decide) (by decide)
  ⟨by decide, (soft_nan_rule.1 .w32 .sub 0x7f800000#32 0xff812345#32 (by decide)).operand 0xff812345
    rfl, by decide, by
    decide, BitVec.eq_of_toNat_eq
    (hsqrt.canonical rfl (hsqrt.isNan_iff.2 (.inr ⟨by decide, by decide⟩)))⟩

end WasmEngine
