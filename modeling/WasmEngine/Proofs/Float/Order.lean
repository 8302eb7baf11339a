import WasmEngine.Proofs.Float.Closest

/-!
# The order of floats

Comparisons look at patterns, and decide the order of exact values
(`WasmEngine.FloatPolicy.soft_compares_values`): infinities are at the ends, the
two zeros are equal, and a NaN differs from everything and is in no order with
anything.

The smaller and the larger of two floats go by a finer order, in which the
negative zero is below the positive one (`WasmEngine.Format.Below`). This order
tells all patterns apart that are no NaNs: it is that of integers, by the
**rank** of a pattern (`WasmEngine.Format.below_iff`), which counts magnitudes
upwards from the positive zero and downwards from the negative one. With ranks
the three regimes of `WasmEngine.FloatOps.min`, for NaNs, for zeros and for all
else, become two: a NaN, quieted, or the operand of least rank
(`WasmEngine.FloatOps.soft_min_eq`). The larger one is the same with ranks
negated, so that the laws of both
(`WasmEngine.FloatPolicy.soft_min_max_lattice`) are proved once.
-/

namespace WasmEngine

/-- A pattern that is no NaN. -/
abbrev Number (w : Width) := {a : Pattern w // w.format.isNan a.toNat = false}

namespace Format

variable {F : Format} {a b : Nat}

/-! ### Comparisons -/

/-- **What the comparisons of two patterns have to be.** -/
structure Compares (F : Format) (a b : Nat) (r : FloatCompare → Bool) : Prop where
  /-- Values are equal as numbers. -/
  eq : F.isNan a = false → F.isNan b = false → (r .eq ↔ F.extended a = F.extended b)
  /-- Values are unequal as numbers. -/
  ne : F.isNan a = false → F.isNan b = false → (r .ne ↔ F.extended a ≠ F.extended b)
  /-- Values are ordered as numbers. -/
  lt : F.isNan a = false → F.isNan b = false → (r .lt ↔ F.extended a < F.extended b)
  /-- Values are ordered as numbers, the other way round. -/
  gt : F.isNan a = false → F.isNan b = false → (r .gt ↔ F.extended b < F.extended a)
  /-- Values are ordered as numbers, or equal. -/
  le : F.isNan a = false → F.isNan b = false → (r .le ↔ F.extended a ≤ F.extended b)
  /-- Values are ordered as numbers the other way round, or equal. -/
  ge : F.isNan a = false → F.isNan b = false → (r .ge ↔ F.extended b ≤ F.extended a)
  /-- Of less, equal and greater exactly one holds. -/
  trichotomy : F.isNan a = false → F.isNan b = false → ∃! op,
    (op = .lt ∨ op = .eq ∨ op = .gt) ∧ r op
  /-- A NaN is unequal to everything, and all other comparisons with it fail. -/
  unordered : F.isNan a ∨ F.isNan b → ∀ op, r op = decide (op = .ne)

theorem extended_zero (hF : F.Regular) (s : Bool) : F.extended (F.zero s) = 0 := by
  have hzero : F.isZero (F.zero s) := by simp [isZero_iff]
  have hinf : ¬F.isInfinite (F.zero s) := by
    rw [isInfinite_iff, magnitude_zero]
    exact hF.expMask_pos.ne
  rw [extended, if_neg hinf, value_eq_zero_iff.2 hzero, EReal.coe_zero]

theorem extended_infinity (s : Bool) : F.extended (F.infinity s) = if s then ⊥ else ⊤ := by
  rw [extended, if_pos (by simp [isInfinite_iff]), negative_infinity]

end Format

namespace FloatOps

variable {w : Width} (a b : Pattern w)

/-- **The comparisons decide the order of exact values.** -/
theorem soft_compares : w.format.Compares a.toNat b.toNat fun op => (soft w).compare op a b := by
  have hF := w.regular
  have ha := Width.toNat_lt a
  have hb := Width.toNat_lt b
  have heq := Format.eq_iff ha hb hF
  have hlt := Format.lt_iff ha hb hF
  have hgt := Format.lt_iff hb ha hF
  have hle := Format.le_iff ha hb hF
  have hge := Format.le_iff hb ha hF
  simp only [compare, soft]
  refine ⟨fun hna hnb => ?_, fun hna hnb => ?_, fun hna hnb => ?_, fun hna hnb => ?_,
    fun hna hnb => ?_, fun hna hnb => ?_, fun hna hnb => ?_, fun hnan op => ?_⟩
  · rw [heq, and_iff_right hna, and_iff_right hnb]
  · rw [Bool.not_eq_true', ← Bool.not_eq_true, heq, and_iff_right hna, and_iff_right hnb]
  · rw [hlt, and_iff_right hna, and_iff_right hnb]
  · rw [hgt, and_iff_right hnb, and_iff_right hna]
  · rw [hle, and_iff_right hna, and_iff_right hnb]
  · rw [hge, and_iff_right hnb, and_iff_right hna]
  · rw [and_iff_right hna, and_iff_right hnb] at heq hlt
    rw [and_iff_right hnb, and_iff_right hna] at hgt
    obtain h | h | h := lt_trichotomy (w.format.extended a.toNat) (w.format.extended b.toNat)
    · refine ⟨.lt, ⟨.inl rfl, hlt.2 h⟩, ?_⟩
      rintro op ⟨rfl | rfl | rfl, hop⟩
      exacts [rfl, absurd (heq.1 hop) h.ne, absurd (hgt.1 hop) h.not_gt]
    · refine ⟨.eq, ⟨.inr (.inl rfl), heq.2 h⟩, ?_⟩
      rintro op ⟨rfl | rfl | rfl, hop⟩
      exacts [absurd (hlt.1 hop) h.not_lt, rfl, absurd (hgt.1 hop) h.not_gt]
    · refine ⟨.gt, ⟨.inr (.inr rfl), hgt.2 h⟩, ?_⟩
      rintro op ⟨rfl | rfl | rfl, hop⟩
      exacts [absurd (hlt.1 hop) h.not_gt, absurd (heq.1 hop) h.ne', rfl]
  · -- Each test begins by refusing NaNs, so all fail alike, whichever operand is looked at first.
    have hnot {p : Prop} :
        ¬(w.format.isNan a.toNat = false ∧ w.format.isNan b.toNat = false ∧ p) := by
      rintro ⟨hna, hnb, -⟩
      simp [hna, hnb] at hnan
    have hnot' {p : Prop} :
        ¬(w.format.isNan b.toNat = false ∧ w.format.isNan a.toNat = false ∧ p) := fun h =>
      hnot ⟨h.2.1, h.1, h.2.2⟩
    cases op with
    | eq | ne => simpa using heq.not.2 hnot
    | lt => simpa using hlt.not.2 hnot
    | gt => simpa using hgt.not.2 hnot'
    | le => simpa using hle.not.2 hnot
    | ge => simpa using hge.not.2 hnot'

end FloatOps

/-- **Comparisons decide the order of exact values**, at both widths and for all
patterns: the zeros are equal, and the infinities are at the ends. So `le` is a
total preorder of the patterns that are no NaNs. -/
theorem FloatPolicy.soft_compares_values (w : Width) :
    (∀ a b : Pattern w, w.format.Compares a.toNat b.toNat fun op => (soft.ops w).compare op a b) ∧
      (∀ s, w.format.extended (w.format.zero s) = 0) ∧
      (∀ s, w.format.extended (w.format.infinity s) = if s then ⊥ else ⊤) ∧
      IsPreorder (Number w) (fun a b => (soft.ops w).compare .le a.1 b.1) ∧
      Std.Total (fun a b : Number w => (soft.ops w).compare .le a.1 b.1 = true) := by
  have hle (a b : Number w) : (soft.ops w).compare .le a.1 b.1 ↔
      w.format.extended a.1.toNat ≤ w.format.extended b.1.toNat :=
    (FloatOps.soft_compares a.1 b.1).le a.2 b.2
  refine ⟨FloatOps.soft_compares, Format.extended_zero w.regular, Format.extended_infinity, ?_, ?_⟩
  · exact {
      refl := fun a => (hle a a).2 le_rfl,
      trans := fun a b c hab hbc => (hle a c).2 (((hle a b).1 hab).trans ((hle b c).1 hbc)) }
  · exact ⟨fun a b => (le_total _ _).imp (hle a b).2 (hle b a).2⟩

/-! ### Ranks -/

namespace Format

variable {F : Format} {a b : Nat}

/-- **The order of values in which the negative zero is below the positive one.** -/
def Below (F : Format) (a b : Nat) : Prop :=
  F.extended a < F.extended b ∨ (F.extended a = F.extended b ∧ (F.negative b → F.negative a))

/-- The place of a pattern in that order. -/
def rank (F : Format) (a : Nat) : Int :=
  if F.negative a then -(F.magnitude a : Int) - 1 else F.magnitude a

/-- A pattern has its own rank. -/
theorem rank_injective (ha : a < 2 * F.signBit) (hb : b < 2 * F.signBit)
    (h : F.rank a = F.rank b) : a = b := by
  simp only [rank] at h
  refine eq_of_magnitude ha hb ?_ ?_
  · cases hna : F.negative a <;> cases hnb : F.negative b <;> simp [hna, hnb] at h ⊢ <;> omega
  · split_ifs at h <;> omega

/-- Quanta are ordered as ranks are, except that they do not tell the zeros
apart. -/
theorem signedUnits_lt_or_iff (a b : Nat) :
    F.signedUnits a < F.signedUnits b ∨
    (F.signedUnits a = F.signedUnits b ∧ (F.negative b → F.negative a)) ↔ F.rank a ≤ F.rank b := by
  have hab : F.units (F.magnitude a) < F.units (F.magnitude b) ↔ F.magnitude a < F.magnitude b :=
    units_strictMono.lt_iff_lt
  have hba : F.units (F.magnitude b) < F.units (F.magnitude a) ↔ F.magnitude b < F.magnitude a :=
    units_strictMono.lt_iff_lt
  simp only [signedUnits, rank]
  cases F.negative a <;> cases F.negative b <;> simp <;> omega

theorem below_iff (hF : F.Regular) (ha : F.isNan a = false) (hb : F.isNan b = false) : F.Below a b ↔
    F.rank a ≤ F.rank b := by
  rw [Below, extended_lt_iff hF ha hb, extended_inj_iff hF ha hb, signedUnits_lt_or_iff]

/-- The order of values is that of ranks, unless both are zero. -/
theorem signedUnits_lt_iff_rank (h : ¬(F.isZero a ∧ F.isZero b)) :
    F.signedUnits a < F.signedUnits b ↔ F.rank a < F.rank b := by
  have hab : F.units (F.magnitude a) < F.units (F.magnitude b) ↔ F.magnitude a < F.magnitude b :=
    units_strictMono.lt_iff_lt
  have hba : F.units (F.magnitude b) < F.units (F.magnitude a) ↔ F.magnitude b < F.magnitude a :=
    units_strictMono.lt_iff_lt
  have hza := F.units_eq_zero_iff (p := F.magnitude a)
  have hzb := F.units_eq_zero_iff (p := F.magnitude b)
  rw [isZero_iff, isZero_iff] at h
  simp only [signedUnits, rank]
  cases F.negative a <;> cases F.negative b <;> simp <;> omega

theorem negative_or (a b : Nat) : F.negative (a ||| b) = (F.negative a || F.negative b) := by
  rw [negative_eq_testBit, negative_eq_testBit, negative_eq_testBit, Nat.testBit_or]

theorem quiet_quiet (a : Nat) : F.quiet (F.quiet a) = F.quiet a := by
  rw [quiet, quiet, Nat.or_assoc, Nat.or_self]

end Format

/-! ### The operand of least rank -/

namespace FloatOps

variable {w : Width}

/-- The pattern with its quiet bit set. -/
def quieted (a : Pattern w) : Pattern w := BitVec.ofNat _ (w.format.quiet a.toNat)

/-- **The first NaN, quieted, or else the operand of least rank**, the first of
two. -/
def least (rank : Pattern w → Int) (a b : Pattern w) : Pattern w :=
  if w.format.isNan a.toNat then quieted a
  else if w.format.isNan b.toNat then quieted b
  else if rank a ≤ rank b then a else b

theorem toNat_quieted (a : Pattern w) : (quieted a).toNat = w.format.quiet a.toNat :=
  Width.toNat_ofNat (w.regular.quiet_lt (Width.toNat_lt a))

theorem isNan_quieted {a : Pattern w} (h : w.format.isNan a.toNat) :
    w.format.isNan (quieted a).toNat := by
  rw [toNat_quieted]
  exact Format.isNan_quiet h

theorem quieted_quieted (a : Pattern w) : quieted (quieted a) = quieted a := by
  rw [quieted, toNat_quieted, Format.quiet_quiet]
  rfl

section Least

variable {rank : Pattern w → Int}

theorem least_of_nan_left {a : Pattern w} (h : w.format.isNan a.toNat) (b : Pattern w) :
    least rank a b = quieted a := if_pos h

theorem least_of_nan_right {a b : Pattern w} (ha : w.format.isNan a.toNat = false)
    (hb : w.format.isNan b.toNat) : least rank a b = quieted b := by
  rw [least, if_neg (by simp [ha]), if_pos hb]

theorem least_of_numbers {a b : Pattern w} (ha : w.format.isNan a.toNat = false)
    (hb : w.format.isNan b.toNat = false) : least rank a b = if rank a ≤ rank b then a else b := by
  rw [least, if_neg (by simp [ha]), if_neg (by simp [hb])]

theorem least_not_nan {a b : Pattern w} (ha : w.format.isNan a.toNat = false)
    (hb : w.format.isNan b.toNat = false) : w.format.isNan (least rank a b).toNat = false := by
  rw [least_of_numbers ha hb]
  split
  exacts [ha, hb]

/-- On values it is associative as the least of integers is, and the first NaN
stays the first. -/
theorem least_assoc (a b c : Pattern w) : least rank (least rank a b) c =
    least rank a (least rank b c) := by
  cases ha : w.format.isNan a.toNat with
  | true =>
    rw [least_of_nan_left ha, least_of_nan_left (isNan_quieted ha),
      least_of_nan_left ha, quieted_quieted]
  | false =>
    cases hb : w.format.isNan b.toNat with
    | true =>
      rw [least_of_nan_right ha hb, least_of_nan_left hb, least_of_nan_left (isNan_quieted hb),
        least_of_nan_right ha (isNan_quieted hb), quieted_quieted]
    | false =>
      cases hc : w.format.isNan c.toNat with
      | true =>
        rw [least_of_nan_right hb hc, least_of_nan_right ha (isNan_quieted hc),
          least_of_nan_right (least_not_nan ha hb) hc, quieted_quieted]
      | false =>
        rw [least_of_numbers (least_not_nan ha hb) hc, least_of_numbers ha (least_not_nan hb hc),
          least_of_numbers ha hb, least_of_numbers hb hc]
        grind

theorem least_self (a : Pattern w) :
    least rank a a = if w.format.isNan a.toNat then quieted a else a := by
  rw [least]
  split_ifs <;> rfl

end Least

/-- **What the smaller of two floats has to be**, in an order `R` of patterns. -/
structure Extremal (R : Nat → Nat → Prop) (f : Pattern w → Pattern w → Pattern w) : Prop where
  /-- Of two values it is one, bit for bit. -/
  choice : ∀ a b : Number w, f a b = a ∨ f a b = b
  /-- It is at most the first. -/
  left : ∀ a b : Number w, R (f a b).toNat a.1.toNat
  /-- It is at most the second. -/
  right : ∀ a b : Number w, R (f a b).toNat b.1.toNat
  /-- What is at most both is at most the result. -/
  greatest : ∀ a b c : Number w, R c.1.toNat a.1.toNat → R c.1.toNat b.1.toNat →
    R c.1.toNat (f a b).toNat
  /-- The order of two values does not matter. -/
  comm : ∀ a b : Number w, f a b = f b a
  /-- The order in which three are compared does not matter, NaNs included. -/
  assoc : ∀ a b c, f (f a b) c = f a (f b c)
  /-- A value compared with itself is returned. -/
  self : ∀ a : Number w, f a a = a
  /-- A NaN compared with itself is returned with its quiet bit set. -/
  self_nan : ∀ a, w.format.isNan a.toNat → (f a a).toNat = w.format.quiet a.toNat

/-- The operand of least rank is the smaller one in the order that the ranks
give. -/
theorem least_extremal {R : Nat → Nat → Prop} {rank : Pattern w → Int}
    (hinj : Function.Injective rank)
    (hR : ∀ a b : Number w, R a.1.toNat b.1.toNat ↔ rank a ≤ rank b) :
    Extremal R (least (w := w) rank) where
  choice a b := by
    rw [least_of_numbers a.2 b.2]
    split_ifs
    exacts [.inl rfl, .inr rfl]
  left a b := by
    refine (hR ⟨_, least_not_nan a.2 b.2⟩ a).2 ?_
    simp only [least_of_numbers a.2 b.2]
    split_ifs <;> omega
  right a b := by
    refine (hR ⟨_, least_not_nan a.2 b.2⟩ b).2 ?_
    simp only [least_of_numbers a.2 b.2]
    split_ifs <;> omega
  greatest a b c hca hcb := by
    rw [least_of_numbers a.2 b.2]
    split_ifs
    exacts [hca, hcb]
  comm a b := by
    rw [least_of_numbers a.2 b.2, least_of_numbers b.2 a.2]
    split_ifs
    · exact hinj (by omega)
    · rfl
    · rfl
    · omega
  assoc := least_assoc
  self a := by
    rw [least_self, if_neg (by simp [a.2])]
  self_nan a ha := by
    rw [least_self, if_pos ha, toNat_quieted]

/-! ### The smaller and the larger of two -/

/-- A choice between two floats that begins with `Format.propagate`. -/
theorem eq_least {rank : Pattern w → Int} {a b r : Pattern w}
    (hnan : ∀ nan, w.format.propagate a.toNat b.toNat = some nan → r = BitVec.ofNat _ nan)
    (hr : w.format.isNan a.toNat = false → w.format.isNan b.toNat = false →
      w.format.propagate a.toNat b.toNat = none →
      r = if rank a ≤ rank b then a else b) :
    r = least rank a b := by
  cases ha : w.format.isNan a.toNat with
  | true => rw [least_of_nan_left ha, hnan _ (by rw [Format.propagate, if_pos ha]), quieted]
  | false =>
    cases hb : w.format.isNan b.toNat with
    | true =>
      rw [least_of_nan_right ha hb,
        hnan (w.format.quiet b.toNat) (by simp [Format.propagate, ha, hb]), quieted]
    | false => rw [least_of_numbers ha hb, hr ha hb (by simp [Format.propagate, ha, hb])]

theorem rank_toNat_injective : Function.Injective fun a : Pattern w => w.format.rank a.toNat :=
  fun _ _ h =>
  BitVec.eq_of_toNat_eq (Format.rank_injective (Width.toNat_lt _) (Width.toNat_lt _) h)

theorem soft_lt_iff_rank {a b : Pattern w} (ha : w.format.isNan a.toNat = false)
    (hb : w.format.isNan b.toNat = false)
    (hzero : ¬(w.format.isZero a.toNat ∧ w.format.isZero b.toNat)) :
    (soft w).lt a b ↔ w.format.rank a.toNat < w.format.rank b.toNat := by
  refine (Format.lt_iff (Width.toNat_lt a) (Width.toNat_lt b) w.regular).trans ?_
  rw [and_iff_right ha, and_iff_right hb, Format.extended_lt_iff w.regular ha hb,
    Format.signedUnits_lt_iff_rank hzero]

/-- A choice that takes zeros by their bits and all else by a comparison is the
one of least rank. -/
theorem choice_eq {rank : Pattern w → Int} (hinj : Function.Injective rank)
    {a b joined : Pattern w} {less : Bool}
    (hless : ¬(w.format.isZero a.toNat ∧ w.format.isZero b.toNat) → (less ↔ rank a < rank b))
    (hjoined : w.format.isZero a.toNat → w.format.isZero b.toNat →
      rank joined = Min.min (rank a) (rank b)) :
    (if w.format.isZero a.toNat ∧ w.format.isZero b.toNat then joined else if less then a else b) =
    if rank a ≤ rank b then a else b := by
  by_cases hzero : w.format.isZero a.toNat ∧ w.format.isZero b.toNat
  · refine hinj ?_
    rw [if_pos hzero, hjoined hzero.1 hzero.2, apply_ite rank]
    omega
  · rw [if_neg hzero]
    simp only [hless hzero]
    split_ifs
    · rfl
    · omega
    · -- Neither is less: the program returns the second operand where `least` has the first,
      -- and they are the same.
      exact hinj (by omega)
    · rfl

theorem soft_min_eq (a b : Pattern w) :
    (soft w).min a b = least (fun a => w.format.rank a.toNat) a b := by
  refine eq_least (fun nan h => by simp [min, h]) fun ha hb hp => ?_
  simp only [min, hp]
  refine choice_eq rank_toNat_injective (soft_lt_iff_rank ha hb) fun hza hzb => ?_
  -- Of two zeros the result is negative as soon as one of them is.
  rw [Format.isZero_iff] at hza hzb
  simp only [Format.rank, BitVec.toNat_or, Format.negative_or, Format.magnitude_or, hza, hzb]
  cases w.format.negative a.toNat <;> cases w.format.negative b.toNat <;> rfl

theorem soft_max_eq (a b : Pattern w) :
    (soft w).max a b = least (fun a => -w.format.rank a.toNat) a b := by
  refine eq_least (fun nan h => by simp [max, h]) fun ha hb hp => ?_
  simp only [max, hp]
  refine choice_eq (neg_injective.comp rank_toNat_injective) (fun hzero => ?_) fun hza hzb => ?_
  · rw [soft_lt_iff_rank hb ha fun h => hzero h.symm]
    simp
  · -- Of two zeros the result is negative only if both are.
    rw [Format.isZero_iff] at hza hzb
    simp only [Function.comp, Format.rank, BitVec.toNat_and, Format.negative_and,
      Format.magnitude_and, hza, hzb]
    cases w.format.negative a.toNat <;> cases w.format.negative b.toNat <;> rfl

end FloatOps

/-- **The smaller and the larger of two floats are the lattice operations of the
order in which the negative zero is below the positive one**, at both widths.
The order is linear, and both operations are associative on all patterns. -/
theorem FloatPolicy.soft_min_max_lattice (w : Width) :
    IsLinearOrder (Number w) (fun a b => w.format.Below a.1.toNat b.1.toNat) ∧
      FloatOps.Extremal w.format.Below ((soft.ops w).binary .min) ∧
      FloatOps.Extremal (fun a b => w.format.Below b a) ((soft.ops w).binary .max) := by
  have hbelow (a b : Number w) : w.format.Below a.1.toNat b.1.toNat ↔
      w.format.rank a.1.toNat ≤ w.format.rank b.1.toNat :=
    Format.below_iff w.regular a.2 b.2
  have hmin : (soft.ops w).binary .min = FloatOps.least fun a => w.format.rank a.toNat :=
    funext₂ FloatOps.soft_min_eq
  have hmax : (soft.ops w).binary .max = FloatOps.least fun a => -w.format.rank a.toNat :=
    funext₂ FloatOps.soft_max_eq
  refine ⟨?_, ?_, ?_⟩
  · exact {
      refl := fun a => (hbelow a a).2 le_rfl
      trans := fun a b c hab hbc => (hbelow a c).2 (((hbelow a b).1 hab).trans ((hbelow b c).1 hbc))
      antisymm := fun a b hab hba =>
        Subtype.ext (FloatOps.rank_toNat_injective
          (le_antisymm ((hbelow a b).1 hab) ((hbelow b a).1 hba)))
      total := fun a b => (le_total _ _).imp (hbelow a b).2 (hbelow b a).2 }
  · rw [hmin]
    exact FloatOps.least_extremal FloatOps.rank_toNat_injective hbelow
  · rw [hmax]
    refine FloatOps.least_extremal (fun a b h => FloatOps.rank_toNat_injective (neg_injective h))
      fun a b => ?_
    rw [hbelow b a]
    omega

end WasmEngine
