import WasmEngine.Proofs.Float.Rounding

/-!
# Extra bits

The three ways in which an operation keeps what it cannot compute exactly, each
with what its significand stands for:

* a shift to the right folds what it drops into the last bit
  (`WasmEngine.standsFor_shiftRightJam`);
* a quotient or a root that leaves a remainder is rounded with one more bit,
  which is set (`WasmEngine.Format.roundPack_sticky_places`);
* a square root is found digit by digit, with the remainder
  (`WasmEngine.isqrt_spec`).
-/

namespace WasmEngine

/-! ### Shifts -/

theorem or_one (k : Nat) : Odd (k ||| 1) ∧ k ≤ (k ||| 1) ∧ (k ||| 1) ≤ k + 1 := by
  have hor (m : Nat) : 2 * m ||| 1 = 2 * m + 1 := by
    rw [← pow_one 2, Nat.two_pow_add_eq_or_of_lt (by decide)]
  obtain ⟨m, rfl | rfl⟩ := Nat.even_or_odd' k
  · rw [hor]
    exact ⟨⟨m, rfl⟩, by omega, le_rfl⟩
  · rw [← hor, Nat.or_assoc, Nat.or_self, hor]
    exact ⟨⟨m, rfl⟩, le_rfl, by omega⟩

/-- A shift to the right stands for the quotient. -/
theorem standsFor_shiftRightJam (v n : Nat) : StandsFor (shiftRightJam v n) (v / 2 ^ n) := by
  have hpos : (0 : ℝ) < 2 ^ n := by positivity
  have hdiv : (2 ^ n * (v / 2 ^ n : Nat) + (v % 2 ^ n : Nat) : ℝ) = v := by
    exact_mod_cast Nat.div_add_mod v (2 ^ n)
  have hmod : ((v % 2 ^ n : Nat) : ℝ) < 2 ^ n := by
    exact_mod_cast Nat.mod_lt v (Nat.two_pow_pos n)
  rw [shiftRightJam, Nat.one_shiftLeft, Nat.shiftRight_eq_div_pow]
  split
  case isTrue h =>
    left
    rw [h, Nat.cast_zero, add_zero] at hdiv
    rw [div_eq_iff hpos.ne', ← hdiv]
    ring
  case isFalse h =>
    right
    generalize v / 2 ^ n = k at hdiv
    generalize v % 2 ^ n = rem at hdiv hmod h
    have hrem : (0 : ℝ) < rem := by exact_mod_cast Nat.pos_of_ne_zero h
    obtain ⟨hodd, hle, hge⟩ := or_one k
    have hle : (k : ℝ) ≤ (k ||| 1 : Nat) := by exact_mod_cast hle
    have hge : ((k ||| 1 : Nat) : ℝ) ≤ k + 1 := by exact_mod_cast hge
    have hlow : (k : ℝ) < v / 2 ^ n := by
      rw [lt_div_iff₀ hpos]
      linarith
    have hhigh : (v : ℝ) / 2 ^ n < k + 1 := by
      rw [div_lt_iff₀ hpos]
      linarith
    refine ⟨hodd, ?_⟩
    rw [abs_lt]
    constructor <;> linarith

/-! ### Quotients -/

/-- The quotient of two integers, rounded down, and whether it is exact. -/
theorem quotient_spec (d : Nat) {y : Nat} (hy : 0 < y) :
    ((d / y : Nat) : ℝ) ≤ d / y ∧ (d / y : ℝ) < (d / y : Nat) + 1 ∧
    ((d % y != 0) = false ↔ (d / y : ℝ) = (d / y : Nat)) := by
  have hyR : (0 : ℝ) < y := by exact_mod_cast hy
  have hdiv : (y * (d / y : Nat) + (d % y : Nat) : ℝ) = d := by exact_mod_cast Nat.div_add_mod d y
  have hmod : ((d % y : Nat) : ℝ) < y := by exact_mod_cast Nat.mod_lt d hy
  have hnonneg : (0 : ℝ) ≤ (d % y : Nat) := Nat.cast_nonneg _
  refine ⟨?_, ?_, ?_⟩
  · rw [le_div_iff₀ hyR]
    linarith
  · rw [div_lt_iff₀ hyR]
    linarith
  · rw [bne_eq_false_iff_eq, div_eq_iff hyR.ne', ← Nat.cast_eq_zero (R := ℝ)]
    constructor <;> intro h <;> linarith

/-! ### Roots -/

/-- **The digits of a square root.** With `k` digits to come, the root so far is
a number `a`, the second argument keeps `a * 2 ^ k`, and the first what is left
of the radicand. -/
theorem isqrtSteps_spec (k a rem : Nat) (hlt : a ^ 2 + rem < (a + 2 ^ k) ^ 2) :
    ∃ r, (isqrtSteps k rem (a * 2 ^ k)).1 = r ∧
    r ^ 2 + (isqrtSteps k rem (a * 2 ^ k)).2 = a ^ 2 + rem ∧
      a ^ 2 + rem < (r + 1) ^ 2 := by
  induction k generalizing a rem with
  | zero => exact ⟨a, by simp [isqrtSteps], by simp [isqrtSteps], by simpa using hlt⟩
  | succ k ih =>
    have hroot : a * 2 ^ (k + 1) / 2 = a * 2 ^ k := by
      rw [pow_succ, ← Nat.mul_assoc, Nat.mul_div_cancel _ two_pos]
    have hbit : 1 <<< (2 * k) = 2 ^ k * 2 ^ k := by
      rw [Nat.one_shiftLeft, two_mul, pow_add]
    have hsquare : (a + 2 ^ k) ^ 2 = a ^ 2 + (a * 2 ^ (k + 1) + 2 ^ k * 2 ^ k) := by ring
    simp only [isqrtSteps, hbit, hroot]
    split
    case isTrue hle =>
      -- the digit is one
      have hnext : a * 2 ^ k + 2 ^ k * 2 ^ k = (a + 2 ^ k) * 2 ^ k := by ring
      have hsum : (a + 2 ^ k) ^ 2 + (rem - (a * 2 ^ (k + 1) + 2 ^ k * 2 ^ k)) =
        a ^ 2 + rem := by omega
      have hwide : a + 2 ^ k + 2 ^ k = a + 2 ^ (k + 1) := by ring
      rw [hnext]
      obtain ⟨r, hr, hrem, hbound⟩ := ih (a + 2 ^ k) (rem - (a * 2 ^ (k + 1) + 2 ^ k * 2 ^ k))
        (by rw [hsum, hwide]; exact hlt)
      exact ⟨r, hr, hrem.trans hsum, hsum ▸ hbound⟩
    case isFalse hgt =>
      -- the digit is zero
      exact ih a rem (by omega)

/-- **The square root of a number, rounded down, and the remainder.** -/
theorem isqrt_spec {n : Nat} (hn : n < 2 ^ 128) : (isqrt n).1 ^ 2 + (isqrt n).2 = n ∧
    n < ((isqrt n).1 + 1) ^ 2 := by
  have hlt : 0 ^ 2 + n < (0 + 2 ^ 64) ^ 2 := by
    rw [Nat.zero_add, ← pow_mul]
    simpa using hn
  obtain ⟨r, hr, hrem, hbound⟩ := isqrtSteps_spec 64 0 n hlt
  rw [Nat.zero_mul] at hr hrem
  rw [isqrt, hr, hrem]
  simpa using hbound

/-- The same on numbers: a root, rounded down, and whether it is exact. -/
theorem root_spec {n : Nat} (hn : n < 2 ^ 128) :
    (isqrt n).1 ≤ √(n : ℝ) ∧ √(n : ℝ) < (isqrt n).1 + 1 ∧
    (((isqrt n).2 != 0) = false ↔ √(n : ℝ) = (isqrt n).1) := by
  obtain ⟨hsum, hlt⟩ := isqrt_spec hn
  generalize isqrt n = r at *
  have hsumR : (r.1 : ℝ) ^ 2 + r.2 = n := by exact_mod_cast hsum
  have hltR : (n : ℝ) < (r.1 + 1) ^ 2 := by exact_mod_cast hlt
  have hnonneg : (0 : ℝ) ≤ r.1 := Nat.cast_nonneg _
  have hrem : (0 : ℝ) ≤ r.2 := Nat.cast_nonneg _
  refine ⟨?_, ?_, ?_⟩
  · rw [Real.le_sqrt hnonneg (Nat.cast_nonneg n)]
    linarith
  · rw [Real.sqrt_lt' (by linarith)]
    exact hltR
  · rw [bne_eq_false_iff_eq, ← Nat.cast_eq_zero (R := ℝ),
      Real.sqrt_eq_iff_eq_sq (Nat.cast_nonneg n) hnonneg]
    constructor <;> intro h <;> linarith

/-! ### The sticky flag -/

namespace Format

variable {F : Format}

section

variable (hF : F.Regular) {q : Nat} {v x : ℝ} {exp : Int} {s sticky : Bool}
  (hq : q ≤ v) (hv : v < q + 1) (hsticky : sticky = false ↔ v = q)
include hF hq hv hsticky

/-- **Rounding with the sticky flag** finds the place of the number next above
the significand that the flag speaks of. -/
theorem roundPack_sticky_places (hne : q ≠ 0) (hbits : sticky → 2 ^ (F.mantBits + 1) ≤ q)
    (s : Bool) (exp : Int) :
    ∃ e r, F.Places (v * 2 ^ exp / F.quantum) e r ∧
    F.roundPack s q exp sticky = F.zero s + F.pack e r := by
  cases sticky with
  | false =>
    have hexact : v = q := hsticky.1 rfl
    exact roundPack_places hF (.inl hexact) hne (.inl hexact) s exp
  | true =>
    have hlt : (q : ℝ) < v := lt_of_le_of_ne hq fun h => Bool.noConfusion (hsticky.2 h.symm)
    -- with one more bit the number lies strictly between two even significands
    have hstands : StandsFor (2 * q + 1) (2 * v) := by
      refine .inr ⟨⟨q, rfl⟩, ?_⟩
      push_cast
      rw [abs_lt]
      constructor <;> linarith
    have hscale : v * 2 ^ exp = 2 * v * 2 ^ (exp - 1) := by
      rw [zpow_sub₀ two_ne_zero, zpow_one]
      ring
    rw [roundPack_sticky, hscale]
    refine roundPack_places hF hstands (by omega) (.inr ?_) s _
    have := hbits rfl
    rw [pow_succ]
    omega

theorem roundPack_sticky_delivers (hbits : 2 ^ (F.mantBits + 1) ≤ q)
    (hx : x = sgn s * (v * 2 ^ exp)) (z : Bool) :
    F.Delivers (.finite x z) (F.roundPack s q exp sticky) := by
  have hpos : 0 < q := (Nat.two_pow_pos _).trans_le hbits
  have hv₀ : 0 < v := lt_of_lt_of_le (Nat.cast_pos.2 hpos) hq
  have hquantum := F.quantum_pos
  obtain ⟨e, r, hplaces, hr⟩ := roundPack_sticky_places hF hq hv hsticky hpos.ne'
    (fun _ => hbits) s exp
  rw [hr]
  exact hplaces.delivers hF (by positivity) (by rw [hx, div_mul_cancel₀ _ hquantum.ne']) z

end

end Format

end WasmEngine
