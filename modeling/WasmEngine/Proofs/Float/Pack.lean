import WasmEngine.Proofs.Float.Pattern

/-!
# The magnitude that rounding yields

Whatever it rounds, `Format.roundPack` returns the magnitude of `q` units of the
last place `F.minLsb + e`, capped at the infinity (`Format.roundPack_eq`). One
formula covers subnormal and normal values and the carry into the next exponent:
the magnitudes of a format are its values in order, so that
`e * F.hiddenBit + q` counts how many of them lie below (`Format.pack`).
-/

namespace WasmEngine

/-- The significand in units of the last place, `shift` places above its own:
rounded to nearest, or exact if the place is below. -/
def scaleRound (sig : Nat) (shift : Int) : Nat :=
  if shift ≤ 0 then sig <<< (-shift).toNat else shiftRightRound sig shift.toNat

/-- A rounded quotient is one of the two next to the exact one. -/
theorem shiftRightRound_bounds (v n : Nat) :
    v / 2 ^ n ≤ shiftRightRound v n ∧ shiftRightRound v n ≤ v / 2 ^ n + 1 := by
  simp only [shiftRightRound, Nat.shiftRight_eq_div_pow]
  split <;> omega

namespace Format

variable (F : Format)

/-- The exponent of the last place of what rounding makes of a significand other
than zero. -/
def lastPlace (sig : Nat) (exp : Int) : Int := max (exp + Nat.log2 sig - F.mantBits) F.minLsb

/-- The pattern of `q` units of the last place `lsb`, after the carry that
rounding may have made. -/
def assemble (s : Bool) (q : Nat) (lsb : Int) : Nat :=
  let carry := 2 * F.hiddenBit ≤ q
  let q' := if carry then q / 2 else q
  let lsb' := if carry then lsb + 1 else lsb
  if q' < F.hiddenBit then F.zero s + q'
  else
    let biased := lsb' + F.mantBits + F.bias
    if F.maxExp ≤ biased then F.infinity s
    else F.zero s + biased.toNat * F.hiddenBit + q' % F.hiddenBit

/-- The magnitude of `q` units of the last place `F.minLsb + e`. -/
def pack (e q : Nat) : Nat := min (e * F.hiddenBit + q) F.expMask

variable {F} {sig : Nat} {exp : Int} {s : Bool}

theorem roundPack_sticky (s : Bool) (sig : Nat) (exp : Int) :
    F.roundPack s sig exp true = F.roundPack s (2 * sig + 1) (exp - 1) false := rfl

@[simp]
theorem roundPack_zero (s : Bool) (exp : Int) : F.roundPack s 0 exp false = F.zero s := rfl

/-- A significand keeps at most one bit more than the format has, and that only
by a carry. -/
theorem scaleRound_le (sig : Nat) (exp : Int) : scaleRound sig (F.lastPlace sig exp - exp) ≤
    2 * F.hiddenBit := by
  have hlog : sig < 2 ^ (sig.log2 + 1) := Nat.lt_log2_self
  have hshift : (sig.log2 : Int) - F.mantBits ≤ F.lastPlace sig exp - exp := by
    have := le_max_left (exp + Nat.log2 sig - F.mantBits) F.minLsb
    rw [lastPlace]
    omega
  generalize F.lastPlace sig exp - exp = shift at hshift
  rw [scaleRound, hiddenBit_eq, ← pow_succ']
  split
  case isTrue h =>
    -- the place is below the significand's own, so that nothing is lost
    rw [Nat.shiftLeft_eq]
    calc sig * 2 ^ (-shift).toNat
        ≤ 2 ^ (sig.log2 + 1) * 2 ^ (-shift).toNat := Nat.mul_le_mul_right _ hlog.le
      _ = 2 ^ (sig.log2 + 1 + (-shift).toNat) := (pow_add ..).symm
      _ ≤ 2 ^ (F.mantBits + 1) := Nat.pow_le_pow_right two_pos (by omega)
  case isFalse h =>
    have hlt : sig / 2 ^ shift.toNat < 2 ^ (F.mantBits + 1) := by
      refine Nat.div_lt_of_lt_mul (lt_of_lt_of_le hlog ?_)
      rw [← pow_add]
      exact Nat.pow_le_pow_right two_pos (by omega)
    have := (shiftRightRound_bounds sig shift.toNat).2
    omega

/-- Above the subnormal values all bits of the format are in use. -/
theorem hiddenBit_le_scaleRound (hsig : sig ≠ 0) (hlsb : F.minLsb < F.lastPlace sig exp) :
    F.hiddenBit ≤ scaleRound sig (F.lastPlace sig exp - exp) := by
  have hlog : 2 ^ sig.log2 ≤ sig := Nat.log2_self_le hsig
  have hshift : F.lastPlace sig exp - exp = sig.log2 - F.mantBits := by
    rw [lastPlace] at hlsb ⊢
    omega
  rw [scaleRound, hiddenBit_eq, hshift]
  split
  case isTrue h =>
    rw [Nat.shiftLeft_eq]
    calc 2 ^ F.mantBits
        ≤ 2 ^ (sig.log2 + (-((sig.log2 : Int) - F.mantBits)).toNat) :=
        Nat.pow_le_pow_right two_pos (by omega)
      _ = 2 ^ sig.log2 * 2 ^ (-((sig.log2 : Int) - F.mantBits)).toNat := pow_add ..
      _ ≤ _ := Nat.mul_le_mul_right _ hlog
  case isFalse h =>
    refine le_trans ((Nat.le_div_iff_mul_le (Nat.two_pow_pos _)).2 ?_)
      (shiftRightRound_bounds _ _).1
    rw [← pow_add]
    exact le_trans (Nat.pow_le_pow_right two_pos (by omega)) hlog

/-- Rounding finds the last place, rounds there, and assembles the pattern. -/
theorem roundPack_eq_assemble (s : Bool) (hsig : sig ≠ 0) :
    F.roundPack s sig exp false = F.assemble s (scaleRound sig (F.lastPlace sig exp - exp))
      (F.lastPlace sig exp) := by
  simp only [roundPack, Bool.false_eq_true, if_false, if_neg hsig]
  rfl

variable (hF : F.Regular)
include hF

/-- **What rounding yields**, with all its cases in one formula. -/
theorem roundPack_eq (s : Bool) (hsig : sig ≠ 0) :
    F.roundPack s sig exp false =
      F.zero s + F.pack (F.lastPlace sig exp - F.minLsb).toNat
        (scaleRound sig (F.lastPlace sig exp - exp)) := by
  have hle : scaleRound sig (F.lastPlace sig exp - exp) ≤ 2 * F.hiddenBit := scaleRound_le sig exp
  have hge : F.minLsb < F.lastPlace sig exp → F.hiddenBit ≤
      scaleRound sig (F.lastPlace sig exp - exp) :=
    hiddenBit_le_scaleRound hsig
  have hmin : F.minLsb ≤ F.lastPlace sig exp := le_max_right _ _
  simp only [roundPack_eq_assemble s hsig, assemble]
  generalize scaleRound sig (F.lastPlace sig exp - exp) = q at hle hge
  obtain ⟨e, he⟩ : ∃ e : Nat, F.lastPlace sig exp = F.minLsb + e :=
    ⟨(F.lastPlace sig exp - F.minLsb).toNat, by omega⟩
  have hbias : F.minLsb + F.mantBits + F.bias = 1 := by
    rw [minLsb]
    omega
  have hmax := hF.maxExp_eq
  have hh := F.hiddenBit_pos
  have htoNat : (F.lastPlace sig exp - F.minLsb).toNat = e := by omega
  rw [htoNat, he, pack, expMask]
  by_cases hcarry : 2 * F.hiddenBit ≤ q
  · -- the carry leaves the hidden bit alone, one exponent up
    obtain rfl : q = 2 * F.hiddenBit := by omega
    have hbiased : F.minLsb + e + 1 + F.mantBits + F.bias = (e + 2 : Nat) := by omega
    simp only [le_refl, if_true, Nat.mul_div_cancel_left _ two_pos, lt_irrefl, if_false,
      Nat.mod_self, hbiased]
    have hsum : e * F.hiddenBit + 2 * F.hiddenBit = (e + 2) * F.hiddenBit := by ring
    rw [hsum, Nat.mul_min_mul_right]
    split
    case isTrue h => rw [infinity, expMask, Nat.add_comm, min_eq_right (by omega)]
    case isFalse h => rw [Int.toNat_natCast, min_eq_left (by omega), Nat.add_zero]
  · simp only [if_neg hcarry]
    split
    case isTrue h =>
      -- a subnormal value
      obtain rfl : e = 0 := by
        by_contra hne
        have := hge (by omega)
        omega
      have : F.hiddenBit ≤ F.maxExp * F.hiddenBit := Nat.le_mul_of_pos_left _ (by omega)
      rw [Nat.zero_mul, Nat.zero_add, min_eq_left (by omega)]
    case isFalse h =>
      have hbiased : F.minLsb + e + F.mantBits + F.bias = (e + 1 : Nat) := by omega
      have hmod : q % F.hiddenBit = q - F.hiddenBit := by
        rw [Nat.mod_eq_sub_mod (by omega), Nat.mod_eq_of_lt (by omega)]
      have hsum : (e + 1) * F.hiddenBit = e * F.hiddenBit + F.hiddenBit := by ring
      rw [hbiased]
      split
      case isTrue hinf =>
        have : F.maxExp * F.hiddenBit ≤ (e + 1) * F.hiddenBit := Nat.mul_le_mul_right _ (by omega)
        rw [infinity, expMask, Nat.add_comm, min_eq_right (by omega)]
      case isFalse hinf =>
        have : (e + 2) * F.hiddenBit ≤ F.maxExp * F.hiddenBit := Nat.mul_le_mul_right _ (by omega)
        have : (e + 2) * F.hiddenBit = e * F.hiddenBit + 2 * F.hiddenBit := by ring
        rw [Int.toNat_natCast, hmod, min_eq_left (by omega)]
        omega

/-- Rounding yields the sign it is given and never a NaN. -/
theorem roundPack_cases (s : Bool) (sig : Nat) (exp : Int) (sticky : Bool) :
    ∃ p ≤ F.expMask, F.roundPack s sig exp sticky = F.zero s + p := by
  have hexact (sig : Nat) (exp : Int) : ∃ p ≤ F.expMask, F.roundPack s sig exp false =
      F.zero s + p := by
    by_cases hsig : sig = 0
    · exact ⟨0, Nat.zero_le _, by rw [hsig, roundPack_zero, Nat.add_zero]⟩
    · exact ⟨_, min_le_right _ _, roundPack_eq hF s hsig⟩
  cases sticky with
  | false => exact hexact sig exp
  | true => exact hexact (2 * sig + 1) (exp - 1)

theorem not_isNan_roundPack (s : Bool) (sig : Nat) (exp : Int) (sticky : Bool) :
    F.isNan (F.roundPack s sig exp sticky) = false := by
  obtain ⟨p, hp, hr⟩ := roundPack_cases hF s sig exp sticky
  rw [hr, not_isNan_zero_add hp]

theorem roundPack_lt (s : Bool) (sig : Nat) (exp : Int) (sticky : Bool) :
    F.roundPack s sig exp sticky < 2 * F.signBit := by
  obtain ⟨p, hp, hr⟩ := roundPack_cases hF s sig exp sticky
  rw [hr]
  exact zero_add_lt (lt_of_le_of_lt hp F.expMask_lt_signBit)

end Format

end WasmEngine
