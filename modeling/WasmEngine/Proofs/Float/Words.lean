import Mathlib.Data.Nat.Bitwise
import WasmEngine.Proofs.Except

/-!
# Arithmetic on words, checked

A machine computes with words of a fixed width, and its operations are those of
unbounded integers only as long as nothing is lost. Here every operation says
so: it returns what the machine returns, or the **breach** (`WasmEngine.Breach`)
by which that differs from the unbounded result. Words are bit vectors, read as
natural numbers or, where an operation says that it is signed, in two's
complement.

What a computation comes to is told by `WasmEngine.Word.Yields`: it ends without
a breach, and with a result of the given kind. There is one lemma of that form
for each operation, with the bounds under which it holds, and one for putting
computations one after the other (`WasmEngine.Word.Yields.bind`).
-/

namespace WasmEngine

/-- What can go wrong in a step on words. -/
inductive Breach
  /-- A sum, a difference, a product or a negation does not fit. -/
  | overflow
  /-- A shift goes by as many bits as there are, or by more. -/
  | distance
  /-- A shift to the left drops a bit that is set. -/
  | dropped
  /-- A division by zero. -/
  | divisor
  /-- A number does not fit the words that it is converted to. -/
  | conversion
  /-- Bit fields that are put together overlap. -/
  | overlap
  deriving DecidableEq

/-- A computation on words, up to its first breach. -/
abbrev Checked := Except Breach

/-- Unsigned words of 32 bits. -/
abbrev U32 := BitVec 32

/-- Unsigned words of 64 bits. -/
abbrev U64 := BitVec 64

/-- Unsigned words of 128 bits. -/
abbrev U128 := BitVec 128

/-- Signed words of 32 bits. -/
abbrev I32 := BitVec 32

namespace Word

variable {n k : Nat}

/-! ### Unsigned words -/

/-- The sum. -/
def add (x y : BitVec n) : Checked (BitVec n) :=
  if x.uaddOverflow y then .error .overflow else .ok (x + y)

/-- The difference. -/
def sub (x y : BitVec n) : Checked (BitVec n) :=
  if x.usubOverflow y then .error .overflow else .ok (x - y)

/-- The product. -/
def mul (x y : BitVec n) : Checked (BitVec n) :=
  if x.umulOverflow y then .error .overflow else .ok (x * y)

/-- The quotient. -/
def div (x y : BitVec n) : Checked (BitVec n) := if y = 0 then .error .divisor else .ok (x / y)

/-- The remainder. -/
def rem (x y : BitVec n) : Checked (BitVec n) := if y = 0 then .error .divisor else .ok (x % y)

/-- A shift to the left that may drop bits. -/
def shiftOut (x : BitVec n) (d : BitVec k) : Checked (BitVec n) :=
  if n ≤ d.toNat then .error .distance else .ok (x <<< d)

/-- A shift to the left that keeps all set bits. -/
def shiftLeft (x : BitVec n) (d : BitVec k) : Checked (BitVec n) := do
  let y ← shiftOut x d
  if y >>> d = x then .ok y else .error .dropped

/-- A shift to the right. -/
def shiftRight (x : BitVec n) (d : BitVec k) : Checked (BitVec n) :=
  if n ≤ d.toNat then .error .distance else .ok (x >>> d)

/-- Two bit fields in one word. -/
def join (x y : BitVec n) : Checked (BitVec n) :=
  if x &&& y = 0 then .ok (x ||| y) else .error .overlap

/-- The same number in another width. -/
def resize (k : Nat) (x : BitVec n) : Checked (BitVec k) :=
  if x.toNat < 2 ^ k then .ok (x.setWidth k) else .error .conversion

/-- The number of zeros above the highest bit that is set. -/
def leadingZeros (x : BitVec n) : U32 := x.clz.setWidth 32

/-! ### Signed words -/

/-- The signed sum. -/
def addSigned (x y : I32) : Checked I32 :=
  if x.saddOverflow y then .error .overflow else .ok (x + y)

/-- The signed difference. -/
def subSigned (x y : I32) : Checked I32 :=
  if x.ssubOverflow y then .error .overflow else .ok (x - y)

/-- The number with the opposite sign. -/
def negSigned (x : I32) : Checked I32 := if x.negOverflow then .error .overflow else .ok (-x)

/-- The signed quotient, rounded toward zero. -/
def divSigned (x y : I32) : Checked I32 :=
  if y = 0 then .error .divisor else if x.sdivOverflow y then .error .overflow else .ok (x.sdiv y)

/-- The larger of two signed numbers. -/
def maxSigned (x y : I32) : I32 := if x.slt y then y else x

/-- An unsigned number as a signed one. -/
def toSigned (x : BitVec n) : Checked I32 :=
  if x.toNat < 2 ^ 31 then .ok (x.setWidth 32) else .error .conversion

/-- A signed number as an unsigned one. -/
def toUnsigned (k : Nat) (x : I32) : Checked (BitVec k) :=
  if x.msb then .error .conversion else resize k x

/-! ### What a computation yields -/

section Yields

variable {α β : Type} {c : Checked α} {f : α → Checked β} {P Q : α → Prop} {R : β → Prop}

/-- **A computation ends without a breach**, and with such a result. -/
def Yields (c : Checked α) (P : α → Prop) : Prop := ∃ x, c = .ok x ∧ P x

theorem Yields.ok {x : α} (h : P x) : Yields (.ok x) P := ⟨x, rfl, h⟩

theorem Yields.pure {x : α} (h : P x) : Yields (pure x) P := ⟨x, rfl, h⟩

/-- One computation after the other. -/
theorem Yields.bind (hc : Yields c P) (hf : ∀ x, P x → Yields (f x) R) : Yields (c >>= f) R := by
  obtain ⟨x, rfl, hx⟩ := hc
  exact hf x hx

theorem Yields.imp (hc : Yields c P) (h : ∀ x, P x → Q x) : Yields c Q := by
  obtain ⟨x, rfl, hx⟩ := hc
  exact ⟨x, rfl, h x hx⟩

/-- A choice of computations yields the choice of what they yield. -/
theorem Yields.ite {p : Prop} [Decidable p] {c d : Checked α} {g : α → β} {i j : β}
    (hc : p → Yields c (g · = i)) (hd : ¬p → Yields d (g · = j)) :
    Yields (if p then c else d) (g · = if p then i else j) := by
  split
  case isTrue h => exact hc h
  case isFalse h => exact hd h

theorem Yields.eq_ok {x : α} (h : Yields c (· = x)) : c = .ok x := by
  obtain ⟨y, rfl, rfl⟩ := h
  rfl

/-- The only word of that number. -/
theorem Yields.eq_ofNat {c : Checked (BitVec n)} {v : Nat} (h : Yields c (·.toNat = v)) :
    c = .ok (BitVec.ofNat n v) := by
  obtain ⟨y, rfl, rfl⟩ := h
  rw [BitVec.ofNat_toNat, BitVec.setWidth_eq]

end Yields

/-! ### Unsigned operations -/

section Unsigned

variable {x y : BitVec n} {d : BitVec k} {i j : Nat}

theorem add_yields (hx : x.toNat = i) (hy : y.toNat = j) (h : i + j < 2 ^ n) :
    Yields (add x y) (·.toNat = i + j) := by
  subst hx hy
  have hover : ¬x.uaddOverflow y := by simpa [BitVec.uaddOverflow] using h
  rw [add, if_neg hover]
  exact .ok (BitVec.toNat_add_of_not_uaddOverflow hover)

theorem sub_yields (hx : x.toNat = i) (hy : y.toNat = j) (h : j ≤ i) :
    Yields (sub x y) (·.toNat = i - j) := by
  subst hx hy
  have hover : ¬x.usubOverflow y := by simpa [BitVec.usubOverflow] using h
  rw [sub, if_neg hover]
  exact .ok (BitVec.toNat_sub_of_not_usubOverflow hover)

theorem mul_yields (hx : x.toNat = i) (hy : y.toNat = j) (h : i * j < 2 ^ n) :
    Yields (mul x y) (·.toNat = i * j) := by
  subst hx hy
  have hover : ¬x.umulOverflow y := by simpa [BitVec.umulOverflow] using h
  rw [mul, if_neg hover]
  exact .ok (BitVec.toNat_mul_of_not_umulOverflow hover)

theorem eq_zero_iff (hx : x.toNat = i) : x = 0 ↔ i = 0 := by
  rw [← BitVec.toNat_inj, hx]
  simp

theorem bne_zero_eq (hx : x.toNat = i) : (x != 0) = (i != 0) := by
  rw [Bool.eq_iff_iff, bne_iff_ne, bne_iff_ne, ne_eq, ne_eq, eq_zero_iff hx]

theorem div_yields (hx : x.toNat = i) (hy : y.toNat = j) (h : j ≠ 0) :
    Yields (div x y) (·.toNat = i / j) := by
  rw [div, if_neg ((eq_zero_iff hy).not.2 h)]
  exact .ok (by rw [BitVec.toNat_udiv, hx, hy])

theorem rem_yields (hx : x.toNat = i) (hy : y.toNat = j) (h : j ≠ 0) :
    Yields (rem x y) (·.toNat = i % j) := by
  rw [rem, if_neg ((eq_zero_iff hy).not.2 h)]
  exact .ok (by rw [BitVec.toNat_umod, hx, hy])

theorem shiftOut_yields (hx : x.toNat = i) (hd : d.toNat = j) (hj : j < n) :
    Yields (shiftOut x d) (·.toNat = i * 2 ^ j % 2 ^ n) := by
  subst hx hd
  rw [shiftOut, if_neg (by omega)]
  refine .ok ?_
  rw [BitVec.shiftLeft_eq', BitVec.toNat_shiftLeft, Nat.shiftLeft_eq]

theorem shiftLeft_yields (hx : x.toNat = i) (hd : d.toNat = j) (hj : j < n)
    (h : i * 2 ^ j < 2 ^ n) : Yields (shiftLeft x d) (·.toNat = i * 2 ^ j) := by
  refine (shiftOut_yields hx hd hj).bind fun z hz => ?_
  rw [Nat.mod_eq_of_lt h] at hz
  have hback : z >>> d = x := by
    refine BitVec.eq_of_toNat_eq ?_
    rw [BitVec.ushiftRight_eq', BitVec.toNat_ushiftRight, Nat.shiftRight_eq_div_pow, hz, hd,
      Nat.mul_div_cancel _ (Nat.two_pow_pos _), hx]
  rw [if_pos hback]
  exact .ok hz

/-- A power of two, as the bit of that place. -/
theorem two_pow_yields (hd : d.toNat = j) (hj : j < n) :
    Yields (shiftLeft (1 : BitVec n) d) (·.toNat = 2 ^ j) := by
  have hone : (1 : BitVec n).toNat = 1 := Nat.mod_eq_of_lt (Nat.one_lt_two_pow (by omega))
  have h :=
    shiftLeft_yields hone hd hj (by rw [Nat.one_mul]; exact Nat.pow_lt_pow_right Nat.one_lt_two hj)
  rwa [Nat.one_mul] at h

example : shiftLeft (3 : BitVec 8) (7 : BitVec 8) = .error .dropped := rfl

theorem shiftRight_yields (hx : x.toNat = i) (hd : d.toNat = j) (hj : j < n) :
    Yields (shiftRight x d) (·.toNat = i / 2 ^ j) := by
  subst hx hd
  rw [shiftRight, if_neg (by omega)]
  refine .ok ?_
  rw [BitVec.ushiftRight_eq', BitVec.toNat_ushiftRight, Nat.shiftRight_eq_div_pow]

/-- Fields that meet at bit `b` do not overlap. -/
theorem join_yields {b : Nat} (hx : x.toNat = i) (hy : y.toNat = j) (hi : 2 ^ b ∣ i)
    (hj : j < 2 ^ b) : Yields (join x y) (·.toNat = i + j) := by
  obtain ⟨c, rfl⟩ := hi
  have hand : x &&& y = 0 := by
    refine BitVec.eq_of_toNat_eq (Nat.eq_of_testBit_eq fun l => ?_)
    rw [BitVec.toNat_and, hx, hy, Nat.testBit_and, Nat.testBit_two_pow_mul, BitVec.ofNat_eq_ofNat,
      BitVec.toNat_ofNat, Nat.zero_mod, Nat.zero_testBit]
    by_cases hl : b ≤ l
    · rw [Nat.testBit_lt_two_pow (lt_of_lt_of_le hj (Nat.pow_le_pow_right Nat.two_pos hl)),
        Bool.and_false]
    · simp [hl]
  rw [join, if_pos hand]
  exact .ok (by rw [BitVec.toNat_or, hx, hy, Nat.two_pow_add_eq_or_of_lt hj])

theorem resize_yields (hx : x.toNat = i) (h : i < 2 ^ k) : Yields (resize k x) (·.toNat = i) := by
  subst hx
  rw [resize, if_pos h]
  exact .ok (by rw [BitVec.toNat_setWidth, Nat.mod_eq_of_lt h])

/-- The zeros and the bits from the highest set one on fill the word. -/
theorem toNat_leadingZeros (hx : x.toNat = i) (hn : n < 2 ^ 32) (hi : i ≠ 0) :
    (leadingZeros x).toNat = n - 1 - i.log2 := by
  have hne : x ≠ 0 := (eq_zero_iff hx).not.2 hi
  have hlt : x.clz.toNat < n := by
    have h := BitVec.clz_lt_iff_ne_zero.2 hne
    rwa [BitVec.lt_def, BitVec.natCast_eq_ofNat, BitVec.toNat_ofNat,
      Nat.mod_eq_of_lt Nat.lt_two_pow_self] at h
  have hlog : i.log2 = n - 1 - x.clz.toNat := by
    rw [Nat.log2_eq_iff hi, ← hx]
    refine ⟨BitVec.two_pow_sub_clz_le_toNat_of_ne_zero (by omega) hne, ?_⟩
    rw [show n - 1 - x.clz.toNat + 1 = n - x.clz.toNat by omega]
    exact BitVec.toNat_lt_two_pow_sub_clz
  rw [leadingZeros, BitVec.toNat_setWidth, Nat.mod_eq_of_lt (by omega)]
  omega

/-! The words that a mask of low bits and a single bit select. -/

theorem toNat_and_mask {mask : BitVec n} (hx : x.toNat = i) (hmask : mask.toNat = 2 ^ j - 1) :
    (x &&& mask).toNat = i % 2 ^ j := by
  rw [BitVec.toNat_and, hx, hmask, Nat.and_two_pow_sub_one_eq_mod]

theorem toNat_and_not_mask {mask : BitVec n} (hx : x.toNat = i) (hmask : mask.toNat = 2 ^ j - 1) :
    (x &&& ~~~mask).toNat = i - i % 2 ^ j := by
  have hmul : i - i % 2 ^ j = 2 ^ j * (i / 2 ^ j) := by
    have := Nat.div_add_mod i (2 ^ j)
    omega
  refine Nat.eq_of_testBit_eq fun l => ?_
  rw [hmul, Nat.testBit_two_pow_mul, Nat.testBit_div_two_pow, BitVec.toNat_and, Nat.testBit_and,
    BitVec.testBit_toNat (~~~mask), BitVec.getLsbD_not, ← BitVec.testBit_toNat mask, hmask,
    Nat.testBit_two_pow_sub_one, hx]
  by_cases hl : l < n
  · by_cases hj : j ≤ l
    · simp [hl, hj, Nat.sub_add_cancel hj]
    · simp [hl, hj, not_le.1 hj]
  · have hout : i.testBit l = false :=
      hx ▸ Nat.testBit_lt_two_pow (x.isLt.trans_le (Nat.pow_le_pow_right Nat.two_pos (by omega)))
    by_cases hj : j ≤ l
    · simp [hl, hj, hout, Nat.sub_add_cancel hj]
    · simp [hl, hj]

theorem and_bit_bne_zero {bit : BitVec n} (hx : x.toNat = i) (hbit : bit.toNat = 2 ^ j) :
    (x &&& bit != 0) = (i / 2 ^ j % 2 == 1) := by
  have hand : (x &&& bit).toNat =
    (i.testBit j).toNat * 2 ^ j := by rw [BitVec.toNat_and, hx, hbit, Nat.and_two_pow]
  rw [bne_zero_eq hand, Nat.testBit_eq_decide_div_mod_eq, beq_eq_decide]
  by_cases h : i / 2 ^ j % 2 = 1 <;> simp [h]

end Unsigned

/-! ### Signed operations -/

section Signed

variable {x y : I32} {i j : Int}

theorem addSigned_yields (hx : x.toInt = i) (hy : y.toInt = j) (hlo : -2 ^ 31 ≤ i + j)
    (hhi : i + j < 2 ^ 31) : Yields (addSigned x y) (·.toInt = i + j) := by
  subst hx hy
  have hover : ¬x.saddOverflow y := by
    simp only [BitVec.saddOverflow, Bool.or_eq_true, decide_eq_true_iff]
    omega
  rw [addSigned, if_neg hover]
  exact .ok (BitVec.toInt_add_of_not_saddOverflow hover)

theorem subSigned_yields (hx : x.toInt = i) (hy : y.toInt = j) (hlo : -2 ^ 31 ≤ i - j)
    (hhi : i - j < 2 ^ 31) : Yields (subSigned x y) (·.toInt = i - j) := by
  subst hx hy
  have hover : ¬x.ssubOverflow y := by
    simp only [BitVec.ssubOverflow, Bool.or_eq_true, decide_eq_true_iff]
    omega
  rw [subSigned, if_neg hover]
  exact .ok (BitVec.toInt_sub_of_not_ssubOverflow hover)

theorem negSigned_yields (hx : x.toInt = i) (h : -2 ^ 31 < i) :
    Yields (negSigned x) (·.toInt = -i) := by
  subst hx
  have hover : ¬x.negOverflow := by
    simp only [BitVec.negOverflow, beq_iff_eq]
    omega
  rw [negSigned, if_neg hover]
  exact .ok (BitVec.toInt_neg_of_not_negOverflow hover)

theorem divSigned_two_yields (hx : x.toInt = i) : Yields (divSigned x 2) (·.toInt = i.tdiv 2) := by
  have hne : (2 : I32) ≠ -1#32 := by decide
  have hover : ¬x.sdivOverflow 2 := by simp [BitVec.sdivOverflow_eq]
  rw [divSigned, if_neg (by decide), if_neg hover, ← hx]
  exact .ok (BitVec.toInt_sdiv_of_ne_or_ne x 2 (.inr hne))

theorem sle_iff (hx : x.toInt = i) (hy : y.toInt = j) : x.sle y ↔ i ≤ j := by
  rw [BitVec.sle_iff_toInt_le, hx, hy]

theorem slt_iff (hx : x.toInt = i) (hy : y.toInt = j) : x.slt y ↔ i < j := by
  rw [BitVec.slt_iff_toInt_lt, hx, hy]

theorem toInt_maxSigned (hx : x.toInt = i) (hy : y.toInt = j) :
    (maxSigned x y).toInt = max i j := by
  simp only [maxSigned, slt_iff hx hy]
  split <;> omega

theorem eq_iff_toInt (hx : x.toInt = i) (hy : y.toInt = j) : x = y ↔ i = j := by
  rw [← BitVec.toInt_inj, hx, hy]

/-- The lowest bit tells odd numbers, negative ones too. -/
theorem odd_iff (hx : x.toInt = i) : (x &&& 1 != 0) = true ↔ i % 2 ≠ 0 := by
  have hand : (x &&& 1).toNat =
    x.toNat % 2 := by rw [BitVec.toNat_and, show (1 : I32).toNat = 1 from rfl, Nat.and_one_is_mod]
  have := x.isLt
  rw [bne_zero_eq hand, bne_iff_ne]
  rw [BitVec.toInt_eq_toNat_cond] at hx
  split_ifs at hx <;> omega

/-- The magnitude of the least number fits too, without the sign. -/
theorem toNat_abs_eq (x : BitVec n) : x.abs.toNat = x.toInt.natAbs := by
  have := x.isLt
  rw [BitVec.toNat_abs, BitVec.toInt_eq_msb_cond]
  split <;> omega

theorem toSigned_yields {x : BitVec n} {i : Nat} (hx : x.toNat = i) (h : i < 2 ^ 31) :
    Yields (toSigned x) (·.toInt = i) := by
  subst hx
  rw [toSigned, if_pos h]
  refine .ok ?_
  rw [BitVec.toInt_eq_toNat_cond, BitVec.toNat_setWidth, Nat.mod_eq_of_lt (by omega),
    if_pos (by omega)]

/-- A number that is not negative is the same without the sign. -/
theorem toNat_eq_toNat (hx : x.toInt = i) (h : 0 ≤ i) : x.toNat = i.toNat := by
  have := x.isLt
  rw [BitVec.toInt_eq_toNat_cond] at hx
  split_ifs at hx <;> omega

theorem toUnsigned_yields (hx : x.toInt = i) (h : 0 ≤ i) (hk : i < 2 ^ k) :
    Yields (toUnsigned k x) (·.toNat = i.toNat) := by
  have hmsb : ¬x.msb := by
    rw [BitVec.msb_eq_toInt, decide_eq_true_iff]
    omega
  rw [toUnsigned, if_neg hmsb]
  refine resize_yields (toNat_eq_toNat hx h) ?_
  exact_mod_cast (Int.toNat_lt h).2 (by exact_mod_cast hk)

end Signed

end Word

end WasmEngine
