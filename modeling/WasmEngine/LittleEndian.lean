/-!
# Little-endian numbers

Numbers as bytes with the lowest byte first. `ofLittleEndian_littleEndian` says
that writing a number in `width` bytes and reading it back leaves its remainder
by `256` to the power of `width`.
-/

namespace WasmEngine

/-- The low bytes of a number, the lowest first. -/
def littleEndian : (width n : Nat) → List UInt8
  | 0, _ => []
  | w + 1, n => UInt8.ofNat n :: littleEndian w (n / 256)

/-- The number whose bytes are given, the lowest first. -/
def ofLittleEndian : List UInt8 → Nat
  | [] => 0
  | b :: bs => b.toNat + 256 * ofLittleEndian bs

@[simp]
theorem length_littleEndian (width n : Nat) : (littleEndian width n).length = width := by
  induction width generalizing n with
  | zero => rfl
  | succ w ih => simp [littleEndian, ih]

theorem ofLittleEndian_littleEndian (width n : Nat) :
    ofLittleEndian (littleEndian width n) = n % Nat.pow 256 width := by
  induction width generalizing n with
  | zero => simp [littleEndian, ofLittleEndian, Nat.mod_one]
  | succ w ih =>
    have hpow : Nat.pow 256 (w + 1) = 256 * Nat.pow 256 w := Nat.mul_comm _ _
    rw [littleEndian, ofLittleEndian, ih, hpow, Nat.mod_mul]
    simp

end WasmEngine
