import WasmEngine.Float.Native
import WasmEngine.Proofs.Values

/-!
# 32-bit values are zero-extended

A word is held in 64 bits, whatever its type. A type **admits** a word
(`WasmEngine.ValType.Admits`) if it is 64 bits wide or the high half of the word
is zero.

Whatever computes a value computes one that its type admits
(`WasmEngine.FloatPolicy.upholds_admits`). Most operations make it so, because
they end in a zero extension; loads of a whole 32-bit value do, because four
bytes are not enough for more; and a reinterpretation, which hands its operand
on, relies on the operand. Only the truncation of a float is left to the policy
(`WasmEngine.FloatPolicy.ZeroExtends`); both policies do it right, the hard one
on every float unit.
-/

namespace WasmEngine

/-- **The words that a type admits**: those of a 32-bit type have a zero high
half. -/
def ValType.Admits (t : ValType) (r : Raw) : Prop := t.isNarrow = true → r.toNat < 0x100000000

instance (t : ValType) (r : Raw) : Decidable (t.Admits r) := inferInstanceAs (Decidable (_ → _))

namespace ValType

theorem admits_of_wide {t : ValType} (h : t.isNarrow = false) (r : Raw) : t.Admits r := by
  intro hn
  rw [h] at hn
  cases hn

theorem admits_ofLow (t : ValType) (b : BitVec 32) : t.Admits (Raw.ofLow b) := by
  intro _
  have := b.isLt
  rw [Raw.ofLow, BitVec.toNat_setWidth]
  omega

theorem admits_ofBool (t : ValType) (b : Bool) : t.Admits (Raw.ofBool b) := by
  intro _
  cases b <;> decide

theorem admits_toRaw (v : Value) : v.type.Admits v.toRaw := by
  cases v with
  | i32 b | f32 b => exact admits_ofLow _ b
  | i64 b | f64 b => exact admits_of_wide rfl b

/-- What an operation at 32 bits leaves, any type admits. -/
theorem admits_width (t : ValType) {w : Width} (b : BitVec w.bits)
    (h : t.isNarrow = true → w = .w32) : t.Admits (Width.toRaw b) := by
  intro hn
  obtain rfl := h hn
  exact admits_ofLow t b hn

theorem admits_int {w : Width} (b : BitVec w.bits) : w.int.Admits (Width.toRaw b) :=
  admits_width _ b (by cases w <;> simp [Width.int, isNarrow])

theorem admits_float {w : Width} (b : BitVec w.bits) : w.float.Admits (Width.toRaw b) :=
  admits_width _ b (by cases w <;> simp [Width.float, isNarrow])

/-- A reinterpretation is between types of one width. -/
theorem isNarrow_reinterpreted (t : ValType) : t.reinterpreted.isNarrow = t.isNarrow := by
  cases t <;> rfl

end ValType

/-! ### Truncation -/

theorem IntTarget.isNarrow_type (t : IntTarget) (h : t.type.isNarrow = true) :
    t.count = 0x100000000 := by
  cases t with
  | i32 | u32 => rfl
  | i64 | u64 => cases h

theorem IntTarget.admits_word (t : IntTarget) (v : Int) : t.type.Admits (t.word v) := by
  intro hn
  rw [word, t.isNarrow_type hn, BitVec.toNat_ofNat]
  omega

theorem IntTarget.admits_cut (t : IntTarget) (r : Raw) : t.type.Admits (t.cut r) := by
  intro hn
  cases t with
  | i32 | u32 => exact ValType.admits_ofLow .i32 _ hn
  | i64 | u64 => cases hn

theorem IntTarget.admits_ofSignMagnitude {t : IntTarget} {negative : Bool}
    {magnitude : Nat} {r : Raw} (h : t.ofSignMagnitude? negative magnitude = some r) :
    t.type.Admits r := by
  rw [ofSignMagnitude?, Option.ite_none_left_eq_some] at h
  exact Option.some.inj h.2 ▸ t.admits_word _

namespace FloatOps

/-- Whether truncation leaves 32-bit integers zero-extended. -/
def ZeroExtends {w : Width} (ops : FloatOps w) : Prop :=
  ∀ {t : IntTarget} {a : Pattern w} {r : Raw}, ops.toInt t a = .ok r → t.type.Admits r

variable {w : Width}

theorem ZeroExtends.toIntSat {ops : FloatOps w} (h : ops.ZeroExtends)
    (t : IntTarget) (a : Pattern w) : t.type.Admits (ops.toIntSat t a) := by
  rw [FloatOps.toIntSat]
  split
  · next hr => exact h hr
  · exact fun _ => by decide
  · split
    · exact t.admits_word _
    · exact t.admits_word _

theorem soft_zeroExtends (w : Width) : (soft w).ZeroExtends := by
  intro t a r h
  simp only [soft, Format.toInt] at h
  split at h
  · cases h
  split at h
  · cases h
  split at h
  · exact Except.ok.inj h ▸ fun _ => by decide
  split at h
  · cases h
  split at h
  · next hr => exact Except.ok.inj h ▸ IntTarget.admits_ofSignMagnitude hr
  · cases h

end FloatOps

/-- Whatever a float unit delivers is cut to the width of the range. -/
theorem NativeOps.repaired_zeroExtends {w : Width} (n : NativeOps w) : n.repaired.ZeroExtends := by
  intro t a r hr
  simp only [repaired, toIntChecked] at hr
  split at hr
  · cases hr
  split at hr
  · cases hr
  · exact Except.ok.inj hr ▸ t.admits_cut _

/-! ### Loads -/

theorem ofLittleEndian_lt (bs : List UInt8) : ofLittleEndian bs < Nat.pow 256 bs.length := by
  induction bs with
  | nil => decide
  | cons b bs ih =>
    have hb := b.toNat_lt
    have hpow : Nat.pow 256 (bs.length + 1) = 256 * Nat.pow 256 bs.length := Nat.mul_comm _ _
    rw [ofLittleEndian, List.length_cons, hpow]
    omega

theorem Memory.length_bytes (m : Memory) (addr len : Nat) : (m.bytes addr len).length = len := by
  have key (bs : List UInt8) : (m.bytesOnto addr len bs).length = len + bs.length := by
    induction len generalizing bs with
    | zero => simp [bytesOnto]
    | succ n ih =>
      rw [bytesOnto, ih, List.length_cons]
      omega
  exact key []

/-- A number that fits into the bytes of a load is extended to what the type of
the load admits. -/
theorem LoadOp.admits_extend (op : LoadOp) {n : Nat} (h : n < Nat.pow 256 op.width) :
    op.type.Admits (op.extend n) := by
  -- without a sign, few bytes make a small number
  have small (hn : n < 0x100000000) : op.type.Admits (BitVec.ofNat 64 n) := by
    intro _
    rw [BitVec.toNat_ofNat]
    omega
  match op, h with
  | .full .i32, h | .full .f32, h => exact small h
  | .full .i64, _ | .full .f64, _ => exact ValType.admits_of_wide rfl _
  | .byte _ false, h => exact small (Nat.lt_trans (m := 0x100) h (by decide))
  | .short _ false, h => exact small (Nat.lt_trans (m := 0x10000) h (by decide))
  | .byte .w32 true, _ | .short .w32 true, _ => exact ValType.admits_ofLow _ _
  | .byte .w64 true, _ | .short .w64 true, _ | .word _, _ => exact ValType.admits_of_wide rfl _

/-! ### Policies -/

namespace FloatPolicy

/-- The policies whose truncations leave 32-bit integers zero-extended. -/
def ZeroExtends (p : FloatPolicy) : Prop := ∀ w, (p.ops w).ZeroExtends

theorem soft_zeroExtends : soft.ZeroExtends := FloatOps.soft_zeroExtends

theorem hard_zeroExtends (n : Native) : (hard n).ZeroExtends :=
  fun w => (n.ops w).repaired_zeroExtends

/-- **Whatever computes a value computes one that its type admits.** -/
theorem upholds_admits {p : FloatPolicy} (hp : p.ZeroExtends) : p.Upholds ValType.Admits where
  value := ValType.admits_toRaw
  load {op arg m base r} h := by
    rw [LoadOp.run, Memory.load] at h
    split at h
    · obtain rfl := Except.ok.inj h
      refine op.admits_extend ?_
      simpa only [Memory.length_bytes] using ofLittleEndian_lt (m.bytes (arg.address base) op.width)
    · cases h
  unary {op a r} ha h := by
    cases op with
    | eqz w => exact Except.ok.inj h ▸ ValType.admits_ofBool _ _
    | count w op | extend8 w | extend16 w => exact Except.ok.inj h ▸ ValType.admits_int _
    | extend32 | extend signed | promote => exact ValType.admits_of_wide rfl _
    | float w op | convert w t => exact Except.ok.inj h ▸ ValType.admits_float _
    | wrap => exact Except.ok.inj h ▸ ValType.admits_ofLow _ _
    | truncate w t => exact hp w h
    | saturate w t => exact Except.ok.inj h ▸ FloatOps.ZeroExtends.toIntSat (hp w) t _
    | demote => exact Except.ok.inj h ▸ ValType.admits_float (w := .w32) _
    | reinterpret t =>
      -- the bits are handed on as they are
      obtain rfl := Except.ok.inj h
      exact fun hn => ha (t.isNarrow_reinterpreted.trans hn)
  binary {op a b r} _ _ h := by
    cases op with
    | int w op =>
      rw [Binary.eval] at h
      cases hc : op.eval (w.ofRaw a) (w.ofRaw b) with
      | error e =>
        rw [hc] at h
        cases h
      | ok c =>
        rw [hc] at h
        exact Except.ok.inj h ▸ ValType.admits_int c
    | intCompare w op | floatCompare w op => exact Except.ok.inj h ▸ ValType.admits_ofBool _ _
    | float w op => exact Except.ok.inj h ▸ ValType.admits_float _

end FloatPolicy

end WasmEngine
