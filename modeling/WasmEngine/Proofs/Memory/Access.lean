import WasmEngine.Memory.Access
import WasmEngine.Proofs.Memory.Range

/-!
# What loads read that stores have written

A store writes the low bytes of a word, the lowest first, and a load puts the
bytes that it reads together in the same order. So a load of as many bytes from
the same place has the low bits of the word that was stored, which it extends to
a word again (`WasmEngine.LoadOp.pick`): with zeros, or with their sign as far
as the type of its result goes and with zeros behind that.

The place is the sum of the operand and the offset of the instruction. Both are
below `2 ^ 32`, and their sum is taken as it is. So the same place can be given
in several ways, and an access can be outside of a memory that both numbers are
inside of.
-/

namespace WasmEngine

/-! ### Bytes of a number -/

theorem getElem?_littleEndian {width i : Nat} (h : i < width) (n : Nat) :
    (littleEndian width n)[i]? = some (UInt8.ofNat (n >>> (8 * i))) := by
  induction width generalizing n i with
  | zero => omega
  | succ width ih =>
    cases i with
    | zero => rfl
    | succ i =>
      have hshift : (n / 256) >>> (8 * i) = n >>> (8 * (i + 1)) := by
        rw [Nat.mul_succ, Nat.add_comm, Nat.shiftRight_add, Nat.shiftRight_eq_div_pow n 8]
      rw [littleEndian, List.getElem?_cons_succ, ih (Nat.lt_of_succ_lt_succ h), hshift]

/-- The number of so many low bytes of a word are its low bits. -/
theorem ofNat_mod_pow (width : Nat) (r : Raw) :
    BitVec.ofNat (8 * width) (r.toNat % Nat.pow 256 width) = r.setWidth (8 * width) := by
  have hpow : Nat.pow 256 width = Nat.pow 2 (8 * width) := (Nat.pow_mul 2 8 width).symm
  refine BitVec.eq_of_toNat_eq ?_
  rw [BitVec.toNat_ofNat, BitVec.toNat_setWidth, hpow]
  exact Nat.mod_mod _ _

/-! ### Loads -/

/-- The number of bits of a value. -/
def ValType.bits (t : ValType) : Nat := if t.isNarrow then 32 else 64

namespace LoadOp

/-- Whether what is read is extended with its sign. -/
def isSigned : LoadOp → Bool
  | .full _ => false
  | .byte _ signed | .short _ signed | .word signed => signed

/-- **What a load has of a word**: as many low bits as it reads, extended to the
type of the result with their sign or with zeros, and to a word with zeros. -/
def pick (op : LoadOp) (r : Raw) : Raw :=
  if op.isSigned then ((r.setWidth (8 * op.width)).signExtend op.type.bits).setWidth 64
  else (r.setWidth (8 * op.width)).setWidth 64

theorem width_pos (op : LoadOp) : 0 < op.width := by
  rcases op with t | _ | _ | _
  · cases t <;> decide
  all_goals exact Nat.succ_pos _

theorem width_le (op : LoadOp) : op.width ≤ 8 := by
  rcases op with t | _ | _ | _
  · cases t <;> decide
  all_goals exact Nat.le_of_ble_eq_true rfl

theorem extend_of_unsigned {op : LoadOp} (h : op.isSigned = false) (n : Nat) :
    op.extend n = BitVec.ofNat 64 n := by
  cases op with
  | full t => rfl
  | byte w signed | short w signed | word signed =>
    obtain rfl : signed = false := h
    rfl

theorem extend_of_signed {op : LoadOp} (h : op.isSigned = true) (n : Nat) :
    op.extend n = ((BitVec.ofNat (8 * op.width) n).signExtend op.type.bits).setWidth 64 := by
  cases op with
  | full t => cases h
  | byte w signed | short w signed =>
    obtain rfl : signed = true := h
    cases w with
    | w32 => rfl
    | w64 => exact (BitVec.setWidth_eq _).symm
  | word signed =>
    obtain rfl : signed = true := h
    exact (BitVec.setWidth_eq _).symm

/-- Of the number that the low bytes of a word are, a load makes what it has of
the word. -/
theorem extend_eq_pick (op : LoadOp) (r : Raw) :
    op.extend (r.toNat % Nat.pow 256 op.width) = op.pick r := by
  rw [pick]
  split
  · next h => rw [extend_of_signed h, ofNat_mod_pow]
  · next h =>
    have hpow : Nat.pow 256 op.width = Nat.pow 2 (8 * op.width) := (Nat.pow_mul 2 8 op.width).symm
    have hlt : r.toNat % Nat.pow 256 op.width < Nat.pow 2 (8 * op.width) := by
      rw [hpow]
      exact Nat.mod_lt _ (Nat.pow_pos (by decide))
    have hle := op.width_le
    rw [extend_of_unsigned (Bool.eq_false_iff.2 h), ← ofNat_mod_pow]
    exact (BitVec.setWidth_ofNat_of_le_of_lt (by omega) hlt).symm

end LoadOp

theorem MemArg.address_eq {arg : MemArg} (h : arg.offset < 0x100000000) (base : Raw) :
    arg.address base = base.low.toNat + arg.offset := by
  have hbase : base.low.toNat < 0x100000000 := base.low.isLt
  exact Nat.mod_eq_of_lt (by omega)

namespace LoadOp

variable {op : LoadOp} {arg : MemArg} {base : Raw} {m m' : Memory}

/-- A load of bytes that are known. -/
theorem run_of_bytes {bs : List UInt8} (hlen : bs.length = op.width)
    (hbytes : ∀ i < op.width, m.data[arg.address base + i]? = bs[i]?) : op.run arg m base =
    .ok (op.extend (ofLittleEndian bs)) := by
  have hpos := op.width_pos
  have hreads := m.reads_load (arg.address base) op.width
  have hin : arg.address base + op.width ≤ m.size := by
    -- The last byte of the range is there.
    have hlast := (hbytes (op.width - 1) (by omega)).trans (List.getElem?_eq_getElem (by omega))
    rw [m.getElem?_data] at hlast
    obtain ⟨hlt, -⟩ := List.getElem?_eq_some_iff.1 hlast
    rw [Memory.length_contents] at hlt
    omega
  obtain ⟨bs', hload⟩ := hreads.ok_iff.2 hin
  obtain rfl : bs' = bs := by
    refine List.ext_getElem? fun i => ?_
    by_cases hi : i < op.width
    · rw [hreads.bytes hload i hi, hbytes i hi]
    · rw [List.getElem?_eq_none (by rw [hreads.length hload]; omega),
        List.getElem?_eq_none (by omega)]
  rw [run, hload]
  rfl

/-- A load gets at no other bytes than those of its range. -/
theorem run_congr (hsize : m'.size = m.size)
    (hbytes : ∀ i < op.width, m'.data[arg.address base + i]? = m.data[arg.address base + i]?) :
    op.run arg m' base = op.run arg m base := by
  have hreads := m.reads_load (arg.address base) op.width
  by_cases hin : arg.address base + op.width ≤ m.size
  · obtain ⟨bs, hload⟩ := hreads.ok_iff.2 hin
    have hsame := hreads.bytes hload
    rw [run_of_bytes (hreads.length hload) fun i hi => (hsame i hi).symm,
      run_of_bytes (hreads.length hload) fun i hi => (hbytes i hi).trans (hsame i hi).symm]
  · have hreads' := m'.reads_load (arg.address base) op.width
    rw [run, run, hreads.fails (by omega), hreads'.fails (by omega), hsize]

end LoadOp

/-! ### Stores -/

/-- **What a store of a value comes to**, at an address in a memory. -/
structure StoreOp.Stores (op : StoreOp) (addr : Nat) (value : Raw) (m : Memory)
    (r : Except Error Unit × Memory) : Prop where
  /-- It succeeds exactly if all its bytes are inside. -/
  ok_iff : r.1 = .ok () ↔ addr + op.width ≤ m.size
  /-- It traps otherwise, and then changes nothing. -/
  traps : m.size < addr + op.width →
    r = (.error (.trap (.memoryOutOfBounds addr op.width m.size)), m)
  /-- The bytes are those of the value, the lowest first. -/
  bytes : r.1 = .ok () →
    ∀ i < op.width, r.2.data[addr + i]? = some (UInt8.ofNat (value.toNat >>> (8 * i)))
  /-- All other bytes are what they were. -/
  others : ∀ i, i < addr ∨ addr + op.width ≤ i → r.2.data[i]? = m.data[i]?
  /-- There are as many bytes as before. -/
  size : r.2.size = m.size
  /-- A load of as many bytes from the same place has the value, as long as the
  bytes stay. -/
  loads : r.1 = .ok () → ∀ {load : LoadOp} {arg : MemArg} {base : Raw} {later : Memory},
    arg.offset < 0x100000000 →
    base.low.toNat + arg.offset = addr → load.width = op.width →
    (∀ i < op.width, later.data[addr + i]? = r.2.data[addr + i]?) →
    load.run arg later base = .ok (load.pick value)
  /-- A load from elsewhere has what it had before. -/
  apart : ∀ {load : LoadOp} {arg : MemArg} {base : Raw}, arg.offset < 0x100000000 →
    (base.low.toNat + arg.offset + load.width ≤ addr ∨
      addr + op.width ≤ base.low.toNat + arg.offset) →
    load.run arg r.2 base = load.run arg m base

/-- **Stores write little-endian numbers, and loads read them.** The address is
the sum of operand and offset, which is not reduced. -/
theorem StoreOp.run_stores (op : StoreOp) {arg : MemArg} (harg : arg.offset < 0x100000000)
    (m : Memory) (base value : Raw) :
    op.Stores (base.low.toNat + arg.offset) value m (op.run arg m base value) := by
  have hwrites := m.writes_store (arg.address base) (littleEndian op.width value.toNat)
  rw [← run, length_littleEndian, arg.address_eq harg] at hwrites
  generalize base.low.toNat + arg.offset = addr at hwrites ⊢
  refine ⟨?_, fun hout => hwrites.fails (List.find?_cons_of_pos (decide_eq_true hout)),
    fun hok i hi => ?_, hwrites.outside, hwrites.size,
    fun hok load arg' base' later harg' haddr hwidth hlater => ?_,
    fun {load arg' base'} harg' haddr => ?_⟩
  · rw [hwrites.ok_iff, List.forall_mem_singleton]
  · rw [hwrites.inside hok i hi, getElem?_littleEndian hi]
  · -- The bytes of the range are still those of the value, which a load puts together again.
    rw [LoadOp.run_of_bytes ((length_littleEndian op.width value.toNat).trans hwidth.symm)
      fun i hi => ?_, ofLittleEndian_littleEndian, ← hwidth, LoadOp.extend_eq_pick]
    rw [arg'.address_eq harg', haddr, hlater i (hwidth ▸ hi), hwrites.inside hok i (hwidth ▸ hi)]
  · refine LoadOp.run_congr hwrites.size fun i hi => hwrites.outside _ ?_
    rw [arg'.address_eq harg']
    omega

/-- Two bytes at the end of a memory of eight, whose address is two plus four
for the store and six for the load. The sign of what was stored goes as far as
the 32 bits of the result. -/
theorem StoreOp.short_stores : (⟨4, 0⟩ : MemArg).offset < 0x100000000 ∧
    LoadOp.run (.short .w32 true) ⟨0, 0⟩
      (StoreOp.run (.short .w32) ⟨4, 0⟩ ⟨⟨#[0, 0, 0, 0, 0, 0, 0, 0]⟩, 1, 8⟩ 2 0x12348001).2 6 =
      .ok 0xffff8001 := by
  have harg : (⟨4, 0⟩ : MemArg).offset < 0x100000000 := by decide
  have hstores := run_stores (.short .w32) harg ⟨⟨#[0, 0, 0, 0, 0, 0, 0, 0]⟩, 1, 8⟩ 2 0x12348001
  exact ⟨harg, hstores.loads (hstores.ok_iff.2 (by decide)) (by decide) (by decide)
    rfl fun _ _ => rfl⟩

end WasmEngine
