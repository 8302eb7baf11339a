import WasmEngine.Instr
import WasmEngine.LittleEndian
import WasmEngine.Memory

/-!
# Loads and stores of values

A load or store instruction adds its static offset to the 32-bit address it is
given, reads or writes that many bytes in **little-endian** order, and extends
what it read to a word.
-/

namespace WasmEngine

/-- The address of an access: the low half of the operand plus the static offset. -/
def MemArg.address (arg : MemArg) (base : Raw) : Nat :=
  (base.low.toNat + arg.offset) % 0x10000000000000000

namespace LoadOp

/-- A number of `8 * width` bits as the word that the load produces. -/
def extend (op : LoadOp) (n : Nat) : Raw :=
  match op with
  | .full _ | .byte _ false | .short _ false | .word false => BitVec.ofNat 64 n
  | .byte .w32 true => Raw.ofLow ((BitVec.ofNat 8 n).signExtend 32)
  | .byte .w64 true => (BitVec.ofNat 8 n).signExtend 64
  | .short .w32 true => Raw.ofLow ((BitVec.ofNat 16 n).signExtend 32)
  | .short .w64 true => (BitVec.ofNat 16 n).signExtend 64
  | .word true => (BitVec.ofNat 32 n).signExtend 64

/-- The word at an address of a memory. -/
def run (op : LoadOp) (arg : MemArg) (m : Memory) (base : Raw) : Except Error Raw :=
  (m.load (arg.address base) op.width).map fun bs => op.extend (ofLittleEndian bs)

end LoadOp

/-- Writes the low bytes of a word at an address of a memory. -/
def StoreOp.run (op : StoreOp) (arg : MemArg) (m : Memory) (base value : Raw) :
    Except Error Unit × Memory :=
  m.store (arg.address base) (littleEndian op.width value.toNat)

end WasmEngine
