import WasmEngine.Memory

/-!
# Memory operations as data

Everything that is done to a memory from outside of a program, and what comes
back. `Memory.apply` runs one operation; the memory that results is there
whether the operation succeeded or not.
-/

namespace WasmEngine.Memory

/-- An operation on a memory. -/
inductive Op
  /-- Start over. -/
  | reset (initial maximum : Nat)
  /-- Add pages. -/
  | grow (delta : Nat)
  /-- Read bytes. -/
  | load (addr len : Nat)
  /-- Write bytes. -/
  | store (addr : Nat) (bytes : List UInt8)
  /-- Set bytes to one value. -/
  | fill (addr len : Nat) (value : UInt8)
  /-- Copy bytes. -/
  | copy (dst src len : Nat)
  /-- Write one byte. -/
  | poke (addr : Nat) (value : UInt8)
  /-- List the runs of non-zero bytes. -/
  | dump

/-- What an operation answers. -/
inductive Reply
  /-- Nothing. -/
  | done
  /-- A page count, if growing succeeded. -/
  | pages (previous : Option Nat)
  /-- Bytes. -/
  | bytes (bs : List UInt8)
  /-- The byte that was replaced, if there was one. -/
  | byte (old : Option UInt8)
  /-- Runs of bytes. -/
  | runs (rs : List (Nat × List UInt8))

/-- An operation with nothing to tell. -/
def quietly (r : Except Error Unit × Memory) : Except Error Reply × Memory :=
  (r.1.map fun _ => .done, r.2)

/-- Runs an operation. -/
def apply (m : Memory) : Op → Except Error Reply × Memory
  | .reset initial maximum => quietly (m.reset initial maximum)
  | .grow delta =>
    let r := m.grow delta
    (.ok (.pages r.1), r.2)
  | .load addr len => ((m.load addr len).map .bytes, m)
  | .store addr bs => quietly (m.store addr bs)
  | .fill addr len b => quietly (m.fill addr len b)
  | .copy dst src len => quietly (m.copy dst src len)
  | .poke addr b =>
    let r := m.poke addr b
    (.ok (.byte r.1), r.2)
  | .dump => (.ok (.runs m.runs), m)

end WasmEngine.Memory
