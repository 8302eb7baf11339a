import WasmEngine.Error

/-!
# Linear memory

A memory is a row of bytes, a whole number of pages long. It grows, up to a
**maximum** that was fixed when it was last reset and a **byte limit** that was
fixed when it was made, and it never shrinks except by a reset.

An access names a range of bytes; it succeeds exactly when the range ends inside
the memory, and otherwise traps and changes nothing. Operations return the
memory they leave, also when they fail. `Memory.byte` is the pointwise view that
the operations are described by.
-/

namespace WasmEngine

/-! ### Checked sums -/

/-- A sum, unless it is above the greatest number that is counted to. -/
def checkedAdd (greatest a b : Nat) : Option Nat :=
  if a + b ≤ greatest then some (a + b) else none

/-- Whether a range ends inside so many places. Its end is a checked sum, and it
is counted to the number of places at least. -/
def endsInside (places start len : Nat) : Bool :=
  match checkedAdd (max 0xffffffffffffffff places) start len with
  | some stop => stop ≤ places
  | none => false

/-- **A range whose end cannot be counted does not end inside**, so that the
check of the sum does not matter. -/
theorem endsInside_eq (places start len : Nat) :
    endsInside places start len = decide (start + len ≤ places) := by
  rw [endsInside, checkedAdd]
  by_cases h : start + len ≤ max 0xffffffffffffffff places
  · rw [if_pos h]
  · rw [if_neg h]
    exact (decide_eq_false fun hle => h (Nat.le_trans hle (Nat.le_max_right _ _))).symm

/-! ### Memories -/

/-- A linear memory. -/
structure Memory where
  /-- The addressable bytes. -/
  data : ByteArray
  /-- The number of pages it may grow to. -/
  maxPages : Nat
  /-- The number of bytes it may ever have. -/
  byteLimit : Nat

namespace Memory

/-- The number of bytes of a page. -/
def pageSize : Nat := 65536

/-- The byte limit of a memory without one: no address goes further. -/
def noLimit : Nat := 0xffffffffffffffff

/-- A memory without pages, which a reset brings into being. -/
def empty (byteLimit : Nat) : Memory := ⟨ByteArray.empty, 0, byteLimit⟩

variable (m : Memory)

/-- The number of addressable bytes. -/
def size : Nat := m.data.size

/-- The number of pages. -/
def pages : Nat := m.size / pageSize

/-- The byte at an address, zero outside. -/
def byte (i : Nat) : UInt8 := (m.data[i]?).getD 0

/-! ### Growth -/

/-- As many zero bytes as `2 ^ k`. -/
def zeros : (k : Nat) → ByteArray
  | 0 => ⟨#[0]⟩
  | k + 1 => let half := zeros k; half ++ half

/-- A page of zeros. -/
def zeroPage : ByteArray := zeros 16

/-- The bytes followed by a number of zero pages. -/
def addPages (data : ByteArray) : (pages : Nat) → ByteArray
  | 0 => data
  | n + 1 => addPages (data ++ zeroPage) n

/-- Adds zero pages, and returns how many there were before; `none` if the
memory may not grow that far. -/
def grow (delta : Nat) : Option Nat × Memory :=
  match checkedAdd 0xffffffff m.pages delta with
  | none => (none, m)
  | some total =>
    if total ≤ m.maxPages ∧ total * pageSize ≤ m.byteLimit then
      (some m.pages, { m with data := addPages m.data delta })
    else (none, m)

/-- Starts over with zero pages. A memory that may not have that many bytes is
left without any, and keeps its maximum. -/
def reset (initial maximum : Nat) : Except Error Unit × Memory :=
  if maximum < initial then (.error (.fault (.initialPages initial maximum)), m)
  else if m.byteLimit < initial * pageSize then
    (.error (.fault (.cannotAllocate initial)), { m with data := ByteArray.empty })
  else (.ok (), { m with data := addPages ByteArray.empty initial, maxPages := maximum })

/-! ### Accesses -/

/-- Whether a range of bytes lies inside the memory. -/
def inBounds (addr len : Nat) : Bool := endsInside m.size addr len

/-- The trap of an access outside. -/
def outOfBounds (addr len : Nat) : Error := .trap (.memoryOutOfBounds addr len m.size)

/-- The bytes of a range, put in front of others. -/
def bytesOnto (addr : Nat) : (len : Nat) → List UInt8 → List UInt8
  | 0, bs => bs
  | n + 1, bs => bytesOnto addr n (m.byte (addr + n) :: bs)

/-- The bytes of a range. -/
def bytes (addr len : Nat) : List UInt8 := m.bytesOnto addr len []

/-- Writes a byte; outside of the memory nothing happens. -/
def setByte (data : ByteArray) (i : Nat) (b : UInt8) : ByteArray :=
  if h : i < data.size then data.set i b h else data

/-- Writes bytes in a row. -/
def setBytes (data : ByteArray) (addr : Nat) : List UInt8 → ByteArray
  | [] => data
  | b :: bs => setBytes (setByte data addr b) (addr + 1) bs

/-- Writes one byte over and over. -/
def setAll (data : ByteArray) (addr : Nat) (b : UInt8) : (len : Nat) → ByteArray
  | 0 => data
  | n + 1 => setAll (setByte data addr b) (addr + 1) b n

/-- Reads a range. -/
def load (addr len : Nat) : Except Error (List UInt8) :=
  if m.inBounds addr len then .ok (m.bytes addr len) else .error (m.outOfBounds addr len)

/-- Writes a range. -/
def store (addr : Nat) (bs : List UInt8) : Except Error Unit × Memory :=
  if m.inBounds addr bs.length then (.ok (), { m with data := setBytes m.data addr bs })
  else (.error (m.outOfBounds addr bs.length), m)

/-- Sets every byte of a range. -/
def fill (addr len : Nat) (b : UInt8) : Except Error Unit × Memory :=
  if m.inBounds addr len then (.ok (), { m with data := setAll m.data addr b len })
  else (.error (m.outOfBounds addr len), m)

/-- Copies a range as it was before; the source is checked first. -/
def copy (dst src len : Nat) : Except Error Unit × Memory :=
  if ¬ m.inBounds src len then (.error (m.outOfBounds src len), m)
  else if ¬ m.inBounds dst len then (.error (m.outOfBounds dst len), m)
  else (.ok (), { m with data := (m.data.extract src (src + len)).copySlice 0 m.data dst len })

/-- Writes one byte, and returns the one it replaces; outside of the memory
nothing happens. -/
def poke (addr : Nat) (b : UInt8) : Option UInt8 × Memory :=
  (m.data[addr]?, { m with data := setByte m.data addr b })

/-! ### What is in a memory -/

/-- Puts a byte in front of the runs of non-zero bytes that follow it. -/
def pushRun (i : Nat) (b : UInt8) (runs : List (Nat × List UInt8)) : List (Nat × List UInt8) :=
  if b = 0 then runs
  else
    match runs with
    | (j, bs) :: rest => if j = i + 1 then (i, b :: bs) :: rest else (i, [b]) :: runs
    | [] => [(i, [b])]

/-- The runs of non-zero bytes below `n`, put in front of the runs from `n` on. -/
def runsBelow : (n : Nat) → List (Nat × List UInt8) → List (Nat × List UInt8)
  | 0, runs => runs
  | i + 1, runs => runsBelow i (pushRun i (m.byte i) runs)

/-- The maximal runs of non-zero bytes with the addresses they start at. -/
def runs : List (Nat × List UInt8) := m.runsBelow m.size []

/-- The diagnostic form, with every byte. -/
def debug : String :=
  Text.record "WasmAllocator"
    [("data", Text.bracketed ((m.bytes 0 m.size).map fun b => toString b.toNat)),
      ("max_pages", toString m.maxPages), ("byte_limit", toString m.byteLimit)]

end Memory

end WasmEngine
