import WasmEngine.Value

/-!
# The integer side of float conversions

An `IntTarget` is one of the four integer ranges a float is converted to or
from. Integers travel as raw words: those of a 32-bit target lie in the low
half, the high half is ignored on the way in and zero on the way out.
`signMagnitude` reads a word as sign and magnitude, `ofSignMagnitude?` builds
the word for a sign and a magnitude that the range admits.
-/

namespace WasmEngine

/-- An integer range. -/
inductive IntTarget
  /-- Signed, 32 bits. -/
  | i32
  /-- Unsigned, 32 bits. -/
  | u32
  /-- Signed, 64 bits. -/
  | i64
  /-- Unsigned, 64 bits. -/
  | u64
  deriving DecidableEq

namespace IntTarget

/-- The name of a range. -/
def name : IntTarget → String
  | .i32 => "i32"
  | .u32 => "u32"
  | .i64 => "i64"
  | .u64 => "u64"

/-- The name of a range in diagnostic texts. -/
def debug : IntTarget → String
  | .i32 => "I32"
  | .u32 => "U32"
  | .i64 => "I64"
  | .u64 => "U64"

/-- All four ranges. -/
def all : List IntTarget := [.i32, .u32, .i64, .u64]

/-- The range of that name. -/
def ofName? (s : String) : Option IntTarget := all.find? fun t => t.name == s

/-- The number of bits of a range. -/
def bits : IntTarget → Nat
  | .i32 | .u32 => 32
  | .i64 | .u64 => 64

/-- Whether the range has negative numbers. -/
def signed : IntTarget → Bool
  | .i32 | .i64 => true
  | .u32 | .u64 => false

/-- The value type the integers of the range have. -/
def type : IntTarget → ValType
  | .i32 | .u32 => .i32
  | .i64 | .u64 => .i64

/-- The number of integers of a range. -/
def count (t : IntTarget) : Nat := 1 <<< t.bits

/-- The integer that a word denotes for this range. -/
def value (t : IntTarget) (r : Raw) : Int :=
  let n := r.toNat % t.count
  if t.signed ∧ t.count / 2 ≤ n then (n : Int) - t.count else n

/-- The sign and the magnitude of the integer a word denotes. -/
def signMagnitude (t : IntTarget) (r : Raw) : Bool × Nat :=
  let v := t.value r
  (v < 0, v.natAbs)

/-- The largest magnitude the range has on that side of zero. -/
def limit (t : IntTarget) (negative : Bool) : Nat :=
  match t.signed, negative with
  | true, true => t.count / 2
  | true, false => t.count / 2 - 1
  | false, true => 0
  | false, false => t.count - 1

/-- The word of an integer in the range: its two's complement at the width of
the range, zero-extended. -/
def word (t : IntTarget) (v : Int) : Raw := BitVec.ofNat 64 (v % t.count).toNat

/-- A word cut to the width of the range, zero-extended. -/
def cut (t : IntTarget) (r : Raw) : Raw := (r.setWidth t.bits).setWidth 64

/-- The word for a sign and a magnitude, if the range has that integer. -/
def ofSignMagnitude? (t : IntTarget) (negative : Bool) (magnitude : Nat) : Option Raw :=
  if t.limit negative < magnitude then none
  else some (t.word (if negative then -(magnitude : Int) else magnitude))

/-- The word of the smallest integer of the range. -/
def minRaw (t : IntTarget) : Raw := t.word (-(t.limit true : Int))

/-- The word of the largest integer of the range. -/
def maxRaw (t : IntTarget) : Raw := t.word (t.limit false)

end IntTarget

end WasmEngine
