import WasmEngine.LittleEndian
import WasmEngine.Text.Utf8

/-!
# Readers

A `Reader` takes a value off the front of a list of bytes, or refuses. Integers
are written in groups of seven bits, the lowest first, with the eighth bit set
on all groups but the last (**LEB128**); an integer of `bits` bits has no more
groups than it needs at most, and the last of them sets no bit beyond `bits`. A
vector is its length and then its items.
-/

namespace WasmEngine

/-- Takes a value off the front of the bytes, or refuses. -/
abbrev Reader := StateT (List UInt8) Option

namespace Reader

/-- Refuses. -/
def refuse {α : Type} : Reader α := fun _ => none

/-- Refuses unless a condition holds. -/
def require (p : Prop) [Decidable p] : Reader Unit := if p then pure () else refuse

/-- What is there, or a refusal. -/
def the {α : Type} : Option α → Reader α
  | some a => pure a
  | none => refuse

/-- The next byte. -/
def byte : Reader Nat
  | [] => none
  | b :: rest => some (b.toNat, rest)

/-- The next byte, which stays where it is. -/
def peek : Reader Nat
  | [] => none
  | b :: rest => some (b.toNat, b :: rest)

/-- The next `n` bytes. -/
def bytes (n : Nat) : Reader (List UInt8) := fun bs =>
  if (bs.take n).length < n then none else some (bs.take n, bs.drop n)

/-- The number of bytes that are left. -/
def remaining : Reader Nat := fun bs => some (bs.length, bs)

/-- An unsigned number of that many bytes. -/
def fixed (width : Nat) : Reader Nat := return ofLittleEndian (← bytes width)

/-! ### Integers -/

/-- An unsigned integer. -/
def unsigned (bits : Nat) : Reader Nat
  | [] => none
  | b :: rest =>
    if b.toNat < 0x80 then
      if 7 ≤ bits ∨ b.toNat < 1 <<< bits then some (b.toNat, rest) else none
    else if 7 < bits then do
      let (n, rest) ← unsigned (bits - 7) rest
      some (b.toNat - 0x80 + 0x80 * n, rest)
    else none

/-- A signed integer. -/
def signed (bits : Nat) : Reader Int
  | [] => none
  | b :: rest =>
    if b.toNat < 0x40 then
      if 7 ≤ bits ∨ b.toNat < 1 <<< (bits - 1) then some (b.toNat, rest) else none
    else if b.toNat < 0x80 then
      if 7 ≤ bits ∨ 0x80 - 1 <<< (bits - 1) ≤ b.toNat then some (b.toNat - 0x80, rest) else none
    else if 7 < bits then do
      let (n, rest) ← signed (bits - 7) rest
      some (b.toNat - 0x80 + 0x80 * n, rest)
    else none

/-- An unsigned integer of 32 bits. -/
def u32 : Reader Nat := unsigned 32

/-- An unsigned integer of 64 bits. -/
def u64 : Reader Nat := unsigned 64

/-- A type index: a signed integer of 33 bits that is not negative. -/
def typeIndex : Reader Nat := do
  match ← signed 33 with
  | .ofNat n => return n
  | .negSucc _ => refuse

/-! ### Vectors -/

/-- So many values in a row. -/
def times {α : Type} (item : Reader α) : Nat → Reader (List α)
  | 0 => return []
  | n + 1 => return (← item) :: (← times item n)

/-- A vector. -/
def vector {α : Type} (item : Reader α) : Reader (List α) := do times item (← u32)

/-- A vector of bounded length. -/
def vectorUpTo {α : Type} (most : Nat) (item : Reader α) : Reader (List α) := do
  let n ← u32
  require (n ≤ most)
  times item n

/-- A text. -/
def name : Reader String := do
  let n ← u32
  require (n ≤ 100000)
  the (Text.ofUtf8? (← bytes n))

/-! ### Whole inputs -/

/-- The value that all the bytes stand for. -/
def whole? {α : Type} (r : Reader α) (bs : List UInt8) : Option α :=
  match r bs with
  | some (a, []) => some a
  | _ => none

/-- Values in a row until no byte is left. Each takes at least a byte, so the
number of bytes bounds theirs. -/
def toEnd {α : Type} (item : Reader α) : Reader (List α) := fun bs => go bs.length bs
where
  /-- At most so many values in a row, until no byte is left. -/
  go : Nat → Reader (List α)
    | _, [] => some ([], [])
    | 0, _ :: _ => none
    | n + 1, bs => do
      let (a, rest) ← item bs
      let (as, rest) ← go n rest
      some (a :: as, rest)

/-- Values in a row up to the first that ends them, which is left out. -/
def upTo {α : Type} (ends : α → Bool) (item : Reader α) : Reader (List α) :=
  fun bs => go bs.length bs
where
  /-- At most so many values in a row, up to the first that ends them. -/
  go : Nat → Reader (List α)
    | 0, _ => none
    | n + 1, bs => do
      let (a, rest) ← item bs
      if ends a then some ([], rest)
      else
        let (as, rest) ← go n rest
        some (a :: as, rest)

end Reader

end WasmEngine
