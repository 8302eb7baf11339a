import WasmEngine.Type.Space

/-!
# Declarations of tables, memories and globals

The types of tables, memories and globals as a binary declares them, which is
more than the engine has: a table may hold any references, tables and memories
may be indexed with 64 bits, and memories may be shared between threads. Tables
and globals that are shared and pages of other sizes can be written, but are not
valid.
-/

namespace WasmEngine

/-- The type of a table as a binary declares it. -/
structure TableDecl where
  /-- What it holds. -/
  element : RefType
  /-- Whether its indices have 64 bits. -/
  is64 : Bool
  /-- Whether threads share it. -/
  shared : Bool
  /-- The number of entries at the start. -/
  initial : Nat
  /-- The number of entries it may grow to. -/
  max : Option Nat

/-- The type of a memory as a binary declares it. -/
structure MemoryDecl where
  /-- Whether its addresses have 64 bits. -/
  is64 : Bool
  /-- Whether threads share it. -/
  shared : Bool
  /-- The number of pages at the start. -/
  initial : Nat
  /-- The number of pages it may grow to. -/
  max : Option Nat
  /-- The binary logarithm of the size of a page, if it is said. -/
  pageSize : Option Nat

/-- The type of a global as a binary declares it. -/
structure GlobalDecl where
  /-- Whether it may be written. -/
  isMutable : Bool
  /-- Whether threads share it. -/
  shared : Bool
  /-- What it holds. -/
  type : AnyType

/-- Whether neither the initial size nor the maximum, if there is one, is above
a bound, and the first not above the second. -/
def isWithin (most initial : Nat) (max : Option Nat) : Bool :=
  initial ≤ most && max.all fun m => initial ≤ m && m ≤ most

/-- Whether the type of a table is valid: each of its entries has an index. -/
def TableDecl.isValid (s : TypeSpace) (t : TableDecl) : Bool :=
  s.hasHeap t.element.heap && !t.shared && isWithin
    (1 <<< (if t.is64 then 64 else 32) - 1) t.initial t.max

/-- Whether the type of a memory is valid: a page has 64 KiB, and all pages can
be addressed. -/
def MemoryDecl.isValid (m : MemoryDecl) : Bool :=
  m.pageSize.isNone && (!m.shared || m.max.isSome) && isWithin
    (1 <<< (if m.is64 then 48 else 16)) m.initial m.max

/-- Whether the type of a global is valid. -/
def GlobalDecl.isValid (s : TypeSpace) (g : GlobalDecl) : Bool := s.has g.type && !g.shared

end WasmEngine
