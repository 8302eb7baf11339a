import WasmEngine.Guard
import WasmEngine.Memory.Access
import WasmEngine.Memory.Op
import WasmEngine.Run
import WasmEngine.Store

/-!
# Worlds

A **world** is everything a running program can change: the store of its
instance, the call guard and the context of its host. The runs defined here are
what both ways of executing code do to it, one for each kind of instruction that
reaches beyond operands and locals.
-/

namespace WasmEngine

/-- What a running program can change. -/
structure World (H : Type) where
  /-- The state of the instance. -/
  store : Store
  /-- The calls that are active. -/
  guard : Guard
  /-- The context of the host. -/
  host : H

namespace World

variable {H α : Type}

/-- The diagnostic form, as a host function sees the world it is called in. -/
def debug (w : World H) : String :=
  Text.openRecord "Caller" [("guard", w.guard.debug), ("store", w.store.debug)]

/-! ### The guard -/

/-- Takes a unit of call depth. -/
def enter : Run (World H) Unit := fun w =>
  match w.guard.enter with
  | .ok g => (.ok (), { w with guard := g })
  | .error t => (.error (.error (.trap t)), w)

/-- The world with units of call depth returned. -/
def exits (n : Nat) (w : World H) : World H := { w with guard := w.guard.exits n }

/-- A run that holds a unit of call depth, and returns it whatever its outcome. -/
@[inline]
def guarded (x : Run (World H) α) : Run (World H) α := do
  enter
  x.leaving (exits 1)

/-! ### The store -/

/-- Looks at the store. -/
@[inline]
def seeStore (f : Store → Except Error α) : Run (World H) α := fun w =>
  match f w.store with
  | .ok a => (.ok a, w)
  | .error e => (.error (.error e), w)

/-- Changes the store. -/
@[inline]
def onStore (f : Store → Except Error α × Store) : Run (World H) α := fun w =>
  match w with
  | ⟨s, g, h⟩ =>
    match f s with
    | (.ok a, s) => (.ok a, ⟨s, g, h⟩)
    | (.error e, s) => (.error (.error e), ⟨s, g, h⟩)

/-- The value of a global. -/
def global (i : Nat) : Run (World H) Raw := seeStore fun s => s.global i

/-- Writes a global. -/
def setGlobal (i : Nat) (r : Raw) : Run (World H) Unit := onStore fun s => s.setGlobal i r

/-- The function at an entry of a table. -/
def tableFunc (table : Nat) (index : Raw) : Run (World H) Nat :=
  seeStore fun s => s.tableFunc table index.low.toNat

/-! ### The memory -/

/-- Runs an operation on the memory. -/
def onMemory (f : Memory → Except Error α × Memory) : Run (World H) α :=
  onStore fun s => s.onMemory f

/-- A number of pages as an operand. -/
def pagesRaw (n : Nat) : Raw := Raw.ofLow (BitVec.ofNat 32 n)

/-- The number of pages. -/
def memorySize : Run (World H) Raw := seeStore fun s => s.seeMemory fun m => .ok (pagesRaw m.pages)

/-- Adds pages; the result is the number before, or minus one. -/
def memoryGrow (delta : Raw) : Run (World H) Raw :=
  onMemory fun m =>
    match m.grow delta.low.toNat with
    | (some n, m) => (.ok (pagesRaw n), m)
    | (none, m) => (.ok (Raw.ofLow (-1)), m)

/-- Copies bytes. -/
def memoryCopy (dst src len : Raw) : Run (World H) Unit :=
  onMemory fun m => m.copy dst.low.toNat src.low.toNat len.low.toNat

/-- Sets bytes to the low byte of a value. -/
def memoryFill (dst value len : Raw) : Run (World H) Unit :=
  onMemory fun m => m.fill dst.low.toNat len.low.toNat (UInt8.ofNat value.toNat)

/-- Reads a value. -/
def load (op : LoadOp) (arg : MemArg) (base : Raw) : Run (World H) Raw :=
  seeStore fun s => s.seeMemory fun m => op.run arg m base

/-- Writes a value. -/
def storeValue (op : StoreOp) (arg : MemArg) (base value : Raw) : Run (World H) Unit :=
  onMemory fun m => op.run arg m base value

end World

end WasmEngine
