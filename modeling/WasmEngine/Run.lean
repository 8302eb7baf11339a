import WasmEngine.Error

/-!
# Runs

A **run** takes a state and ends in a value or a halt, and in both cases in a
state: what was changed before a failure stays changed.

A run halts for one of three reasons that are kept apart. An *error* is an
outcome like a value, and a host may catch it. A run is *aborted* when compiled
code of a module that was never checked reaches outside of its slots, or when
there is no code left to compile. A run is *exhausted* when the bound on its
length is used up, which says nothing about the program.
-/

namespace WasmEngine

/-- Why a run stopped without a value. -/
inductive Halt
  /-- An error, which hosts may catch. -/
  | error (e : Error)
  /-- Unchecked code reached outside. -/
  | aborted
  /-- The bound on the length of the run is used up. -/
  | exhausted
  deriving DecidableEq

/-- A computation that changes a state and ends in a value or a halt. -/
def Run (σ α : Type) : Type := σ → Except Halt α × σ

namespace Run

variable {σ τ α β : Type}

/-- A run that ends at once. -/
@[inline]
def pure (a : α) : Run σ α := fun s => (.ok a, s)

/-- One run after another; the second starts in the state that the first leaves. -/
@[inline]
def bind (x : Run σ α) (f : α → Run σ β) : Run σ β := fun s =>
  match x s with
  | (.ok a, s) => f a s
  | (.error h, s) => (.error h, s)

instance : Monad (Run σ) where
  pure := pure
  bind := bind

/-- A run that halts. -/
@[inline]
def halt (h : Halt) : Run σ α := fun s => (.error h, s)

/-- A run that fails. -/
@[inline]
def fail (e : Error) : Run σ α := halt (.error e)

/-- A run that traps. -/
@[inline]
def trap (t : Trap) : Run σ α := fail (.trap t)

/-- A run that finds fault with its code. -/
@[inline]
def fault (f : Fault) : Run σ α := fail (.fault f)

/-- A value or an error. -/
@[inline]
def ofExcept (x : Except Error α) : Run σ α := fun s =>
  match x with
  | .ok a => (.ok a, s)
  | .error e => (.error (.error e), s)

/-- A value or a trap. -/
@[inline]
def ofTrap (x : Except Trap α) : Run σ α := fun s =>
  match x with
  | .ok a => (.ok a, s)
  | .error t => (.error (.error (.trap t)), s)

/-- A value, or a fault where there is none. -/
@[inline]
def need (f : Fault) (x : Option α) : Run σ α := fun s =>
  match x with
  | some a => (.ok a, s)
  | none => (.error (.error (.fault f)), s)

/-- What a run ends in, error or value, so that the next can tell; the other
halts stay halts. -/
@[inline]
def catching (x : Run σ α) : Run σ (Except Error α) := fun s =>
  match x s with
  | (.ok a, s) => (.ok (.ok a), s)
  | (.error (.error e), s) => (.ok (.error e), s)
  | (.error h, s) => (.error h, s)

/-- Does something to the state that a run leaves, whatever its outcome. -/
@[inline]
def leaving (x : Run σ α) (f : σ → σ) : Run σ α := fun s =>
  match x s with
  | (r, s) => (r, f s)

end Run

end WasmEngine
