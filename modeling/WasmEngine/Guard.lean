import WasmEngine.Error

/-!
# The call guard

Counts the calls that are active and refuses to go past a ceiling. Every call
takes one unit when it starts, the entry call as well as direct, indirect and
host calls and those a host function makes, and returns it when it ends,
whatever its outcome.
-/

namespace WasmEngine

/-- The calls that are active, and how many may be. -/
structure Guard where
  /-- The number of active calls. -/
  depth : Nat
  /-- The ceiling. -/
  maxDepth : Nat
  deriving DecidableEq

namespace Guard

/-- A guard with no active calls. -/
def new (maxDepth : Nat) : Guard := ⟨0, maxDepth⟩

/-- Takes a unit, unless the ceiling is reached. -/
def enter (g : Guard) : Except Trap Guard :=
  if g.maxDepth ≤ g.depth then .error (.callDepthExceeded g.maxDepth)
  else .ok { g with depth := g.depth + 1 }

/-- Returns a unit. -/
def exit (g : Guard) : Guard := { g with depth := g.depth - 1 }

/-- Returns several units. -/
def exits (g : Guard) (n : Nat) : Guard := { g with depth := g.depth - n }

/-- Forgets all active calls and sets a ceiling. -/
def reset (_ : Guard) (maxDepth : Nat) : Guard := new maxDepth

/-- The diagnostic form. -/
def debug (g : Guard) : String :=
  Text.record "CallGuard" [("depth", toString g.depth), ("max_depth", toString g.maxDepth)]

end Guard

end WasmEngine
