import WasmEngine.Instr

/-!
# Nested code

Code as the engine runs it, with its blocks nested. `Nested.flatten` is the same
code as a flat list, where every block carries the distances to its alternative
and to its end.
-/

namespace WasmEngine

/-- A sequence of instructions with its blocks. -/
inductive Nested
  /-- The end of the sequence. -/
  | done
  /-- A plain instruction. -/
  | plain (op : Plain) (next : Nested)
  /-- A branch table. -/
  | brTable (labels : List Nat) (default : Nat) (next : Nested)
  /-- A block. -/
  | block (args : BlockArgs) (body next : Nested)
  /-- A loop. -/
  | loop (args : BlockArgs) (body next : Nested)
  /-- A conditional without an alternative. -/
  | cond (args : BlockArgs) (body next : Nested)
  /-- A conditional with an alternative. -/
  | condElse (args : BlockArgs) (body alt next : Nested)
  deriving DecidableEq

namespace Nested

/-- The flat code of a sequence. -/
def flatten : Nested → List Instr
  | .done => []
  | .plain op next => .plain op :: next.flatten
  | .brTable labels default next =>
    .brTable default labels.length :: (labels.map .brLabel ++ next.flatten)
  | .block args body next =>
    .block args (body.flatten.length + 1) :: (body.flatten ++ .endBlock :: next.flatten)
  | .loop args body next =>
    .loop args (body.flatten.length + 1) :: (body.flatten ++ .endBlock :: next.flatten)
  | .cond args body next =>
    .cond args 0 (body.flatten.length + 1) :: (body.flatten ++ .endBlock :: next.flatten)
  | .condElse args body alt next =>
    .cond args (body.flatten.length + 1) (body.flatten.length + alt.flatten.length + 2) ::
      (body.flatten ++ .orElse (alt.flatten.length + 1) ::
        (alt.flatten ++ .endBlock :: next.flatten))

/-- The number of instructions of the flat code. -/
def size : Nested → Nat
  | .done => 0
  | .plain _ next => next.size + 1
  | .brTable labels _ next => labels.length + next.size + 1
  | .block _ body next | .loop _ body next | .cond _ body next => body.size + next.size + 2
  | .condElse _ body alt next => body.size + alt.size + next.size + 3

/-- The flat code of a function body, which returns at its end. -/
def code (body : Nested) : Array Instr := (body.flatten ++ [Instr.plain .ret]).toArray

end Nested

end WasmEngine
