import WasmEngine.Typing.Scope

/-!
# Constant expressions

The initial values of globals, the offsets of segments and the entries of tables
are constant expressions: a few operators on a stack, without blocks. They may
read globals that cannot change and that come earlier.
-/

namespace WasmEngine.Typing

/-- The operand types after an operator of a constant expression, the top first. -/
def constant? (s : Scope) : SimpleOp → List AnyType → Option (List AnyType)
  | .plain (.const v), ts => some (.num v.type :: ts)
  | .plain (.globalGet i), ts => do
    let g ← s.globals[i]?
    if g.isMutable then none else some (g.type :: ts)
  | .plain (.binary (.int w op)), a :: b :: ts =>
    if op ∈ [IntBinary.add, .sub, .mul] ∧ a = .num w.int ∧ b = .num w.int then
      some (.num w.int :: ts) else none
  | .extended (.refNull h), ts => if s.space.hasHeap h then some (.ref ⟨true, h⟩ :: ts) else none
  | .extended (.refFunc f), ts => do
    let t ← s.funcs[f]?
    some (.ref ⟨false, .declared t⟩ :: ts)
  | .extended .refI31, .num .i32 :: ts => some (.ref ⟨false, .builtin .i31⟩ :: ts)
  | .extended .anyConvertExtern, .ref r :: ts =>
    if s.space.heapBelow r.heap (.builtin .external) then
      some (.ref ⟨r.nullable, .builtin .any⟩ :: ts) else none
  | .extended .externConvertAny, .ref r :: ts =>
    if s.space.heapBelow r.heap (.builtin .any) then
      some (.ref ⟨r.nullable, .builtin .external⟩ :: ts) else none
  | _, _ => none

/-- The operand types after operators of a constant expression. -/
def constants? (s : Scope) : List Operator → List AnyType → Option (List AnyType)
  | [], ts => some ts
  | .simple op :: ops, ts => (constant? s op ts).bind (constants? s ops)
  | _ :: _, _ => none

/-- Whether a constant expression is of a type. -/
def isConstant (s : Scope) (type : AnyType) (ops : List Operator) : Bool :=
  match constants? s ops [] with
  | some [t] => s.space.isBelow t type
  | _ => false

/-- The functions that operators make references to. -/
def referenced (ops : List Operator) : List Nat :=
  ops.filterMap fun op => match op with
    | .simple (.extended (.refFunc f)) => some f
    | _ => none

end WasmEngine.Typing
