import Mathlib.Data.Option.Basic
import WasmEngine.Module
import WasmEngine.Proofs.Nested

/-!
# Types of nested code

The typing rules of the code that the engine runs, as a relation
(`WasmEngine.Nested.Typed`): from operands of some types, below labels that
carry others, a piece of code leads to operands of given types. All types are
value types here, since nothing else is left once a body is lowered.

The rules say nothing about what stands behind an instruction that does not go
on, such as a branch. That code is never reached, and the code in front of it
can be given any types to end with.

Operand types are listed as operands are, the top first; the types of
parameters, results and labels are listed in the order in which their values are
pushed.
-/

namespace WasmEngine

namespace Module

variable (m : Module)

/-- The types of all globals, imported ones first. -/
def globalTypes : List GlobalType :=
  (m.imports.filterMap fun i => match i.kind with
    | .global g => some g
    | _ => none) ++ m.globals.map Global.type

/-- The number of all tables, imported ones included. -/
def tableCount : Nat :=
  (m.imports.countP fun i => match i.kind with
    | .table _ => true
    | _ => false) + m.tables.length

/-- The number of all memories, imported ones included. -/
def memoryCount : Nat :=
  (m.imports.countP fun i => match i.kind with
    | .memory _ => true
    | _ => false) + m.memories.length

end Module

/-- What the code of a function may name. -/
structure CodeScope where
  /-- The module. -/
  mod : Module
  /-- The types of its parameters and locals. -/
  locals : List ValType
  /-- The types of its results. -/
  results : List ValType

namespace Plain

/-- The parameters and results of an instruction that is not about the stack or
about branches. -/
def signature? (s : CodeScope) : Plain → Option (List ValType × List ValType)
  | .nop => some ([], [])
  | .call func => (s.mod.funcType? func).map fun t => (t.params, t.results)
  | .callIndirect type table =>
    if table < s.mod.tableCount then s.mod.types[type]?.map fun t => (t.params ++ [.i32], t.results)
    else none
  | .localGet i => s.locals[i]?.map fun t => ([], [t])
  | .localSet i => s.locals[i]?.map fun t => ([t], [])
  | .localTee i => s.locals[i]?.map fun t => ([t], [t])
  | .globalGet i => s.mod.globalTypes[i]?.map fun g => ([], [g.type])
  | .globalSet i =>
    s.mod.globalTypes[i]?.bind fun g => if g.isMutable then some ([g.type], []) else none
  | .load op arg => if arg.memory < s.mod.memoryCount then some ([.i32], [op.type]) else none
  | .store op arg => if arg.memory < s.mod.memoryCount then some ([.i32, op.type], []) else none
  | .memorySize mem => if mem < s.mod.memoryCount then some ([], [.i32]) else none
  | .memoryGrow mem => if mem < s.mod.memoryCount then some ([.i32], [.i32]) else none
  | .memoryCopy dst src =>
    if dst < s.mod.memoryCount ∧ src < s.mod.memoryCount then some ([.i32, .i32, .i32], [])
    else none
  | .memoryFill mem => if mem < s.mod.memoryCount then some ([.i32, .i32, .i32], []) else none
  | .const v => some ([], [v.type])
  | .unary op => some ([op.operand], [op.result])
  | .binary op => some ([op.operand, op.operand], [op.result])
  | _ => none

/-- What a plain instruction makes of the operands; nothing if it does not go on. -/
inductive Typed (s : CodeScope) (labels : List (List ValType)) :
    Plain → List ValType → Option (List ValType) → Prop
  /-- An instruction with a signature. -/
  | sig {op ps rs ts} (h : op.signature? s = some (ps, rs)) :
    Typed s labels op (ps.reverse ++ ts) (some (rs.reverse ++ ts))
  /-- An operand is dropped. -/
  | drop {t ts} : Typed s labels .drop (t :: ts) (some ts)
  /-- One of two operands is kept. -/
  | select {t ts} : Typed s labels .select (.i32 :: t :: t :: ts) (some (t :: ts))
  /-- A conditional branch keeps what its label carries. -/
  | brIf {depth ls ts} (h : labels[depth]? = some ls) :
    Typed s labels (.brIf depth) (.i32 :: (ls.reverse ++ ts)) (some (ls.reverse ++ ts))
  /-- Nothing is behind a branch. -/
  | br {depth ls ts} (h : labels[depth]? = some ls) :
    Typed s labels (.br depth) (ls.reverse ++ ts) none
  /-- Nothing is behind a return. -/
  | ret {ts} : Typed s labels .ret (s.results.reverse ++ ts) none
  /-- Nothing is behind a trap. -/
  | unreachable {ts} : Typed s labels .unreachable ts none

end Plain

/-- The parameters and results of a construct. -/
def BlockArgs.type? (m : Module) : BlockArgs → Option (List ValType × List ValType)
  | .empty => some ([], [])
  | .value t => some ([], [t])
  | .func i => m.types[i]?.map fun t => (t.params, t.results)

namespace Nested

/-- **What a sequence makes of the operands**, where the labels of the
constructs around it carry values of the types given, the innermost first and
the function itself last. -/
inductive Typed (s : CodeScope) : List (List ValType) → Nested → List ValType → List ValType → Prop
  /-- At the end nothing changes any more. -/
  | done {labels ts} : Typed s labels .done ts ts
  /-- A plain instruction that goes on. -/
  | plain {labels op next ts ts' us} (h : op.Typed s labels ts (some ts'))
    (rest : Typed s labels next ts' us) : Typed s labels (.plain op next) ts us
  /-- A plain instruction that does not go on. -/
  | last {labels op next ts us} (h : op.Typed s labels ts none) :
    Typed s labels (.plain op next) ts us
  /-- A branch table, all labels of which carry values that are there. -/
  | brTable {labels targets default next ts us}
    (h : ∀ d ∈ default :: targets, ∃ ls rest, labels[d]? = some ls ∧ ts = ls.reverse ++ rest) :
    Typed s labels (.brTable targets default next) (.i32 :: ts) us
  /-- A block, whose label carries its results. -/
  | block {labels args body next ps rs ts us} (h : args.type? s.mod = some (ps, rs))
    (inner : Typed s (rs :: labels) body ps.reverse rs.reverse)
    (rest : Typed s labels next (rs.reverse ++ ts) us) :
    Typed s labels (.block args body next) (ps.reverse ++ ts) us
  /-- A loop, whose label carries its parameters. -/
  | loop {labels args body next ps rs ts us} (h : args.type? s.mod = some (ps, rs))
    (inner : Typed s (ps :: labels) body ps.reverse rs.reverse)
    (rest : Typed s labels next (rs.reverse ++ ts) us) :
    Typed s labels (.loop args body next) (ps.reverse ++ ts) us
  /-- A conditional without an alternative leaves what it takes. -/
  | cond {labels args body next ps ts us} (h : args.type? s.mod = some (ps, ps))
    (inner : Typed s (ps :: labels) body ps.reverse ps.reverse)
    (rest : Typed s labels next (ps.reverse ++ ts) us) :
    Typed s labels (.cond args body next) (.i32 :: (ps.reverse ++ ts)) us
  /-- A conditional with an alternative. -/
  | condElse {labels args body alt next ps rs ts us} (h : args.type? s.mod = some (ps, rs))
    (yes : Typed s (rs :: labels) body ps.reverse rs.reverse)
    (no : Typed s (rs :: labels) alt ps.reverse rs.reverse)
    (rest : Typed s labels next (rs.reverse ++ ts) us) :
    Typed s labels (.condElse args body alt next) (.i32 :: (ps.reverse ++ ts)) us

end Nested

/-! ### Distances -/

namespace Nested

theorem length_flatten (code : Nested) : code.flatten.length = code.size := by
  induction code with
  | done => rfl
  | plain op next ih => simp [flatten, size, ih]
  | brTable labels default next ih => simp [flatten, size, ih]
  | block _ _ _ ihbody ihnext | loop _ _ _ ihbody ihnext | cond _ _ _ ihbody ihnext =>
    simp [flatten, size, ihbody, ihnext]; omega
  | condElse args body alt next ihbody ihalt ihnext =>
    simp [flatten, size, ihbody, ihalt, ihnext]; omega

/-- All alternatives end near enough for a distance of 32 bits. -/
def Narrow : Nested → Prop
  | .done => True
  | .plain _ next | .brTable _ _ next => next.Narrow
  | .block _ body next | .loop _ body next | .cond _ body next => body.Narrow ∧ next.Narrow
  | .condElse _ body alt next => alt.size + 1 < 0x100000000 ∧ body.Narrow ∧ alt.Narrow ∧ next.Narrow

end Nested

/-- **All bodies of a module are typed.** The body of a function starts without
operands and ends with its results, and a branch to its outermost label carries
them as well. -/
structure Module.Bodies (m : Module) (bodies : Nat → Nested) : Prop where
  /-- The code of a function is that of its body. -/
  code : ∀ {i f}, m.funcs[i]? = some f → f.code = (bodies i).code
  /-- The body of a function has the type of the function. -/
  typed : ∀ {i f}, m.funcs[i]? = some f → ∃ t, m.types[f.type]? = some t ∧
    (bodies i).Typed ⟨m, t.params ++ f.locals, t.results⟩ [t.results] [] t.results.reverse
  /-- Its distances fit. -/
  narrow : ∀ {i f}, m.funcs[i]? = some f → (bodies i).Narrow

/-! ### Bodies that return -/

namespace Nested

/-- A sequence that returns at its end, as the body of a function does. -/
def thenRet : Nested → Nested
  | .done => .plain .ret .done
  | .plain op next => .plain op next.thenRet
  | .brTable labels default next => .brTable labels default next.thenRet
  | .block args body next => .block args body next.thenRet
  | .loop args body next => .loop args body next.thenRet
  | .cond args body next => .cond args body next.thenRet
  | .condElse args body alt next => .condElse args body alt next.thenRet

theorem flatten_thenRet (code : Nested) : code.thenRet.flatten = code.flatten ++ [.plain .ret] := by
  induction code <;> simp_all [thenRet, flatten]

theorem Narrow.thenRet {code : Nested} (h : code.Narrow) : code.thenRet.Narrow := by
  induction code with
  | done => trivial
  | plain op next ih => exact ih h
  | brTable labels default next ih => exact ih h
  | block args body next _ ih | loop args body next _ ih | cond args body next _ ih =>
    exact ⟨h.1, ih h.2⟩
  | condElse args body alt next _ _ ih => exact ⟨h.1, h.2.1, h.2.2.1, ih h.2.2.2⟩

theorem Typed.thenRet {sc : CodeScope} {types : List (List ValType)} {code : Nested}
    {ts us : List ValType} (h : code.Typed sc types ts us) (hus : us = sc.results.reverse) :
    code.thenRet.Typed sc types ts us := by
  induction h with
  | @done types ts =>
    rw [hus, ← List.append_nil sc.results.reverse]
    exact .last .ret
  | plain h _ ih => exact .plain h (ih hus)
  | last h => exact .last h
  | brTable h => exact .brTable h
  | block h inner _ _ ih => exact .block h inner (ih hus)
  | loop h inner _ _ ih => exact .loop h inner (ih hus)
  | cond h inner _ _ ih => exact .cond h inner (ih hus)
  | condElse h yes no _ _ _ ih => exact .condElse h yes no (ih hus)

end Nested

end WasmEngine
