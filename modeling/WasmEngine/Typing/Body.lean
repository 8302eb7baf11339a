import WasmEngine.Operator.Tree
import WasmEngine.Typing.Scope

/-!
# Typing of function bodies

Follows what types the operands have through the tree of a body. Within a block
only its own operands can be reached. Behind an operator that does not go on the
code is never reached, and there are as many operands as are asked for, of any
type.

A label stands for the operands that a branch to it carries. A local that has no
default must be written before it is read; what is written in a block is
forgotten behind it.

A few operators on references take what threads share as well as what they do
not, as long as the operands agree.
-/

namespace WasmEngine.Typing

/-- What is known of an operand. -/
inductive Operand
  /-- Nothing, in code that is never reached. -/
  | unknown
  /-- That it is a reference, and maybe a built-in type that it points to, in
  code that is never reached. It need not be null, and threads may share what it
  points to. -/
  | reference (heap : Option BuiltinHeap)
  /-- Its type. -/
  | known (type : AnyType)
  deriving DecidableEq

namespace Operand

/-- Whether the operand can be used at a type. -/
def fits (s : TypeSpace) (type : AnyType) : Operand → Bool
  | .unknown => true
  | .reference heap => match type with
    | .ref r => heap.all fun h => s.refBelow ⟨false, h.heap r.heap.isShared⟩ r
    | _ => false
  | .known t => s.isBelow t type

/-- The operand as a reference, if it can be one. -/
def asRef? : Operand → Option Operand
  | .unknown => some (.reference none)
  | .known (.num _) | .known .v128 => none
  | o => some o

/-- The operand where it is known not to be null. -/
def nonNull : Operand → Operand
  | .known (.ref r) => .known (.ref ⟨false, r.heap⟩)
  | o => o

/-- Whether the operand points to something of a built-in type, shared or not. -/
def pointsTo (s : TypeSpace) (target : BuiltinHeap) : Operand → Bool
  | .known (.ref r) => s.heapBelow r.heap (target.heap r.heap.isShared)
  | .reference heap => heap.all (·.isBelow target)
  | _ => false

/-- Whether threads share what the operand points to, if that is known. -/
def isShared? : Operand → Option Bool
  | .known (.ref r) => some r.heap.isShared
  | _ => none

/-- The operand where it points to something else of a built-in type, shared as
before. -/
def withHeap (target : BuiltinHeap) : Operand → Operand
  | .known (.ref r) => .known (.ref ⟨r.nullable, target.heap r.heap.isShared⟩)
  | _ => .reference (some target)

end Operand

/-- The operands of a block at some place in it. -/
structure Stack where
  /-- What is known of them, the top first. -/
  operands : List Operand := []
  /-- Whether the place can be reached; if not, there are more operands below. -/
  reachable : Bool := true
  deriving DecidableEq

namespace Stack

/-- The operands where nothing is reached. -/
def stopped : Stack := ⟨[], false⟩

/-- The top operand and the others. -/
def pop? (k : Stack) : Option (Operand × Stack) :=
  match k.operands with
  | o :: os => some (o, { k with operands := os })
  | [] => if k.reachable then none else some (.unknown, k)

/-- The operands without the top one, which must be of a type. -/
def popAs? (s : TypeSpace) (type : AnyType) (k : Stack) : Option Stack := do
  let (o, k) ← k.pop?
  if o.fits s type then some k else none

/-- The operands without those on top, the types of which are given with the top
first. -/
def popAll? (s : TypeSpace) : List AnyType → Stack → Option Stack
  | [], k => some k
  | t :: ts, k => (k.popAs? s t).bind (popAll? s ts)

/-- The operands without those on top, the types of which are given in the order
they were pushed. -/
def take? (s : TypeSpace) (types : List AnyType) (k : Stack) : Option Stack :=
  k.popAll? s types.reverse

/-- One more operand. -/
def push (o : Operand) (k : Stack) : Stack := { k with operands := o :: k.operands }

/-- More operands, in the order they are pushed. -/
def give (types : List AnyType) (k : Stack) : Stack :=
  { k with operands := (types.map .known).reverse ++ k.operands }

/-- The operands after an operation that takes some types and gives others. -/
def replace? (s : TypeSpace) (params results : List AnyType) (k : Stack) : Option Stack :=
  (k.take? s params).map (give results)

/-- Whether the operands are the results of a block and no others. -/
def endsWith (s : TypeSpace) (results : List AnyType) (k : Stack) : Bool :=
  (k.take? s results).any (·.operands.isEmpty)

/-- The top operand, which must be a reference, and the others. -/
def popRef? (k : Stack) : Option (Operand × Stack) := do
  let (o, k) ← k.pop?
  some (← o.asRef?, k)

/-- The top operand, which must point to something of a built-in type, shared or
not, and the others. -/
def popTo? (s : TypeSpace) (target : BuiltinHeap) (k : Stack) : Option (Operand × Stack) := do
  let (o, k) ← k.popRef?
  if o.pointsTo s target then some (o, k) else none

end Stack

/-- What is known at a place of a body. -/
structure State where
  /-- The operands of the block. -/
  stack : Stack := {}
  /-- The locals that may not be read yet. -/
  pending : List Nat := []

/-- What a body may name. -/
structure BodyScope extends Scope where
  /-- The types of its parameters and locals. -/
  locals : List AnyType
  /-- The types of its results. -/
  results : List AnyType

/-! ### Operators -/

/-- The parameters and results of a plain operator that is not about the stack
or about branches. -/
def signature? (s : BodyScope) : Plain → Option (List AnyType × List AnyType)
  | .nop => some ([], [])
  | .call f => (s.funcType? f).map fun t => (ValType.lift t.params, ValType.lift t.results)
  | .callIndirect type table => do
    let r ← s.tables[table]?
    let t ← s.types[type]?
    if s.space.refBelow r .funcref then
      some (ValType.lift t.params ++ [.num .i32], ValType.lift t.results)
    else none
  | .localGet i => s.locals[i]?.map fun t => ([], [t])
  | .localSet i => s.locals[i]?.map fun t => ([t], [])
  | .localTee i => s.locals[i]?.map fun t => ([t], [t])
  | .globalGet i => s.globals[i]?.map fun g => ([], [g.type])
  | .globalSet i => do
    let g ← s.globals[i]?
    if g.isMutable then some ([g.type], []) else none
  | .load op arg => if s.hasMemory arg.memory then some ([.num .i32], [.num op.type]) else none
  | .store op arg => if s.hasMemory arg.memory then some ([.num .i32, .num op.type], []) else none
  | .memorySize m => if s.hasMemory m then some ([], [.num .i32]) else none
  | .memoryGrow m => if s.hasMemory m then some ([.num .i32], [.num .i32]) else none
  | .memoryCopy dst src =>
    if s.hasMemory dst && s.hasMemory src then some ([.num .i32, .num .i32, .num .i32], [])
    else none
  | .memoryFill m => if s.hasMemory m then some ([.num .i32, .num .i32, .num .i32], []) else none
  | .const v => some ([], [.num v.type])
  | .unary op => some ([.num op.operand], [.num op.result])
  | .binary op => some ([.num op.operand, .num op.operand], [.num op.result])
  | _ => none

/-- The operand that is left of two by a selection that does not say their type,
which may not be references. -/
def selected? : Operand → Operand → Option Operand
  | .reference _, _ | _, .reference _ | .known (.ref _), _ | _, .known (.ref _) => none
  | .unknown, o | o, .unknown => some o
  | .known a, .known b => if a = b then some (.known a) else none

/-- The locals that may not be read after a plain operator; `none` if it reads
one of them itself. -/
def pending? (pending : List Nat) : Plain → Option (List Nat)
  | .localGet i => if i ∈ pending then none else some pending
  | .localSet i | .localTee i => some (pending.erase i)
  | _ => some pending

/-- The state after a plain operator. -/
def plain? (s : BodyScope) (labels : List (List AnyType)) (op : Plain) (k : State) : Option State :=
  match op with
  | .unreachable => some { k with stack := .stopped }
  | .br depth => do
    let _ ← k.stack.take? s.space (← labels[depth]?)
    some { k with stack := .stopped }
  | .brIf depth => do
    let types ← labels[depth]?
    let stack ← k.stack.popAs? s.space (.num .i32)
    some { k with stack := ← stack.replace? s.space types types }
  | .ret => do
    let _ ← k.stack.take? s.space s.results
    some { k with stack := .stopped }
  | .drop => do
    let (_, stack) ← k.stack.pop?
    some { k with stack }
  | .select => do
    let stack ← k.stack.popAs? s.space (.num .i32)
    let (a, stack) ← stack.pop?
    let (b, stack) ← stack.pop?
    some { k with stack := stack.push (← selected? a b) }
  | op => do
    let (params, results) ← signature? s op
    some ⟨← k.stack.replace? s.space params results, ← pending? k.pending op⟩

/-- The parameters and results of an operator that the engine does not run, if
they are fixed. -/
def extendedSignature? (s : BodyScope) : Extended → Option (List AnyType × List AnyType)
  | .callRef type => s.types[type]?.map fun t =>
    (ValType.lift t.params ++ [.ref ⟨true, .declared type⟩], ValType.lift t.results)
  | .tableGet table => s.tables[table]?.map fun r => ([.num .i32], [.ref r])
  | .tableSet table => s.tables[table]?.map fun r => ([.num .i32, .ref r], [])
  | .tableInit element table => do
    let r ← s.tables[table]?
    let e ← s.elements[element]?
    if s.space.refBelow e r then some ([.num .i32, .num .i32, .num .i32], []) else none
  | .elemDrop element => s.elements[element]?.map fun _ => ([], [])
  | .tableCopy dst src => do
    let r ← s.tables[dst]?
    let e ← s.tables[src]?
    if s.space.refBelow e r then some ([.num .i32, .num .i32, .num .i32], []) else none
  | .tableGrow table => s.tables[table]?.map fun r => ([.ref r, .num .i32], [.num .i32])
  | .tableSize table => s.tables[table]?.map fun _ => ([], [.num .i32])
  | .tableFill table => s.tables[table]?.map fun r => ([.num .i32, .ref r, .num .i32], [])
  | .memoryInit data memory =>
    if s.hasMemory memory && s.hasData data then some ([.num .i32, .num .i32, .num .i32], [])
    else none
  | .dataDrop data => if s.hasData data then some ([], []) else none
  | .refNull h => if s.space.hasHeap h then some ([], [.ref ⟨true, h⟩]) else none
  | .refFunc f => do
    let t ← s.funcs[f]?
    if f ∈ s.referable then some ([], [.ref ⟨false, .declared t⟩]) else none
  | .refTest r =>
    if s.space.canCast r.heap then some ([.ref ⟨true, s.space.top r.heap⟩], [.num .i32]) else none
  | .refCast r =>
    if s.space.canCast r.heap then some ([.ref ⟨true, s.space.top r.heap⟩], [.ref r]) else none
  | .refI31 => some ([.num .i32], [.ref ⟨false, .builtin .i31⟩])
  | .notify arg =>
    if s.hasMemory arg.memory then some ([.num .i32, .num .i32], [.num .i32]) else none
  | .wait w arg =>
    if s.hasMemory arg.memory then some ([.num .i32, .num w.int, .num .i64], [.num .i32]) else none
  | .fence => some ([], [])
  | .atomic op access arg =>
    if s.hasMemory arg.memory then
      let t := AnyType.num access.w.int
      some (match op with
        | .load => ([.num .i32], [t])
        | .store => ([.num .i32, t], [])
        | .update _ => ([.num .i32, t], [t])
        | .compareExchange => ([.num .i32, t, t], [t]))
    else none
  | _ => none

/-- The operands after a call in place of the current function. -/
def tailCall? (s : BodyScope) (t : FuncType) (last : List AnyType) (k : Stack) : Option Stack :=
  if s.space.allBelow (ValType.lift t.results) s.results then
    (k.take? s.space (ValType.lift t.params ++ last)).map fun _ => .stopped
  else none

/-- The operands after a conversion of a reference between the program and the
host. -/
def convert? (s : BodyScope) (source target : BuiltinHeap) (k : Stack) : Option Stack := do
  let (o, k) ← k.popTo? s.space source
  some (k.push (o.withHeap target))

/-- The operands after an operator that takes a reference to something of a
built-in type and gives an integer. -/
def inspect? (s : BodyScope) (target : BuiltinHeap) (k : Stack) : Option Stack := do
  let (_, k) ← k.popTo? s.space target
  some (k.give [.num .i32])

/-- The operands after a comparison of two references, which agree on what is
shared as far as that is known. -/
def compare? (s : BodyScope) (k : Stack) : Option Stack := do
  let (a, k) ← k.popTo? s.space .eq
  let (b, k) ← k.popTo? s.space .eq
  if a.isShared? = none ∨ b.isShared? = none ∨ a.isShared? = b.isShared? then
    some (k.give [.num .i32]) else none

/-- The last type of a label and those before. -/
def splitLast? (types : List AnyType) : Option (List AnyType × AnyType) :=
  match types.reverse with
  | t :: ts => some (ts.reverse, t)
  | [] => none

/-- The operands after a branch that casts: the label gets `taken`, and what
does not branch is left as `kept`. -/
def castBranch? (s : BodyScope) (types : List AnyType)
    (source target taken kept : RefType) (k : Stack) : Option Stack := do
  let (types, last) ← splitLast? types
  if s.space.canCast source.heap && s.space.canCast target.heap && s.space.refBelow target source &&
      s.space.isBelow (.ref taken) last then
    let k ← k.popAs? s.space (.ref source)
    let k ← k.replace? s.space types types
    some (k.push (.known (.ref kept)))
  else none

/-- What a reference is that was not of a type it was cast to. -/
def difference (source target : RefType) : RefType :=
  ⟨source.nullable && !target.nullable, source.heap⟩

/-- The operands after an operator that the engine does not run. -/
def extended? (s : BodyScope) (labels : List (List AnyType)) (op : Extended)
    (k : Stack) : Option Stack :=
  match op with
  | .throwRef => do
    let _ ← k.popAs? s.space (.ref ⟨true, .builtin .exn⟩)
    some .stopped
  | .returnCall f => do tailCall? s (← s.funcType? f) [] k
  | .returnCallIndirect type table => do
    let r ← s.tables[table]?
    if s.space.refBelow r .funcref then tailCall? s (← s.types[type]?) [.num .i32] k else none
  | .returnCallRef type => do tailCall? s (← s.types[type]?) [.ref ⟨true, .declared type⟩] k
  | .refIsNull => do
    let (_, k) ← k.popRef?
    some (k.give [.num .i32])
  | .refEq => compare? s k
  | .refAsNonNull => do
    let (o, k) ← k.popRef?
    some (k.push o.nonNull)
  | .arrayLen => inspect? s .array k
  | .i31Get _ => inspect? s .i31 k
  | .brOnNull depth => do
    let types ← labels[depth]?
    let (o, k) ← k.popRef?
    let k ← k.replace? s.space types types
    some (k.push o.nonNull)
  | .brOnNonNull depth => do
    match ← splitLast? (← labels[depth]?) with
    | (types, .ref r) =>
      let k ← k.popAs? s.space (.ref ⟨true, r.heap⟩)
      k.replace? s.space types types
    | _ => none
  | .brOnCast depth source target => do
    castBranch? s (← labels[depth]?) source target target (difference source target) k
  | .brOnCastFail depth source target => do
    castBranch? s (← labels[depth]?) source target (difference source target) target k
  | .anyConvertExtern => convert? s .external .any k
  | .externConvertAny => convert? s .any .external k
  | op => do
    let (params, results) ← extendedSignature? s op
    k.replace? s.space params results

/-- The state after an operator that stands alone. -/
def simple? (s : BodyScope) (labels : List (List AnyType)) (op : SimpleOp)
    (k : State) : Option State :=
  match op with
  | .plain op => plain? s labels op k
  | .brTable targets default => do
    let stack ← k.stack.popAs? s.space (.num .i32)
    let types ← labels[default]?
    let fits (depth : Nat) : Bool := (labels[depth]?).any fun ts =>
      ts.length == types.length && (stack.take? s.space ts).isSome
    if fits default && targets.all fits then some { k with stack := .stopped } else none
  | .selectAs t =>
    if s.space.has t then do
      some { k with stack := ← k.stack.replace? s.space [t, t, .num .i32] [t] }
    else none
  | .extended op => do some { k with stack := ← extended? s labels op k.stack }

/-! ### Blocks -/

/-- The signature of a block. -/
def openingType : Opening → BlockType
  | .block t | .loop t | .tryTable t _ => t

/-- What a branch to a block carries: the parameters of a loop, the results of
any other. -/
def labelTypes (params results : List AnyType) : Opening → List AnyType
  | .loop _ => params
  | _ => results

/-- Whether a handler goes to a label that takes what it carries. -/
def handles (s : BodyScope) (labels : List (List AnyType)) (c : Catch) : Bool :=
  match labels[c.label]? with
  | some [] => !c.withRef
  | some [t] => c.withRef && s.space.isBelow (.ref ⟨false, .builtin .exn⟩) t
  | _ => false

/-- Whether the handlers of a block go to labels that take what they carry. -/
def catches (s : BodyScope) (labels : List (List AnyType)) : Opening → Bool
  | .tryTable _ cs => cs.all (handles s labels)
  | _ => true

/-- The state after a sequence. -/
def tree? (s : BodyScope) : List (List AnyType) → Tree → State → Option State
  | _, .done, k => some k
  | labels, .simple op next, k => do tree? s labels next (← simple? s labels op k)
  | labels, .block o body next, k => do
    let (params, results) ← s.blockType? (openingType o)
    let stack ← k.stack.take? s.space params
    let inner ← tree? s (labelTypes params results o :: labels) body
      ⟨({} : Stack).give params, k.pending⟩
    if catches s labels o && inner.stack.endsWith s.space results then
      tree? s labels next ⟨stack.give results, k.pending⟩
    else none
  | labels, .cond type body next, k => do
    let (params, results) ← s.blockType? type
    let stack ← k.stack.take? s.space (params ++ [.num .i32])
    let inner ← tree? s (results :: labels) body ⟨({} : Stack).give params, k.pending⟩
    if s.space.allBelow params results && inner.stack.endsWith s.space results then
      tree? s labels next ⟨stack.give results, k.pending⟩
    else none
  | labels, .condElse type body alt next, k => do
    let (params, results) ← s.blockType? type
    let stack ← k.stack.take? s.space (params ++ [.num .i32])
    let yes ← tree? s (results :: labels) body ⟨({} : Stack).give params, k.pending⟩
    let no ← tree? s (results :: labels) alt ⟨({} : Stack).give params, k.pending⟩
    if yes.stack.endsWith s.space results && no.stack.endsWith s.space results then
      tree? s labels next ⟨stack.give results, k.pending⟩
    else none

/-- Locals of one type, as a body declares them. -/
structure LocalGroup where
  /-- How many there are. -/
  count : Nat
  /-- Their type. -/
  type : AnyType

/-- The locals of all groups. -/
def expand (groups : List LocalGroup) : List AnyType :=
  groups.flatMap fun g => List.replicate g.count g.type

/-- The locals that have no value when the function is entered: those behind the
parameters without a default. -/
def uninitialized (params : Nat) (locals : List AnyType) : List Nat :=
  (locals.zipIdx.filter fun (t, i) => params ≤ i && !t.hasDefault).map Prod.snd

/-- Whether a body has the type of its function. There are at most 50000
parameters and locals. -/
def isBody (s : Scope) (type : FuncType) (groups : List LocalGroup) (ops : List Operator) : Bool :=
  if type.params.length + (groups.map LocalGroup.count).foldr (· + ·) 0 ≤
      50000 && groups.all fun g => s.space.has g.type then
    let locals := ValType.lift type.params ++ expand groups
    let results := ValType.lift type.results
    match Tree.ofOperators? ops with
    | none => false
    | some t =>
      (tree? { toScope := s, locals, results } [results] t
        { pending := uninitialized type.params.length locals }).any fun k =>
        k.stack.endsWith s.space results
  else false

end WasmEngine.Typing
