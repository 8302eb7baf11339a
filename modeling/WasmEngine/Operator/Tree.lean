import WasmEngine.Operator

/-!
# The tree of a function body

The operators of a function body with their nesting made plain: a block holds
its body, and what follows it. `Tree.ofOperators?` reads operators as such a
tree, and `Tree.operators` writes them out again. The operators are read from
the last to the first: what stands behind the one at hand is then a stack of
sequences, the innermost first, and an opening takes two of them off, its body
and what follows its end.
-/

namespace WasmEngine

/-- A sequence of operators with its blocks. -/
inductive Tree
  /-- The end of the sequence. -/
  | done
  /-- An operator that stands alone. -/
  | simple (op : SimpleOp) (next : Tree)
  /-- A block. -/
  | block (o : Opening) (body next : Tree)
  /-- A conditional without an alternative. -/
  | cond (type : BlockType) (body next : Tree)
  /-- A conditional with an alternative. -/
  | condElse (type : BlockType) (body alt next : Tree)

namespace Tree

/-- The operators of a sequence. -/
def operators : Tree → List Operator
  | .done => []
  | .simple op next => .simple op :: next.operators
  | .block o body next => .opening o :: (body.operators ++ .endBlock :: next.operators)
  | .cond type body next => .cond type :: (body.operators ++ .endBlock :: next.operators)
  | .condElse type body alt next =>
    .cond type :: (body.operators ++ .orElse :: (alt.operators ++ .endBlock :: next.operators))

/-- A sequence up to its end, seen from somewhere in it: what is left of its
arm, and the alternative if the arm has one. -/
structure Suffix where
  /-- The rest of the arm. -/
  rest : Tree
  /-- The alternative. -/
  alt : Option Tree

/-- One more operator in front of nested sequences. -/
def prepend : Operator → List Suffix → Option (List Suffix)
  | .endBlock, ss => some (⟨.done, none⟩ :: ss)
  | .simple op, s :: ss => some (⟨.simple op s.rest, s.alt⟩ :: ss)
  | .opening o, ⟨body, none⟩ :: s :: ss => some (⟨.block o body s.rest, s.alt⟩ :: ss)
  | .cond type, ⟨body, none⟩ :: s :: ss => some (⟨.cond type body s.rest, s.alt⟩ :: ss)
  | .cond type, ⟨body, some alt⟩ :: s :: ss => some (⟨.condElse type body alt s.rest, s.alt⟩ :: ss)
  | .orElse, ⟨alt, none⟩ :: ss => some (⟨.done, some alt⟩ :: ss)
  | _, _ => none

/-- The nested sequences that operators are. -/
def suffixes? : List Operator → Option (List Suffix)
  | [] => some []
  | op :: ops => (suffixes? ops).bind (prepend op)

/-- The tree of a function body, whose operators include the `endBlock` behind
it. -/
def ofOperators? (ops : List Operator) : Option Tree :=
  match suffixes? ops with
  | some [⟨t, none⟩] => some t
  | _ => none

end Tree

end WasmEngine
