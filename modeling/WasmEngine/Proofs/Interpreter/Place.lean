import WasmEngine.Proofs.Interpreter.Until
import WasmEngine.Proofs.Row
import WasmEngine.Proofs.Structured.Sound

/-!
# Where the machine is in nested code

The reference semantics sees the operands of one construct, the machine those of
all frames on one stack. A state of the first at a position of the code makes a
machine (`WasmEngine.Machine.place`) once the operands **under** the construct
are given, together with the open blocks and the frames that wait. The blocks
belong to the labels in scope (`WasmEngine.Machine.Enclosed`): each remembers
how high the operands under its construct are.

A branch keeps what its label carries and cuts the stack down to what is under
the construct that it reaches. So it makes no difference whether it is seen from
within a construct or from outside (`WasmEngine.Machine.branchTo_outside`),
which is the one fact about the stack that the comparison of the two semantics
needs.
-/

namespace WasmEngine

open Run Structured

variable {H : Type}

/-! ### Cutting down the stack -/

theorem keepAbove_append {keep : Nat} {xs zs : List Raw}
    (hkeep : keep ≤ xs.length) (ys : List Raw) :
    keepAbove zs.length keep (xs ++ (ys ++ zs)) = xs.take keep ++ zs := by
  rw [keepAbove]
  split
  · next h =>
    simp only [List.length_append] at h
    obtain rfl : ys = [] := List.length_eq_zero_iff.1 (by omega)
    rw [List.take_of_length_le (by omega), List.nil_append]
  · have hdrop : (xs ++ (ys ++ zs)).length - zs.length =
      (xs ++ ys).length := by simp [← Nat.add_assoc]
    rw [List.take_append_of_le_length hkeep, hdrop, ← List.append_assoc, List.drop_left]

theorem keepAbove_under {keep : Nat} {xs zs : List Raw} (hkeep : keep ≤ xs.length) :
    keepAbove zs.length keep (xs ++ zs) = xs.take keep ++ zs :=
  keepAbove_append hkeep []

/-- What lies in between does not matter. -/
theorem keepAbove_between {base keep : Nat} {xs ys zs : List Raw} (hkeep : keep ≤ xs.length)
    (hbase : base ≤ zs.length) :
    keepAbove base keep (xs ++ (ys ++ zs)) = keepAbove base keep (xs ++ zs) := by
  obtain ⟨us, vs, rfl, rfl⟩ : ∃ us vs, zs = us ++ vs ∧ vs.length = base :=
    ⟨zs.take (zs.length - base), zs.drop (zs.length - base),
      (List.take_append_drop _ _).symm, by simp; omega⟩
  rw [← List.append_assoc ys, keepAbove_append hkeep, keepAbove_append hkeep]

/-- The number of values that a branch to a block carries. -/
def Block.arity (b : Block) : Nat := if b.isLoop then b.params else b.results

namespace Machine

/-- The machine at a position of the code, in a state of the reference semantics. -/
def place (frame : Frame) (callers : List Frame) (blocks : List Block) (under : List Raw)
    (pc : Nat) (s : State) : Machine :=
  ⟨s.operands ++ under, blocks, { frame with pc := pc, locals := s.locals }, callers⟩

/-- **The open blocks of a frame are those of the labels in scope.** -/
inductive Enclosed (frame : Frame) : List (List ValType) → List Block → List Raw → Prop
  /-- Outside of all constructs, the only label is that of the function. -/
  | function {results blocks under} (hresults : results.length = frame.results)
    (hblocks : blocks.length = frame.blockBase) (hunder : under.length = frame.valueBase) :
    Enclosed frame [results] blocks under
  /-- In a construct, with more operands under it. -/
  | construct {labels blocks under ls b below} (outer : Enclosed frame labels blocks under)
    (harity : ls.length = b.arity) (hbase : b.base = (below ++ under).length) :
    Enclosed frame (ls :: labels) (b :: blocks) (below ++ under)

variable {frame : Frame} {labels : List (List ValType)} {blocks : List Block} {under : List Raw}

namespace Enclosed

theorem blockBase_le (h : Enclosed frame labels blocks under) :
    frame.blockBase ≤ blocks.length := by
  induction h with
  | function _ hblocks _ => exact Nat.le_of_eq hblocks.symm
  | construct _ _ _ ih => exact Nat.le_succ_of_le ih

theorem valueBase_le (h : Enclosed frame labels blocks under) : frame.valueBase ≤ under.length := by
  induction h with
  | function _ _ hunder => exact Nat.le_of_eq hunder.symm
  | construct _ _ _ ih =>
    rw [List.length_append]
    omega

/-- The label that a branch goes to is that of an open block, or that of the
function. -/
theorem label (h : Enclosed frame labels blocks under) {depth : Nat} {ls : List ValType}
    (hls : labels[depth]? = some ls) : (depth < blocks.length - frame.blockBase ∧
        ∃ b, blocks[depth]? = some b ∧ b.base ≤ under.length ∧ ls.length = b.arity) ∨
      (¬depth < blocks.length - frame.blockBase ∧ ls.length = frame.results) := by
  induction h generalizing depth with
  | @function results blocks under hresults hblocks hunder =>
    rw [List.getElem?_singleton] at hls
    split at hls
    · exact Or.inr ⟨by omega, Option.some.inj hls ▸ hresults⟩
    · simp at hls
  | @construct labels blocks under ls' b below outer harity hbase ih =>
    have hle := outer.blockBase_le
    rw [List.length_cons]
    cases depth with
    | zero =>
      obtain rfl : ls' = ls := by simpa using hls
      exact Or.inl ⟨by omega, b, rfl, Nat.le_of_eq hbase, harity⟩
    | succ depth =>
      rcases ih (by simpa using hls) with ⟨hd, b', hb', hbase', hlen⟩ | ⟨hd, hlen⟩
      · exact Or.inl ⟨by omega, b', by simpa using hb', by rw [List.length_append]; omega, hlen⟩
      · exact Or.inr ⟨by omega, hlen⟩

end Enclosed

/-! ### Branches and returns -/

variable {callers : List Frame} {b : Block} {below : List Raw} {pc pc' : Nat} {s : State}

theorem leaveFrame_outside (h : Enclosed frame labels blocks under)
    (hs : frame.results ≤ s.operands.length) :
    ((place frame callers (b :: blocks) (below ++ under) pc s).leaveFrame :
      Run (World H) Progress) = (place frame callers blocks under pc' s).leaveFrame := by
  have hle := h.blockBase_le
  have hvalues : (place frame callers (b :: blocks) (below ++ under) pc s).unwound =
      (place frame callers blocks under pc' s).unwound := by
    simp only [unwound, place, List.length_cons, Prod.mk.injEq]
    refine ⟨keepAbove_between hs h.valueBase_le, ?_⟩
    rw [Nat.sub_add_comm hle, List.drop_succ_cons]
  funext w
  simp only [leaveFrame, hvalues]
  rfl

/-- **A branch does the same from within a construct and from outside of it.** -/
theorem branchTo_outside (h : Enclosed frame labels blocks under) {depth : Nat} {ls : List ValType}
    (hls : labels[depth]? = some ls) (hs : ls.length ≤ s.operands.length) :
    ((place frame callers (b :: blocks) (below ++ under) pc s).branchTo (depth + 1) :
      Run (World H) Progress) = (place frame callers blocks under pc' s).branchTo depth := by
  have hle := h.blockBase_le
  rcases h.label hls with ⟨hd, b', hb', hbase, hlen⟩ | ⟨hd, hlen⟩
  · have hd' : depth + 1 < blocks.length + 1 - frame.blockBase := by omega
    have hkeep : keepAbove b'.base b'.arity (s.operands ++ (below ++ under)) =
        keepAbove b'.base b'.arity (s.operands ++ under) := keepAbove_between (hlen ▸ hs) hbase
    cases hloop : b'.isLoop with
    | true =>
      simp only [Block.arity, hloop, if_true] at hkeep
      simp only [branchTo, branch?, place, List.length_cons, hd, hd', if_true,
        List.getElem?_cons_succ, hb', hloop, List.drop_succ_cons, hkeep, goto]
    | false =>
      simp only [Block.arity, hloop, Bool.false_eq_true, if_false] at hkeep
      simp only [branchTo, branch?, place, List.length_cons, hd, hd', if_true,
        List.getElem?_cons_succ, hb', hloop, Bool.false_eq_true, if_false, List.drop_succ_cons,
        hkeep, goto]
  · have hd' : ¬depth + 1 < blocks.length + 1 - frame.blockBase := by omega
    simp only [branchTo, branch?, place, List.length_cons, hd, hd', if_false]
    exact leaveFrame_outside h (hlen ▸ hs)

end Machine

end WasmEngine
