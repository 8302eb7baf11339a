import WasmEngine.Proofs.Compiled.Instructions

/-!
# Frames of compiled functions

A call puts the frame of the callee over the arguments of the caller, so that
arguments are the first locals of the callee and its results are operands of the
caller (`WasmEngine.Compiled.Holds.append_iff`). What the callee needs beyond
that is added behind, and its other locals are set to zero
(`WasmEngine.Compiled.openFrame_row`). A host function has no frame: its
arguments are read from the slots and its results are written over them.
-/

namespace WasmEngine

open Run Structured

variable {H : Type}

namespace Activation

theorem arguments_eq {i : Nat} {ts : List ValType} {rs : List Raw} {a : Activation H}
    (h : Row a.slots i rs) (hlen : rs.length = ts.length) :
    arguments i ts a = (.ok (List.zipWith Value.ofRaw ts rs), a) := by
  induction ts generalizing i rs with
  | nil =>
    obtain rfl := List.length_eq_zero_iff.1 hlen
    rfl
  | cons t ts ih =>
    obtain _ | ⟨r, rs⟩ := rs
    · simp at hlen
    obtain ⟨hr, hrs⟩ := row_cons.1 h
    rw [arguments, Run.bind_ok (get_ok hr), Run.bind_ok (ih hrs (by simpa using hlen))]
    rfl

theorem setResults_eq {i : Nat} {vs : List Value} {a : Activation H}
    (h : i + vs.length ≤ a.slots.size) :
    setResults i vs a = (.ok (), ⟨writeSlots a.slots i (vs.map Value.toRaw), a.world⟩) := by
  induction vs generalizing i a with
  | nil => rfl
  | cons v vs ih =>
    rw [List.length_cons] at h
    rw [setResults, Run.bind_ok (set_ok (by omega) v.toRaw),
      ih (by rw [Array.size_setIfInBounds]; omega)]
    rfl

end Activation

namespace Compiled

open Activation

variable {fp : Nat} {under : List Raw} {locals : Array Raw} {xs rest : List Raw}
  {slots slots' : Array Raw}

/-- The slot of the operand above others. -/
def above (fp : Nat) (under : List Raw) (locals : Array Raw) (rest : List Raw) : Nat :=
  fp + (locals.size + (under.length + rest.length))

/-- Operands on top lie in a row of their own. -/
theorem Holds.append_iff :
    Holds fp under ⟨locals, xs ++ rest⟩ slots ↔
      Holds fp under ⟨locals, rest⟩ slots ∧ Row slots (above fp under locals rest) xs.reverse := by
  rw [Holds, List.append_assoc, List.reverse_append, ← List.append_assoc,
    row_append, Holds.length_row]
  rfl

/-- What is put in place of operands on top. -/
theorem Holds.replace (h : Holds fp under ⟨locals, rest⟩ slots)
    (hkept : Kept (above fp under locals rest) slots slots')
    (hrow : Row slots' (above fp under locals rest) xs.reverse) :
    Holds fp under ⟨locals, xs ++ rest⟩ slots' := by
  refine append_iff.2 ⟨hkept.row h ?_, hrow⟩
  rw [Holds.length_row]
  exact Nat.le_refl _

/-- A frame that is opened over arguments holds them and the other locals, with
as many slots as the function needs. -/
theorem openFrame_row {cf : CompiledFunc} {args : List Raw} {a : Activation H}
    (hargs : Row a.slots fp args) (hparams : args.length = cf.params)
    (hlocals : cf.params ≤ cf.locals) (hframe : cf.locals ≤ cf.frameSize)
    (hfp : fp ≤ a.slots.size) :
    ∃ slots, openFrame cf fp a = (.ok (), ⟨slots, a.world⟩) ∧ Kept fp a.slots slots ∧
    fp + cf.frameSize ≤ slots.size ∧
      Row slots fp (args ++ List.replicate (cf.locals - cf.params) 0) := by
  have hend := hargs.add_length_le hfp
  have hgrown : ∀ i < a.slots.size,
      (a.slots ++ Array.replicate (fp + cf.frameSize - a.slots.size) 0)[i]? =
      a.slots[i]? := fun i hi =>
    Array.getElem?_append_left hi
  have hsize :
      fp + cf.frameSize ≤
      (a.slots ++ Array.replicate (fp + cf.frameSize - a.slots.size) (0 : Raw)).size := by
    rw [Array.size_append, Array.size_replicate]
    omega
  refine ⟨_, rfl, ⟨fun i hi => ?_, ?_⟩, ?_, row_append.2 ⟨?_, ?_⟩⟩
  · rw [getElem?_writeSlots_of_lt (by omega), hgrown i (by omega)]
  · rw [size_writeSlots, Array.size_append]
    omega
  · rwa [size_writeSlots]
  · refine hargs.congr fun j _ hj => ?_
    rw [getElem?_writeSlots_of_lt (by omega), hgrown j (by omega)]
  · rw [hparams]
    exact row_writeSlots (by rw [List.length_replicate]; omega)

end Compiled

/-! ### Bodies that return -/

namespace Structured

/-- The outcome of a body that returns at its end. -/
def Outcome.returned : Outcome → Outcome
  | .next s => .ret s
  | o => o

theorem Outcome.andThen_returned {σ : Type} (o : Outcome) (k : State → Run σ Outcome) :
    (o.andThen fun s => k s >>= fun o => Pure.pure o.returned) = o.andThen k >>= fun o =>
    Pure.pure o.returned := by
  cases o <;> rfl

/-- A body that returns at its end does what the body does. -/
theorem exec_thenRet (env : Env H) (bodies : Nat → Nested)
    (invoke : Nat → List Value → Run (World H) (List Value))
    (again : Nested → State → Run (Logged H) Outcome) (code : Nested) (s : State) :
    exec env bodies invoke again code.thenRet s = exec env bodies invoke again code s >>= fun o =>
    Pure.pure o.returned := by
  induction code generalizing s with
  | done => rfl
  | brTable labels default next ih =>
    simp only [Nested.thenRet, exec, Run.bind_assoc]
    rfl
  | cond args body next _ ih =>
    simp only [Nested.thenRet, exec, Run.bind_assoc]
    refine congrArg _ (funext fun p => ?_)
    split
    · simp only [Run.bind_assoc, ← Outcome.andThen_returned, ← ih]
    · exact ih p.2
  | plain op next ih | block args body next _ ih | loop args body next _ ih
  | condElse args body alt next _ _ ih =>
    simp only [Nested.thenRet, exec, Run.bind_assoc, ← Outcome.andThen_returned, ← ih]

theorem run_thenRet (env : Env H) (bodies : Nat → Nested) (n : Nat) (code : Nested) (s : State) :
    run env bodies n code.thenRet s = run env bodies n code s >>= fun o =>
    Pure.pure o.returned := by
  cases n with
  | zero => rfl
  | succ n => exact exec_thenRet env bodies (invoke env bodies n) (run env bodies n) code s

end Structured

end WasmEngine
