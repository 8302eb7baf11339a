import WasmEngine.Proofs.Compiled.Code
import WasmEngine.Proofs.Compiled.Extent
import WasmEngine.Proofs.Compiled.Register
import WasmEngine.Proofs.Interpreter.Body

/-!
# Frames do not disturb each other

All frames of compiled code lie in one row of slots, and the frame of a callee
is put over the arguments of its caller, in slots that earlier calls may have
written to. A call nevertheless has nothing to do with other frames
(`WasmEngine.Compiled.windowed`).

* It leaves what is below its own frame alone and gives up no slot, whether it
  returns, traps or is cut short (`WasmEngine.Compiled.retainsWithin`). That is
  so for any code at all, as slots are counted from the frame pointer on.
* It starts with zeros in its locals apart from parameters, and comes to the
  results that the interpreter comes to on a stack of its own.

A frame may start behind the last slot if there are no arguments. The slots in
between are added along with those of the frame, so that nothing else changes if
they are there before (`WasmEngine.Activation.pad`).
-/

namespace WasmEngine

open Run Structured

variable {H α : Type}

/-! ### What is retained -/

namespace Compiled

/-- The slots that are there below a frame stay, and slots are only added. -/
structure Retained (fp : Nat) (slots slots' : Array Raw) : Prop where
  /-- The slots below the frame. -/
  below : ∀ i < fp, i < slots.size → slots'[i]? = slots[i]?
  /-- The number of slots. -/
  size : slots.size ≤ slots'.size

namespace Retained

variable {fp : Nat} {slots slots' slots'' : Array Raw}

theorem refl (fp : Nat) (slots : Array Raw) : Retained fp slots slots :=
  ⟨fun _ _ _ => rfl, Nat.le_refl _⟩

theorem trans (h : Retained fp slots slots') (h' : Retained fp slots' slots'') :
    Retained fp slots slots'' :=
  ⟨fun i hi hsize => (h'.below i hi (Nat.lt_of_lt_of_le hsize h.size)).trans (h.below i hi hsize),
    Nat.le_trans h.size h'.size⟩

theorem of_kept (h : Kept fp slots slots') : Retained fp slots slots' :=
  ⟨fun i hi _ => h.below i hi, h.size⟩

theorem mono {fp' : Nat} (h : Retained fp' slots slots') (hfp : fp ≤ fp') :
    Retained fp slots slots' :=
  ⟨fun i hi hsize => h.below i (Nat.lt_of_lt_of_le hi hfp) hsize, h.size⟩

theorem append (fp : Nat) (slots more : Array Raw) : Retained fp slots (slots ++ more) :=
  ⟨fun _ _ hsize => Array.getElem?_append_left hsize, by simp⟩

end Retained

end Compiled

namespace Activation

open Compiled

/-- **A run retains what is below a frame**, whatever comes of it. -/
def Retains (fp : Nat) (x : Run (Activation H) α) : Prop := ∀ a, Retained fp a.slots (x a).2.slots

namespace Retains

variable {fp : Nat}

theorem mono {fp' : Nat} {x : Run (Activation H) α} (h : Retains fp' x) (hfp : fp ≤ fp') :
    Retains fp x := fun a => (h a).mono hfp

theorem leaving {x : Run (Activation H) α} (h : Retains fp x) {f : Activation H → Activation H}
    (hf : ∀ a, (f a).slots = a.slots) : Retains fp (x.leaving f) := by
  intro a
  show Retained fp a.slots (f (x a).2).slots
  rw [hf]
  exact h a

theorem bind {β : Type} {x : Run (Activation H) α} {f : α → Run (Activation H) β}
    (hx : Retains fp x) (hf : ∀ b, Retains fp (f b)) : Retains fp (x >>= f) := by
  intro a
  have hfirst := hx a
  rw [Run.bind_apply]
  generalize x a = r at hfirst ⊢
  obtain ⟨_ | b, a'⟩ := r
  · exact hfirst
  · exact hfirst.trans (hf b a')

theorem closed : Closed (Only (Retains fp (H := H))) where
  pure _ _ := .refl _ _
  fail _ _ := .refl _ _
  bind := bind

theorem halt (h : Halt) : Retains fp (Run.halt h : Run (Activation H) α) := fun _ => .refl _ _

theorem get (i : Nat) : Retains fp (Activation.get i : Run (Activation H) Raw) := by
  intro a
  rw [Activation.get]
  split <;> exact .refl _ _

theorem set {i : Nat} (r : Raw) (hi : fp ≤ i) : Retains fp
    (Activation.set i r : Run (Activation H) Unit) := by
  intro a
  rw [Activation.set]
  split
  · exact .of_kept (Kept.set a.slots r hi)
  · exact .refl _ _

theorem move {src dst len : Nat} (h : ∀ k < len, fp ≤ dst + k) : Retains fp
    (Activation.move src dst len : Run (Activation H) Unit) := by
  intro a
  rw [Activation.move]
  split
  · exact .refl _ _
  · next hlen =>
    split
    · exact .of_kept (Kept.writeSlots a.slots _ (h 0 (by omega)))
    · exact .refl _ _

theorem onWorld (x : Run (World H) α) : Retains fp (Activation.onWorld x) := fun _ => .refl _ _

theorem openFrame (f : CompiledFunc) : Retains fp
    (Activation.openFrame f fp : Run (Activation H) Unit) := fun a =>
  (Retained.append fp a.slots _).trans
    (.of_kept (Kept.writeSlots _ _ (Nat.le_add_right fp f.params)))

/-- What is done to slots from a frame on retains what is below it. -/
theorem ample : Activation.Ample (fun i => fp ≤ i) (fun {_} _ _ => True)
    (Only (Retains fp (H := H))) where
  toClosed := closed
  get _ := get _
  set r hi := set r hi
  move h := move fun k hk => (h k hk).2
  world _ := onWorld _

end Retains

end Activation

namespace Compiled

open Activation

section Retains

variable (env : Env H) (c : Compiled)

/-- What compiled code retains, as far as the bound `n` goes. -/
structure RetainsWithin (n : Nat) : Prop where
  execute : ∀ func fp, Retains fp (execute env c n func fp)
  callAt : ∀ func slot, Retains slot (callAt env c n func slot)
  runSeq : ∀ fp ops, Retains fp (runSeq env c n fp ops)
  runOp : ∀ fp op, Retains fp (runOp env c n fp op)

namespace RetainsWithin

variable {env c} {n : Nat} (h : RetainsWithin env c n)
include h

theorem execute_succ (func fp : Nat) : Retains fp (Compiled.execute env c (n + 1) func fp) := by
  rw [Compiled.execute]
  refine Retains.bind (Retains.closed.need _ _) fun f => (Retains.openFrame f).bind fun _ => ?_
  exact (h.runSeq fp f.body).bind fun _ => Retains.closed.pure _

theorem callAt_succ (func slot : Nat) : Retains slot (Compiled.callAt env c (n + 1) func slot) := by
  rw [Compiled.callAt]
  split
  · refine Retains.bind (Retains.closed.need _ _) fun t => ?_
    refine Retains.bind (ample_arguments Retains.ample fun k _ => Nat.le_add_right slot k)
      fun args => ?_
    refine (Retains.onWorld _).bind fun results => ?_
    exact ample_setResults Retains.ample fun k _ => Nat.le_add_right slot k
  · exact (Retains.onWorld _).bind fun _ => (h.execute func slot).leaving fun _ => rfl

theorem runSeq_succ (fp : Nat) (ops : List Code) :
    Retains fp (Compiled.runSeq env c (n + 1) fp ops) := by
  cases ops with
  | nil => exact Retains.closed.pure _
  | cons op ops =>
    rw [runSeq_cons]
    refine (h.runOp fp op).bind fun flow => ?_
    cases flow with
    | next => exact h.runSeq fp ops
    | branch | ret => exact Retains.closed.pure _

theorem runOp_succ (fp : Nat) (op : Code) : Retains fp (Compiled.runOp env c (n + 1) fp op) := by
  rw [Compiled.runOp]
  refine ample_dispatch Retains.ample World.ample_true (Compiled.runSeq env c n fp)
    (fun _ => Compiled.runOp env c n fp op)
    (Compiled.callAt env c n) (.refl env) (fun i _ => Nat.le_add_right fp i) (h.runSeq fp)
      (h.runOp fp op) fun func args => ?_
  -- A callee has its frame in that of the caller or behind it.
  exact (h.callAt func (fp + args)).mono (Nat.le_add_right fp args)

end RetainsWithin

/-- **Compiled code retains what is below its frame**, whatever the bound. -/
theorem retainsWithin (n : Nat) : RetainsWithin env c n := by
  induction n with
  | zero => exact ⟨fun _ _ => .halt _, fun _ _ => .halt _, fun _ _ => .halt _, fun _ _ => .halt _⟩
  | succ n ih => exact ⟨ih.execute_succ, ih.callAt_succ, ih.runSeq_succ, ih.runOp_succ⟩

end Retains

end Compiled

/-! ### Frames behind the last slot -/

namespace Activation

/-- Adds slots up to the start of a frame. -/
def pad (a : Activation H) (fp : Nat) : Activation H :=
  { a with slots := a.slots ++ Array.replicate (fp - a.slots.size) 0 }

theorem le_size_pad (a : Activation H) (fp : Nat) : fp ≤ (a.pad fp).slots.size := by
  rw [pad, Array.size_append, Array.size_replicate]
  omega

/-- A row in the slots that are there. -/
theorem row_pad {a : Activation H} {fp : Nat} {args : List Raw} (h : Row a.slots fp args) :
    Row (a.pad fp).slots fp args := by
  intro k hk
  have harg : a.slots[fp + k]? = some (args.get ⟨k, hk⟩) :=
    (h k hk).trans (List.getElem?_eq_getElem hk)
  rw [← h k hk]
  exact Array.getElem?_append_left (Array.getElem?_eq_some_iff.1 harg).1

theorem openFrame_pad (cf : CompiledFunc) (a : Activation H) (fp : Nat) :
    openFrame cf fp (a.pad fp) = openFrame cf fp a := by
  have hslots :
    (a.pad fp).slots ++ Array.replicate (fp + cf.frameSize - (a.pad fp).slots.size) (0 : Raw) =
      a.slots ++ Array.replicate (fp + cf.frameSize - a.slots.size) 0 := by
    rw [pad, Array.append_assoc, Array.replicate_append_replicate, Array.size_append,
      Array.size_replicate]
    congr 2
    omega
  rw [openFrame, openFrame, hslots]
  rfl

end Activation

/-! ### What a call finds and leaves -/

namespace Compiled

open Activation

/-- A function of the module is called with its arguments in place. -/
structure Passed (env : Env H) (func fp : Nat) (f : Func) (t : FuncType) (args : List Raw)
    (slots : Array Raw) : Prop where
  /-- The function. -/
  defined : env.defined? func = some (f, t)
  /-- There are as many arguments as parameters. -/
  count : args.length = t.params.length
  /-- They are where the frame starts. -/
  row : Row slots fp args

/-- What the interpreter does with a function on a stack of its own, from the
arguments given and zeros for the other locals. -/
def alone (env : Env H) (f : Func) (t : FuncType) (args : List Raw) (n : Nat) :
    Run (World H) (List Raw) :=
  Interpreter.run env n
    (Interpreter.atStart f t (args ++ List.replicate f.locals.length 0).toArray [] [] [])

section Calls

variable {env : Env H} {bodies : Nat → Nested} {c : Compiled} {fp func : Nat} {f : Func}
  {t : FuncType} {args : List Raw} {a : Activation H}

theorem Passed.not_imported {slots : Array Raw} (h : Passed env func fp f t args slots) :
    ¬func < env.imported := by
  intro hfunc
  have hdefined := h.defined
  simp [Env.defined?, hfunc] at hdefined

theorem execute_eq (hc : Renders env.mod bodies c) {cf : CompiledFunc} (hf : ¬func < env.imported)
    (hcf : c.funcs[func - env.imported]? = some cf) (n : Nat) : execute env c (n + 1) func fp =
      (openFrame cf fp >>= fun _ => runSeq env c n fp cf.body >>= fun _ => Pure.pure () :
        Run (Activation H) Unit) := by
  simp only [execute, show c.imported = env.imported from hc.imported, hf, if_false, hcf,
    need_some, Run.pure_bind]

/-- A call starts with its arguments, and with zeros in its other locals. -/
theorem execute_starts (hc : Renders env.mod bodies c) (h : Passed env func fp f t args a.slots) :
    ∃ cf slots, c.funcs[func - c.imported]? = some cf ∧
    Row slots fp (args ++ List.replicate f.locals.length 0) ∧
      ∀ n, execute env c (n + 1) func fp a = (runSeq env c n fp cf.body >>= fun _ => Pure.pure ())
        ⟨slots, a.world⟩ := by
  obtain ⟨hf, ht, -⟩ := Env.of_defined h.defined
  obtain ⟨cf, hcf, hof⟩ := hc.funcs hf ht
  obtain ⟨top, hframe, -⟩ := hof.body
  have hlocals : cf.locals - cf.params =
    f.locals.length := by rw [hof.locals, hof.params, Nat.add_sub_cancel_left]
  obtain ⟨slots, hopen, -, -, hrow⟩ := openFrame_row (row_pad h.row) (h.count.trans hof.params.symm)
    (by rw [hof.params, hof.locals]; omega) (by omega) (le_size_pad a fp)
  rw [openFrame_pad] at hopen
  rw [hlocals] at hrow
  refine ⟨cf, slots, by rw [hc.imported]; exact hcf, hrow, fun n => ?_⟩
  rw [execute_eq hc h.not_imported hcf, Run.bind_ok hopen]
  rfl

/-- It does not matter whether the slots up to the frame are there. -/
theorem execute_pad (hc : Renders env.mod bodies c)
    (h : Passed env func fp f t args a.slots) (n : Nat) :
    execute env c (n + 1) func fp (a.pad fp) = execute env c (n + 1) func fp a := by
  obtain ⟨hf, ht, -⟩ := Env.of_defined h.defined
  obtain ⟨cf, hcf, -⟩ := hc.funcs hf ht
  rw [execute_eq hc h.not_imported hcf, Run.bind_apply, Run.bind_apply, openFrame_pad]

/-- A call mirrors the reference semantics of its body from its arguments and
zeros, whatever the slots have. -/
theorem finish_mirrors_passed (hlinked : env.Linked) (hb : env.mod.Bodies bodies)
    (hc : Renders env.mod bodies c) (h : Passed env func fp f t args a.slots) (n : Nat) :
    Mirrors (fun rs l (_ : Unit) a' => a'.world = l.world ∧ Row a'.slots fp rs.reverse) Alike
      (fun j => (execute env c j func fp).leaving (fun a => { a with world := a.world.exits 1 })
        (a.pad fp)) (n + 1)
      (finish (run env bodies n) t.results.length (bodies (func - env.imported))
        (args ++ List.replicate f.locals.length 0).toArray ⟨a.world, []⟩) := by
  obtain ⟨hf, ht, -⟩ := Env.of_defined h.defined
  have hmirrors := finish_mirrors (l := ⟨a.world, []⟩) (simulates hlinked hb hc n) hc h.not_imported
    hf ht (row_pad h.row) h.count
    (le_size_pad a fp) rfl
  rw [h.count, Nat.add_sub_cancel_left] at hmirrors
  exact hmirrors.mono fun rs l' _ a' hr => ⟨hr.1, hr.2.2⟩

/-- The interpreter returns from a function on a stack of its own as the
reference semantics does from its body. -/
theorem alone_returns_iff (hlinked : env.Linked) (hb : env.mod.Bodies bodies) {slots : Array Raw}
    (h : Passed env func fp f t args slots) {w w' : World H} {vs : List Raw} :
    Settles (alone env f t args) w (.ok vs, w') ↔ ∃ rs l, rs.reverse = vs ∧ l.world = w' ∧
      Settles (fun n => finish (run env bodies n) t.results.length (bodies (func - env.imported))
        (args ++ List.replicate f.locals.length 0).toArray) ⟨w, []⟩ (.ok rs, l) := by
  obtain ⟨hf, ht, -⟩ := Env.of_defined h.defined
  refine (Interpreter.run_settles_iff hlinked hb hf ht (by simp [h.count]) [] [] [] w
    (.ok vs, w')).trans ⟨?_, ?_⟩
  · rintro (⟨rs, l, hfinish, -, n, hr⟩ | ⟨e, l, -, hr⟩)
    · obtain ⟨rfl, rfl⟩ : (rs ++ []).reverse = vs ∧
        l.world = w' := by simpa [Interpreter.resume, Interpreter.returned] using hr
      exact ⟨rs, l, by rw [List.append_nil], rfl, hfinish⟩
    · cases hr
  · rintro ⟨rs, l, rfl, rfl, hfinish⟩
    refine Or.inl ⟨rs, l, hfinish, settled_ok _ _, 0, ?_⟩
    simp [Interpreter.resume, Interpreter.returned]

/-- The results are where the frame starts. -/
theorem execute_results (hlinked : env.Linked) (hb : env.mod.Bodies bodies)
    (hc : Renders env.mod bodies c) (h : Passed env func fp f t args a.slots) {n : Nat}
    {a' : Activation H} (hok : execute env c n func fp a = (.ok (), a')) :
    ∃ rs, rs.length = t.results.length ∧ Row a'.slots fp rs ∧ Settles (alone env f t args) a.world
      (.ok rs, a'.world.exits 1) := by
  obtain ⟨hf, ht, -⟩ := Env.of_defined h.defined
  cases n with
  | zero => cases hok
  | succ n =>
    -- The call is compared from padded slots on, where its frame starts at a slot that is there.
    have hleaves : (execute env c (n + 1) func fp).leaving
        (fun a => { a with world := a.world.exits 1 }) (a.pad fp) =
        (.ok (), { a' with world := a'.world.exits 1 }) := by rw [leaving, execute_pad hc h, hok]
    have hmatches := (finish_mirrors_passed hlinked hb hc h n).upper
      (by rw [hleaves]; exact settled_ok _ _)
    rw [hleaves] at hmatches
    rcases hfinish : finish (run env bodies n) t.results.length (bodies (func - env.imported))
      (args ++ List.replicate f.locals.length 0).toArray ⟨a.world, []⟩ with ⟨e | rs, l⟩
    · rw [hfinish] at hmatches
      exact hmatches.elim
    · rw [hfinish] at hmatches
      obtain ⟨hworld, hrow⟩ := hmatches
      have hlength : rs.length = t.results.length :=
        (finish_meets hb (back_run hlinked.contract hb n) hf ht (by simp [h.count])).of_ok
          trivial hfinish
      refine ⟨rs.reverse, by rw [List.length_reverse, hlength], hrow, ?_⟩
      exact (alone_returns_iff hlinked hb h).2 ⟨rs, l, rfl, hworld.symm, settled_ok _ _, n, hfinish⟩

/-- A call returns if the interpreter returns from the function. -/
theorem execute_returns (hlinked : env.Linked) (hb : env.mod.Bodies bodies)
    (hc : Renders env.mod bodies c) (h : Passed env func fp f t args a.slots) {rs : List Raw}
    {w : World H} (hs : Settles (alone env f t args) a.world (.ok rs, w)) :
    ∃ n a', execute env c n func fp a = (.ok (), a') := by
  obtain ⟨rs, l, -, -, -, n, hfinish⟩ := (alone_returns_iff hlinked hb h).1 hs
  have hmirrors := finish_mirrors_passed hlinked hb hc h n
  dsimp only at hfinish
  rw [hfinish] at hmirrors
  obtain ⟨j, hj⟩ := hmirrors.lower (settled_ok _ _)
  cases j with
  | zero => exact hj.elim
  | succ j =>
    rw [leaving, execute_pad hc h] at hj
    rcases hexec : execute env c (j + 1) func fp a with ⟨e | _, a'⟩
    · rw [hexec] at hj
      exact hj.elim
    · exact ⟨j + 1, a', hexec⟩

end Calls

/-- **What a call of a compiled function does to the slots**, with its frame at
`fp`. -/
structure Windowed (env : Env H) (c : Compiled) (func fp : Nat) (a : Activation H) : Prop where
  /-- Whatever comes of it, the slots below the frame are as they were, and no
  slot is given up. -/
  retained : ∀ n, Retained fp a.slots (execute env c n func fp a).2.slots
  /-- Whatever comes of it, a register with the frame pointer of the caller is
  as it was, and it does not matter what it has. -/
  restored : ∀ n r, Context.execute env c n func fp ⟨r, a⟩ =
    ((execute env c n func fp a).1, ⟨r, (execute env c n func fp a).2⟩)
  /-- Where the arguments are in place, the body starts with them, and with
  zeros in all other locals. -/
  locals : ∀ {f t args}, Passed env func fp f t args a.slots →
    ∃ cf slots, c.funcs[func - c.imported]? = some cf ∧
    Row slots fp (args ++ List.replicate f.locals.length 0) ∧
      ∀ n, execute env c (n + 1) func fp a =
      (runSeq env c n fp cf.body >>= fun _ => Pure.pure ()) ⟨slots, a.world⟩
  /-- If it returns, the results are where the frame starts: those that the
  interpreter comes to on a stack of its own. -/
  results : ∀ {f t args n a'}, Passed env func fp f t args a.slots →
    execute env c n func fp a = (.ok (), a') →
    ∃ rs, rs.length = t.results.length ∧ Row a'.slots fp rs ∧ Settles (alone env f t args) a.world
      (.ok rs, a'.world.exits 1)
  /-- It returns if the interpreter does. -/
  returns : ∀ {f t args rs w}, Passed env func fp f t args a.slots →
    Settles (alone env f t args) a.world (.ok rs, w) →
    ∃ n a', execute env c n func fp a = (.ok (), a')

/-- **Calls of compiled functions do not disturb other frames**, whatever
earlier calls have left in the slots. -/
theorem windowed {env : Env H} {bodies : Nat → Nested} {c : Compiled} (hlinked : env.Linked)
    (hb : env.mod.Bodies bodies) (hc : Renders env.mod bodies c) (func fp : Nat)
    (a : Activation H) : Windowed env c func fp a where
  retained n := (retainsWithin env c n).execute func fp a
  restored n r := Context.execute_eq env c n func fp ⟨r, a⟩
  locals := execute_starts hc
  results h hok := execute_results hlinked hb hc h hok
  returns h hs := execute_returns hlinked hb hc h hs

end Compiled

end WasmEngine
