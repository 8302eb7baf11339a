import WasmEngine.Proofs.Related
import WasmEngine.Proofs.Structured

/-!
# The interpreter up to a return

`WasmEngine.Interpreter.run` goes on until the entry frame returns. To say what
the code of one frame does, `WasmEngine.Interpreter.runTo` stops earlier: as
soon as fewer frames wait than a given number. It also keeps the log of calls
that the reference semantics keeps. With nothing to stop at, it is the
interpreter itself, as `WasmEngine.Interpreter.run_eq_ended` says; so a
statement about `runTo` is one about the interpreter.

A greater bound never changes what the interpreter answers
(`WasmEngine.Interpreter.chain_invoke`, `WasmEngine.Interpreter.chain_runTo`).
-/

namespace WasmEngine

open Run

variable {H : Type}

namespace Machine

/-- The call of a function with the operands on top, if the function is there
and its arguments are. -/
def callOf? (env : Env H) (func : Nat) (vs : List Raw) : Option Call := do
  let t ← env.mod.funcType? func
  if vs.length < t.params.length then none else some ⟨func, (vs.take t.params.length).reverse⟩

/-- The call that the next step makes, if it makes one. -/
def nextCall? (env : Env H) (m : Machine) (w : World H) : Option Call :=
  match m.frame.code[m.frame.pc]? with
  | some (.plain (.call func)) => callOf? env func m.values
  | some (.plain (.callIndirect type table)) =>
    match m.values with
    | index :: rest =>
      match w.store.tableFunc table index.low.toNat with
      | .ok func =>
        if (env.mod.funcType? func).isSome ∧ env.mod.funcType? func = env.mod.types[type]? then
          callOf? env func rest
        else none
      | .error _ => none
    | [] => none
  | _ => none

/-! ### A step and the calls of host functions -/

theorem step_below (env : Env H) {invoke invoke' : Nat → List Value → Run (World H) (List Value)}
    (h : ∀ func args, Below (invoke func args) (invoke' func args)) (m : Machine) :
    Below (m.step env invoke) (m.step env invoke') :=
  whole_step m World.whole_below env.relates_below h

end Machine

namespace Interpreter

variable (env : Env H)

variable {n : Nat} {w w' : World H} {m : Machine} {l : Logged H}

/-- Runs a machine until fewer frames wait than `depth`, and writes its calls to
the log. What comes then is the answer. If it halts, the frames it has entered
since return their units of call depth. -/
def runTo (depth : Nat) : (bound : Nat) → Machine → Run (Logged H) Progress
  | 0, _ => Run.halt .exhausted
  | n + 1, m => fun l =>
    let calls := (m.nextCall? env l.world).toList ++ l.calls
    match m.step env (invoke env n) l.world with
    | (.ok (.running m'), w) =>
      if m'.callers.length < depth then (.ok (.running m'), ⟨w, calls⟩)
      else runTo depth n m' ⟨w, calls⟩
    | (.ok (.finished values), w) => (.ok (.finished values), ⟨w, calls⟩)
    | (.error h, w) => (.error h, ⟨w.exits (m.callers.length + 1 - depth), calls⟩)

theorem run_ok {m m' : Machine} (hs : m.step env (invoke env n) w = (.ok (.running m'), w')) :
    run env (n + 1) m w = run env n m' w' := by
  simp only [run, hs]

theorem run_finished {vs : List Raw}
    (hs : m.step env (invoke env n) w = (.ok (.finished vs), w')) : run env (n + 1) m w =
    (.ok vs, w') := by
  simp only [run, hs]

theorem run_error {h : Halt} (hs : m.step env (invoke env n) w = (.error h, w')) :
    run env (n + 1) m w = (.error h, w'.exits (m.callers.length + 1)) := by
  simp only [run, hs]

/-- What a step comes to when so much of the bound is left behind it. -/
def onward (depth : Nat) (p : Progress) (l : Logged H) (n : Nat) :
    Except Halt Progress × Logged H :=
  match p with
  | .running m => if m.callers.length < depth then (.ok (.running m), l) else runTo env depth n m l
  | .finished values => (.ok (.finished values), l)

theorem onward_running {depth : Nat} (hm : depth ≤ m.callers.length) :
    onward env depth (.running m) l = fun n => runTo env depth n m l := by
  funext n
  rw [onward, if_neg (by omega)]

theorem runTo_ok {depth n : Nat} {p : Progress} {w : World H}
    (hs : m.step env (invoke env n) l.world = (.ok p, w)) :
    runTo env depth (n + 1) m l =
    onward env depth p ⟨w, (m.nextCall? env l.world).toList ++ l.calls⟩ n := by
  cases p <;> simp only [runTo, hs, onward]

theorem runTo_error (depth : Nat) {h : Halt} {w : World H}
    (hs : m.step env (invoke env n) l.world = (.error h, w)) :
    runTo env depth (n + 1) m l =
    (.error h,
      ⟨w.exits (m.callers.length + 1 - depth), (m.nextCall? env l.world).toList ++ l.calls⟩) := by
  simp only [runTo, hs]

/-- What a run that stopped at no return has come to, without its log. -/
def ended : Except Halt Progress × Logged H → Except Halt (List Raw) × World H
  | (.ok (.finished values), l) => (.ok values, l.world)
  | (.ok (.running _), l) => (.error .aborted, l.world)
  | (.error h, l) => (.error h, l.world)

@[simp]
theorem settled_ended (r : Except Halt Progress × Logged H) : Settled (ended r) ↔ Settled r := by
  obtain ⟨_ | _ | _, l⟩ := r <;> simp [ended]

/-- **A run is a run up to no return at all**, whatever was in the log. -/
theorem run_eq_ended (n : Nat) (m : Machine) (l : Logged H) : run env n m l.world =
    ended (runTo env 0 n m l) := by
  induction n generalizing m l with
  | zero => rfl
  | succ n ih =>
    rcases hs : m.step env (invoke env n) l.world with ⟨h | m' | vs, w⟩
    · rw [run_error env hs, runTo_error env _ hs]
      rfl
    · rw [run_ok env hs, runTo_ok env hs]
      exact ih m' ⟨w, (m.nextCall? env l.world).toList ++ l.calls⟩
    · rw [run_finished env hs, runTo_ok env hs]
      rfl

/-! ### More bound, same answer -/

theorem related_below (n : Nat) : Related Below env env n (n + 1) :=
  .of_zero World.whole_below env.relates_below ⟨fun _ _ => below_of_exhausted _,
    fun _ => below_of_exhausted _⟩ n

theorem chain_invoke (func : Nat) (args : List Value) : Chain fun n => invoke env n func args :=
  fun n => (related_below env n).invoke func args

theorem chain_runTo (depth : Nat) (m : Machine) : Chain fun n => runTo env depth n m := by
  intro n
  induction n generalizing m with
  | zero =>
    simp only [runTo]
    exact below_of_exhausted _
  | succ n ih =>
    intro l hl
    have hstep := Machine.step_below env (related_below env n).invoke m l.world
    simp only at hl ⊢
    rcases settled_cases (m.step env (invoke env n) l.world) with ⟨p, w', hs⟩ | ⟨h, w',
      hs, hh⟩ | ⟨w', hs⟩
    · rw [runTo_ok env hs] at hl ⊢
      rw [runTo_ok env ((hstep (by simp [hs])).trans hs)]
      cases p with
      | running m' =>
        simp only [onward] at hl ⊢
        split
        · rfl
        · next hd => exact ih m' _ (by simpa [hd] using hl)
      | finished vs => rfl
    · rw [runTo_error env _ hs, runTo_error env _ ((hstep (by simp [hs, hh])).trans hs)]
    · simp [runTo_error env _ hs] at hl

/-! ### A step leads on -/

theorem rising_runTo (depth : Nat) (m : Machine) (l : Logged H) :
    Rising fun i => runTo env depth i m l :=
  (chain_runTo env depth m).rising l

theorem rising_onward (depth : Nat) (p : Progress) (l : Logged H) :
    Rising (onward env depth p l) := by
  intro i hi
  cases p with
  | running m =>
    simp only [onward] at hi ⊢
    split
    · rfl
    · next h => exact rising_runTo env depth m l i (by simpa [h] using hi)
  | finished vs => rfl

/-- A step that some bound suffices for leads to what comes of it. -/
theorem leads_step (depth : Nat) {j : Nat} {p : Progress} {w : World H}
    (hs : m.step env (invoke env j) l.world = (.ok p, w)) :
    Leads 1 (fun i => runTo env depth i m l)
      (onward env depth p ⟨w, (m.nextCall? env l.world).toList ++ l.calls⟩) := by
  have hchain : Chain fun i => m.step env (invoke env i) := fun i => Machine.step_below env
    (related_below env i).invoke m
  refine ⟨fun i hi => ?_, fun i hi => ?_⟩
  · rcases settled_cases (m.step env (invoke env i) l.world) with ⟨p', w', hs'⟩ | ⟨h, w',
      hs', hh⟩ | ⟨w', hs'⟩
    · have huniq := Settles.unique hchain ⟨by simp, i, hs'⟩ ⟨by simp, j, hs⟩
      exact (runTo_ok env (hs'.trans huniq)).symm
    · have huniq := Settles.unique hchain ⟨by simpa using hh, i, hs'⟩ ⟨by simp, j, hs⟩
      simp at huniq
    · simp [runTo_error env _ hs'] at hi
  · refine ⟨max i j + 1, ?_⟩
    have hmax : m.step env (invoke env (max i j)) l.world = (.ok p, w) := by
      rw [hchain.below (Nat.le_max_right i j) l.world (by simp [hs])]
      exact hs
    rw [runTo_ok env hmax]
    exact (rising_onward env depth p _).eq_of_le (Nat.le_max_left i j) hi

end Interpreter

end WasmEngine
