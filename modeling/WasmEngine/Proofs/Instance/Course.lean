import WasmEngine.Proofs.Bounded
import WasmEngine.Proofs.Instance.Operation
import WasmEngine.Proofs.Runtime

/-!
# The course of an instance

What an instance shows of itself while operations are done to it, without
bounds: each operation ends with an answer, in a state that can be looked at and
with a context of the host, or it goes on forever and nothing follows
(`WasmEngine.Instance.Course`). A greater bound never changes what an operation
ends with, so there is exactly one course (`WasmEngine.Instance.Course.unique`,
`WasmEngine.Instance.exists_course`).

An operation runs code at most once, so it comes down to a **plan**
(`WasmEngine.Instance.Operation.plan`) that has no bound in it.
-/

namespace WasmEngine

open Run

variable {H : Type}

namespace Instance

/-! ### Courses -/

variable {answer : List Value → Except Error Answer}

/-- What comes of an operation. -/
inductive Effect (H : Type)
  /-- It ends with an answer or an error, in a state and with a context of the
  host. -/
  | ends (r : Except Halt Answer) (store : Store) (host : H)
  /-- It goes on forever. -/
  | goesOn

/-- **What comes of operations**, each in a context of the host. -/
inductive Course : Instance H → List (H × Operation H) → List (Effect H) → Prop
  /-- There is nothing to do. -/
  | nil {i} : Course i [] []
  /-- An operation ends, and the others are done to the instance that it leaves. -/
  | ends {i h op os r i' h' es} (hop : Settles (fun n => Operation.act n op) (i, h) (r, i', h'))
    (rest : Course i' os es) : Course i ((h, op) :: os) (.ends r i'.store h' :: es)
  /-- An operation goes on forever, and no other is done. -/
  | goesOn {i h op os} (hop : Diverges (fun n => Operation.act n op) (i, h)) :
    Course i ((h, op) :: os) [.goesOn]

/-! ### Bounds of operations -/

/-- What is made of a call that ran: the instance gets its state back, and the
guard is reset after an error. -/
def ran (i : Instance H) : Except Halt (List Value) × World H →
    Except Halt (List Value) × Instance H × H
  | (.ok vs, w) => (.ok vs, { i with store := w.store, guard := w.guard }, w.host)
  | (.error e, w) =>
    (.error e, { i with store := w.store, guard := w.guard.reset i.options.maxCallDepth }, w.host)

theorem run_eq_ran {i : Instance H} {r : Runtime} (hr : i.runtime = some r) (bound func : Nat)
    (args : List Value) (h : H) :
    run bound func args (i, h) =
    i.ran (r.invoke ⟨i.mod, i.policy, i.hosts⟩ bound func args ⟨i.store, i.guard, h⟩) := by
  simp only [run, hr]
  rcases r.invoke ⟨i.mod, i.policy, i.hosts⟩ bound func args ⟨i.store, i.guard, h⟩ with ⟨e | vs,
    w⟩ <;> simp only [ran, hr]

theorem settled_ran {i : Instance H} {x : Except Halt (List Value) × World H} :
    Settled (i.ran x) ↔ Settled x := by
  obtain ⟨e | vs, w⟩ := x <;> simp [ran]

theorem chain_run (func : Nat) (args : List Value) : Chain (fun n => run (H := H) n func args) := by
  rintro n ⟨i, h⟩ hs
  dsimp only at hs ⊢
  rcases hr : i.runtime with _ | r
  · simp only [run, hr]
  · rw [run_eq_ran hr, settled_ran] at hs
    rw [run_eq_ran hr, run_eq_ran hr]
    exact congrArg i.ran (r.chain_invoke _ func args n _ hs)

/-- **What an operation comes down to**: an outcome that needs no bound, or one
call of a function and what is made of its results. -/
inductive Plan (H : Type)
  /-- There is nothing to run. -/
  | done (r : Except Halt Answer) (i : Instance H) (h : H)
  /-- A function is called; a failed call may leave the instance in need of
  another set-up. -/
  | call (i : Instance H) (h : H) (func : Nat) (args : List Value) (answer : List Value →
    Except Error Answer) (ready : Bool → Bool)

/-- What is made of the call of a plan. -/
def called (answer : List Value → Except Error Answer) (ready : Bool → Bool) :
    Except Halt (List Value) × Instance H × H → Except Halt Answer × Instance H × H
  | (.ok vs, i, h) => ((answer vs).mapError .error, i, h)
  | (.error e, i, h) => (.error e, { i with ready := ready i.ready }, h)

/-- Carries out a plan. -/
def Plan.run (bound : Nat) : Plan H → Except Halt Answer × Instance H × H
  | .done r i h => (r, i, h)
  | .call i h func args answer ready => called answer ready (Instance.run bound func args (i, h))

/-- The plan of a call of an export. -/
def planCall (i : Instance H) (h : H) (space name : String) (args : List Value)
    (answer : List Value → Except Error Answer) (refuse : Nat → Option Error) : Plan H :=
  match i.lookup space name args with
  | .error e => .done (.error (.error e)) i h
  | .ok (func, results) =>
    match refuse results with
    | some e => .done (.error (.error e)) i h
    | none => .call i h func args answer id

/-- Setting up, but for the start function. -/
def build (options : Option Options) : Act H Unit := do
  applyOptions options
  link
  prepare
  instantiate

/-- The plan of an operation. -/
def Operation.plan (i : Instance H) (h : H) : Operation H → Plan H
  | .setMemory byteLimit => .done (.ok .done) (i.setMemory byteLimit) h
  | .setRegistry r => .done (.ok .done) (i.setRegistry r) h
  | .setUp options =>
    match build options (i, h) with
    | (.ok (), i, h) =>
      match i.mod.start with
      | none => .done (.ok .done) i h
      | some func => .call i h func [] (fun _ => .ok .done) fun _ => false
    | (.error e, i, h) => .done (.error e) i h
  | .invoke name args => planCall i h "env" name args (fun vs => .ok (.values vs)) fun _ => none
  | .call space name args => planCall i h space name args (fun _ => .ok .done) fun _ => none
  | .callForValue space name args =>
    planCall i h space name args (fun vs => .ok (.value vs.head?)) fun results =>
    if 1 < results then some (.unsupported (.manyResults name results)) else none
  | .callTyped name args results =>
    planCall i h "env" name args (fun vs => (expectResults results vs).map .values) fun _ => none
  | .memory op =>
    match i.onMemory op with
    | (.ok r, i) => .done (.ok (.reply r)) i h
    | (.error e, i) => .done (.error (.error e)) i h

theorem run_planCall {i : Instance H} {h : H} {space name : String} {args : List Value}
    {refuse : Nat → Option Error} {bound : Nat} :
    (planCall i h space name args answer refuse).run bound = match i.lookup space name args with
      | .error e => (.error (.error e), i, h)
      | .ok (func, results) =>
        match refuse results with
        | some e => (.error (.error e), i, h)
        | none => called answer id (run bound func args (i, h)) := by
  rw [planCall]
  rcases i.lookup space name args with e | ⟨func, results⟩
  · rfl
  · dsimp only
    rcases refuse results with _ | e <;> rfl

/-- **An operation does what its plan says.** -/
theorem act_eq_plan (op : Operation H) (i : Instance H) (h : H) (bound : Nat) :
    op.act bound (i, h) = (op.plan i h).run bound := by
  cases op with
  | setMemory | setRegistry => rfl
  | setUp options =>
    -- Only the last stage runs code; all before it is done when the plan is made.
    have hbuild : (setUp bound options : Act H Unit) = build options >>= fun _ => start bound := by
      simp only [setUp, build, bind_assoc]
    rw [Operation.act, Operation.plan, hbuild]
    simp only [bind_apply]
    rcases build options (i, h) with ⟨e | _, i', h'⟩
    · rfl
    · dsimp only
      simp only [start]
      rcases i'.mod.start with _ | func
      · rfl
      · dsimp only
        simp only [Plan.run]
        rcases run bound func [] (i', h') with ⟨e | vs, i'', h''⟩ <;> rfl
  | invoke name args =>
    rw [Operation.act, Operation.plan, run_planCall]
    simp only [bind_apply, invoke]
    rcases i.lookup "env" name args with e | ⟨func, results⟩
    · rfl
    · dsimp only
      rcases run bound func args (i, h) with ⟨e | vs, x⟩ <;> rfl
  | call space name args =>
    rw [Operation.act, Operation.plan, run_planCall]
    simp only [bind_apply, call]
    rcases i.lookup space name args with e | ⟨func, results⟩
    · rfl
    · dsimp only
      rcases run bound func args (i, h) with ⟨e | vs, x⟩ <;> rfl
  | callForValue space name args =>
    rw [Operation.act, Operation.plan, run_planCall]
    simp only [bind_apply, callForValue]
    rcases i.lookup space name args with e | ⟨func, results⟩
    · rfl
    · dsimp only
      by_cases hmany : 1 < results
      · simp only [hmany, if_true]
      · simp only [hmany, if_false]
        rcases run bound func args (i, h) with ⟨e | vs, x⟩ <;> rfl
  | callTyped name args results =>
    rw [Operation.act, Operation.plan, run_planCall]
    simp only [bind_apply, callTyped, invoke]
    rcases i.lookup "env" name args with e | ⟨func, results'⟩
    · rfl
    · dsimp only
      rcases run bound func args (i, h) with ⟨e | vs, i', h'⟩
      · rfl
      · simp only [called]
        rcases expectResults results vs with e | us <;> rfl
  | memory op =>
    rw [Operation.act, Operation.plan]
    simp only
    rcases i.onMemory op with ⟨e | r, i'⟩ <;> rfl

theorem settled_called {ready : Bool → Bool}
    {x : Except Halt (List Value) × Instance H × H} :
    Settled (called answer ready x) ↔ Settled x := by
  obtain ⟨e | vs, i, h⟩ := x
  · simp [called]
  · simp only [called, settled_ok, iff_true]
    rcases answer vs with e | a <;> simp [Except.mapError]

/-- **A greater bound never changes what an operation ends with.** -/
theorem chain_act (op : Operation H) : Chain (fun n => op.act n) := by
  rintro n ⟨i, h⟩ hs
  simp only [act_eq_plan] at hs ⊢
  generalize op.plan i h = p at hs ⊢
  obtain ⟨r, i', h'⟩ | ⟨i', h', func, args, answer, ready⟩ := p
  · rfl
  · have hrun := chain_run func args n (i', h') (settled_called.1 hs)
    exact congrArg (called answer ready) hrun

/-! ### There is one course -/

variable {i : Instance H} {os : List (H × Operation H)} {es es' : List (Effect H)}

theorem Course.unique (h : Course i os es) (h' : Course i os es') : es = es' := by
  induction h generalizing es' with
  | nil =>
    cases h'
    rfl
  | @ends i host op os r i₁ h₁ es hop _ ih =>
    cases h' with
    | ends hop' rest' =>
      obtain ⟨rfl, rfl, rfl⟩ := Settles.unique (chain_act op) hop hop'
      rw [ih rest']
    | goesOn hop' => exact absurd ⟨_, hop⟩ (diverges_iff.1 hop')
  | goesOn hop =>
    cases h' with
    | ends hop' => exact absurd ⟨_, hop'⟩ (diverges_iff.1 hop)
    | goesOn => rfl

theorem exists_course (i : Instance H) (os : List (H × Operation H)) : ∃ es, Course i os es := by
  induction os generalizing i with
  | nil => exact ⟨[], .nil⟩
  | cons o os ih =>
    obtain ⟨h, op⟩ := o
    by_cases hop : Diverges (fun n => op.act n) (i, h)
    · exact ⟨_, .goesOn hop⟩
    · rw [diverges_iff, not_not] at hop
      obtain ⟨⟨r, i', h'⟩, hop⟩ := hop
      obtain ⟨es, hes⟩ := ih i'
      exact ⟨_, .ends hop hes⟩

end Instance

end WasmEngine
