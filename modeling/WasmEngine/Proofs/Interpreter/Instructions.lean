import WasmEngine.Proofs.Interpreter.Place

/-!
# Instructions of the interpreter and of the reference semantics

The machine at an instruction does what the reference semantics says of it, and
then goes on where that ends: at the next instruction, at the target of a branch
or in the calling frame (`WasmEngine.Interpreter.after`). A branch of the
machine takes a step and one of the reference semantics does not; so branches
are a step behind (`WasmEngine.Interpreter.delay`).

An instruction that calls a function depends on what is known of the body of the
function, within a smaller bound (`WasmEngine.Interpreter.Simulates`). From it
follows what the machine does from the start of a body, whatever is on its
stacks, up to the return (`WasmEngine.Interpreter.body_follows`).
-/

namespace WasmEngine

open Run Structured

variable {H : Type}

namespace Machine

variable {env : Env H} {frame : Frame} {callers : List Frame} {blocks : List Block}
  {under : List Raw} {pc : Nat}

/-- An instruction that neither branches nor calls does to the machine what it
does to the state of the reference semantics. -/
theorem operate_place {op : Plain} {s : State} (hop : op.demand ≤ s.operands.length)
    (hplain : op.isCall = false ∧ ∀ d, op ≠ .br d ∧ op ≠ .brIf d ∧ op ≠ .ret) :
    (place frame callers blocks under pc s).operate env op =
      Structured.operate env op s >>= fun s' =>
      Pure.pure (place frame callers blocks under pc s') := by
  obtain ⟨locals, vs⟩ := s
  cases op with
  | drop | globalSet | load | memoryGrow | unary =>
    obtain _ | ⟨v, vs⟩ := vs
    · simp [Plain.demand] at hop
    · simp only [operate, Structured.operate, place, pop, List.cons_append,
        Run.pure_bind, Run.bind_assoc]
      rfl
  | localSet i | localTee i =>
    obtain _ | ⟨v, vs⟩ := vs
    · simp [Plain.demand] at hop
    · simp only [operate, Structured.operate, place, pop, List.cons_append, Run.pure_bind]
      by_cases hi : i < locals.size
      · simp only [hi, if_true, Run.pure_bind, List.cons_append]
      · simp only [hi, if_false, fault_bind]
  | store | binary =>
    obtain _ | ⟨v, _ | ⟨v', vs⟩⟩ := vs
    · simp [Plain.demand] at hop
    · simp [Plain.demand] at hop
    · simp only [operate, Structured.operate, place, pop, List.cons_append,
        Run.pure_bind, Run.bind_assoc]
      rfl
  | memoryCopy | memoryFill =>
    obtain _ | ⟨v, _ | ⟨v', _ | ⟨v'', vs⟩⟩⟩ := vs
    · simp [Plain.demand] at hop
    · simp [Plain.demand] at hop
    · simp [Plain.demand] at hop
    · simp only [operate, Structured.operate, place, pop, List.cons_append,
        Run.pure_bind, Run.bind_assoc]
      rfl
  | select =>
    obtain _ | ⟨c, _ | ⟨b, _ | ⟨a, vs⟩⟩⟩ := vs
    · simp [Plain.demand] at hop
    · simp [Plain.demand] at hop
    · simp [Plain.demand] at hop
    · simp only [operate, Structured.operate, place, pop, List.cons_append, Run.pure_bind]
      cases c.isTrue <;> rfl
  | localGet | globalGet | memorySize =>
    simp only [operate, Structured.operate, Run.bind_assoc, Run.pure_bind]
    rfl
  | nop | unreachable | const => rfl
  | br d | brIf d | ret => simp at hplain
  | call | callIndirect => simp [Plain.isCall] at hplain

end Machine

namespace Interpreter

variable (env : Env H)

/-! ### What goes on -/

/-- What a step comes to that leaves the current code. -/
def proceed (depth : Nat) (x : Run (World H) Progress) (l : Logged H) (i : Nat) :
    Except Halt Progress × Logged H :=
  match x l.world with
  | (.ok p, w) => onward env depth p { l with world := w } i
  | (.error h, w) => (.error h, { l with world := w })

/-- **What goes on after a piece of code** that ends at `stop`: the code behind
it, or the step of a branch or a return. -/
def after (depth : Nat) (frame : Frame) (callers : List Frame) (blocks : List Block)
    (under : List Raw) (stop : Nat) : Outcome → Logged H → Nat → Except Halt Progress × Logged H
  | .next s, l => fun i => runTo env depth i (.place frame callers blocks under stop s) l
  | .branch d s, l =>
    proceed env depth ((Machine.place frame callers blocks under 0 s).branchTo d) l
  | .ret s, l => proceed env depth (Machine.place frame callers blocks under 0 s).leaveFrame l

/-- Branches and returns are a step behind. -/
def delay : Outcome → Nat
  | .next _ => 0
  | _ => 1

/-- **From a machine on, code is followed** that ends at `stop`, up to the
return of all frames above a depth. -/
abbrev FollowsTo (n depth : Nat) (frame : Frame) (callers : List Frame) (blocks : List Block)
    (under : List Raw) (stop : Nat) (m : Machine) (l : Logged H)
    (r : Except Halt Outcome × Logged H) : Prop :=
  Follows n (fun i => runTo env depth i m l) delay (after env depth frame callers blocks under stop)
    (Logged.exits (callers.length + 1 - depth)) r

section

variable {env} {depth : Nat} {frame : Frame} {callers : List Frame} {blocks : List Block}
  {under : List Raw} {pc : Nat} {s : State} {l : Logged H}

theorem leaveFrame_ok (m : Machine) (w : World H) : ∃ p w', m.leaveFrame w = (.ok p, w') := by
  rw [Machine.leaveFrame]
  cases m.callers with
  | nil => exact ⟨_, _, rfl⟩
  | cons c cs => exact ⟨_, _, rfl⟩

theorem branchTo_ok (m : Machine) (d : Nat) (w : World H) :
    ∃ p w', m.branchTo d w = (.ok p, w') := by
  rw [Machine.branchTo]
  cases m.branch? d with
  | some m' => exact ⟨_, _, rfl⟩
  | none => exact leaveFrame_ok m w

/-- A branch does not depend on where it comes from. -/
theorem branchTo_place (pc' d : Nat) :
    ((Machine.place frame callers blocks under pc s).branchTo d : Run (World H) Progress) =
      (Machine.place frame callers blocks under pc' s).branchTo d := rfl

/-- A step that makes no call leads on to what comes of it. -/
theorem leads_proceed {m : Machine} {x : Run (World H) Progress} (hs : ∀ inv, m.step env inv = x)
    (hcall : m.nextCall? env l.world = none) (hx : ∃ p w, x l.world = (.ok p, w)) :
    Leads 1 (fun i => runTo env depth i m l) (proceed env depth x l) := by
  obtain ⟨p, w, hx⟩ := hx
  have hproceed : proceed env depth x l = onward env depth p { l with world := w } := by
    funext i
    rw [proceed, hx]
  have hlead := leads_step env depth (((congrFun (hs (invoke env 0)) l.world)).trans hx)
  rw [hcall] at hlead
  rw [hproceed]
  exact hlead

/-- A step that only moves the machine leads on to where it is moved. -/
theorem leads_move {m m' : Machine}
    (hs : ∀ inv, m.step env inv = (Pure.pure (.running m') : Run (World H) Progress))
    (hcall : m.nextCall? env l.world = none) (hdepth : depth ≤ m'.callers.length) :
    Leads 1 (fun i => runTo env depth i m l) (fun i => runTo env depth i m' l) := by
  have hlead := leads_step env depth (congrFun (hs (invoke env 0)) l.world)
  rw [hcall, onward_running env hdepth] at hlead
  exact hlead

end

/-! ### What is known within a bound -/

/-- A frame runs the code of a scope in its module. -/
structure Scoped (sc : CodeScope) (frame : Frame) : Prop where
  /-- The module is that of the environment. -/
  mod : sc.mod = env.mod
  /-- The results are those of the frame. -/
  results : sc.results.length = frame.results

/-- The machine is at the start of typed code. -/
structure Ready (sc : CodeScope) (frame : Frame) (labels : List (List ValType))
    (blocks : List Block) (under : List Raw) (pc : Nat) (code : Nested) (ts us : List ValType)
    (s : State) : Prop where
  /-- The code is typed. -/
  typed : code.Typed sc labels ts us
  /-- Its distances fit. -/
  narrow : code.Narrow
  /-- The operands are there. -/
  fits : s.Fits sc ts
  /-- The code is at the position. -/
  row : Row frame.code pc code.flatten
  /-- The blocks are those of the labels. -/
  enclosed : Machine.Enclosed frame labels blocks under

/-- The block that a loop opens. -/
def loopBlock (pc size params results : Nat) (under : List Raw) : Block :=
  ⟨pc, size, under.length, params, results, true⟩

/-- **The machine follows the reference semantics within a bound.** -/
structure Simulates (bodies : Nat → Nested) (n : Nat) : Prop where
  /-- From the start of typed code on. -/
  code : ∀ {sc frame labels blocks under pc code ts us s depth callers l},
    Scoped env sc frame → Ready sc frame labels blocks under pc code ts us s →
    depth ≤ callers.length →
    Follows n (fun i => runTo env depth i (.place frame callers blocks under pc s) l) delay
      (after env depth frame callers blocks under (pc + code.size))
        (Logged.exits (callers.length + 1 - depth)) (Structured.run env bodies n code s l)
  /-- From the start of the body of a loop on. -/
  loop : ∀ {sc frame labels blocks under pc args body ps rs ts s depth callers l},
    Scoped env sc frame → Ready sc frame labels blocks under pc (.loop args body .done)
      (ps.reverse ++ ts) (rs.reverse ++ ts) s →
    args.type? sc.mod = some (ps, rs) → depth ≤ callers.length →
    Follows n
      (fun i => runTo env depth i
        (.place frame callers
          (loopBlock pc (body.size + 1) ps.length rs.length
            (s.operands.drop ps.length ++ under) :: blocks)
          (s.operands.drop ps.length ++ under) (pc + 1)
            { s with operands := s.operands.take ps.length }) l) delay
      (after env depth frame callers blocks under (pc + body.size + 2))
        (Logged.exits (callers.length + 1 - depth))
      (Structured.run env bodies n (.loop args body .done) s l)
  /-- From a call by a host function on. -/
  invoke : ∀ {func t args}, env.mod.funcType? func = some t → args.map Value.type = t.params →
    Tracks (fun j => invoke env j func args) n (Structured.invoke env bodies n func args)

/-! ### Functions -/

/-- Where a frame returns to, with its results on top of what was under it. -/
def returned (callers : List Frame) (blocks : List Block) (under rs : List Raw) : Progress :=
  match callers with
  | [] => .finished (rs ++ under).reverse
  | caller :: callers => .running ⟨rs ++ under, blocks, caller, callers⟩

section

variable {env} {bodies : Nat → Nested} {n depth : Nat} {callers : List Frame} {l : Logged H}

theorem enter_cases (w : World H) : (∃ g, World.enter w = (.ok (), { w with guard := g })) ∨
    ∃ t, World.enter w = (.error (.error (.trap t)), w) := by
  rw [World.enter]
  cases w.guard.enter with
  | ok g => exact Or.inl ⟨g, rfl⟩
  | error t => exact Or.inr ⟨t, rfl⟩

theorem exits_exits (a b : Nat) : (l.exits a).exits b = l.exits (a + b) := by
  simp [Logged.exits, World.exits, Guard.exits, Nat.sub_sub]

section

variable {frame : Frame} {blocks : List Block} {under : List Raw} {pc : Nat} {s : State}

theorem step_plain {op : Plain} {inv : Nat → List Value → Run (World H) (List Value)}
    (hop : frame.code[pc]? = some (.plain op)) :
    (Machine.place frame callers blocks under pc s).step env inv =
      (Machine.place frame callers blocks under pc s).stepPlain env inv op := by
  simp only [Machine.step, Machine.place, hop, need_some, Run.pure_bind]

/-- What is left when a frame returns from outside of all constructs. -/
theorem unwound_place (hblocks : blocks.length = frame.blockBase)
    (hunder : under.length = frame.valueBase) (hs : frame.results ≤ s.operands.length) :
    (Machine.place frame callers blocks under pc s).unwound =
    (s.operands.take frame.results ++ under, blocks) := by
  simp only [Machine.unwound, Machine.place, ← hblocks, ← hunder, Nat.sub_self, List.drop_zero,
    Prod.mk.injEq, and_true]
  exact keepAbove_under hs

theorem proceed_leaveFrame (hblocks : blocks.length = frame.blockBase)
    (hunder : under.length = frame.valueBase) (hs : frame.results ≤ s.operands.length) :
    proceed env depth (Machine.place frame callers blocks under pc s).leaveFrame l =
      onward env depth (returned callers blocks under (s.operands.take frame.results))
        (l.exits 1) := by
  funext i
  simp only [proceed, Machine.leaveFrame, unwound_place hblocks hunder hs]
  cases callers with
  | nil => rfl
  | cons caller callers => rfl

end

/-- **The body of a function**, from any stack: the machine does what the
reference semantics says of the body, and then returns with its results. -/
theorem body_follows (frame : Frame) (hlinked : env.Linked) (hb : env.mod.Bodies bodies)
    (hsim : Simulates env bodies n) {i : Nat} {f : Func} {t : FuncType}
    (hf : env.mod.funcs[i]? = some f) (ht : env.mod.types[f.type]? = some t) {blocks : List Block}
    {under : List Raw} {locals : Array Raw} (hcode : frame.code = f.code)
    (hresults : frame.results = t.results.length) (hblocks : blocks.length = frame.blockBase)
    (hunder : under.length = frame.valueBase)
    (hlocals : locals.size = t.params.length + f.locals.length) (hdepth : depth ≤ callers.length) :
    Follows n (fun j => runTo env depth j (.place frame callers blocks under 0 ⟨locals, []⟩) l)
      (fun _ => 1)
      (fun rs l' => onward env depth (returned callers blocks under rs) l')
        (Logged.exits (callers.length - depth))
      (finish (Structured.run env bodies n) t.results.length (bodies i) locals l) := by
  obtain ⟨t', ht', htyped⟩ := hb.typed hf
  obtain rfl : t' = t := Option.some.inj (ht'.symm.trans ht)
  have hrow : Row frame.code 0 ((bodies i).flatten ++ [.plain .ret]) := by
    rw [hcode, hb.code hf]
    exact row_toArray
  obtain ⟨hbody, hret⟩ := row_append.1 hrow
  rw [Nat.zero_add, Nested.length_flatten] at hret
  have hready : Ready ⟨env.mod, t'.params ++ f.locals, t'.results⟩ frame [t'.results] blocks
    under 0 (bodies i) []
      t'.results.reverse ⟨locals, []⟩ :=
    ⟨htyped, hb.narrow hf, ⟨by simpa using hlocals, rfl⟩, hbody,
      .function hresults.symm hblocks hunder⟩
  have hstop : (fun l' : Logged H => (l'.exits 1).exits (callers.length - depth)) =
      Logged.exits (callers.length + 1 - depth) := by
    funext l'
    rw [exits_exits]
    congr 1
    omega
  rw [finish, leaving_bind_pure]
  refine Follows.leaving ?_
  rw [hstop]
  refine Follows.bind (rising_runTo env depth _ l) (hsim.code ⟨rfl, hresults.symm⟩ hready hdepth)
    fun o l' ho => ?_
  have hfits := fits_of_run hlinked hb rfl htyped hready.fits ho
  have hleave {s : State} (hs : t'.results.length ≤ s.operands.length) :
      proceed env depth (Machine.place frame callers blocks under 0 s).leaveFrame l' =
        onward env depth (returned callers blocks under (s.operands.take t'.results.length))
          (l'.exits 1) := by
    rw [← hresults] at hs ⊢
    exact proceed_leaveFrame hblocks hunder hs
  cases o with
  | next s =>
    have hlen : t'.results.length ≤ s.operands.length := by simp [hfits.2]
    have hret : frame.code[(bodies i).size]? = some (.plain .ret) := (row_cons.1 hret).1
    have hlead :
      Leads 1 (fun j => runTo env depth j (.place frame callers blocks under (bodies i).size s) l')
        (proceed env depth (Machine.place frame callers blocks under 0 s).leaveFrame l') :=
      leads_proceed (fun _ => step_plain hret) (by simp [Machine.nextCall?, Machine.place, hret])
        (leaveFrame_ok _ _)
    rw [hleave hlen] at hlead
    simpa [after, delay, Follows, Outcome.results] using hlead
  | branch d s =>
    -- The only label out here is that of the function, and a branch to it is a return.
    obtain ⟨-, ls, hls, hlen⟩ := hfits
    have hbranch : ¬d < blocks.length - frame.blockBase := by omega
    obtain rfl : t'.results = ls := by
      rw [List.getElem?_singleton] at hls
      split at hls
      · exact Option.some.inj hls
      · simp at hls
    have hafter : after env depth frame callers blocks under (0 + (bodies i).size)
      (.branch d s) l' =
        proceed env depth (Machine.place frame callers blocks under 0 s).leaveFrame l' := by
      simp only [after, Machine.branchTo, Machine.branch?, Machine.place, hbranch, if_false]
    rw [hafter, hleave hlen]
    exact Leads.refl _
  | ret s =>
    rw [after, hleave hfits.2]
    exact Leads.refl _

/-! ### Calls -/

section Calls

variable {frame : Frame} {blocks : List Block} {under : List Raw} {pc func : Nat} {s : State}
  {t : FuncType} {m : Machine}

theorem callOf?_place (ht : env.mod.funcType? func = some t)
    (hs : t.params.length ≤ s.operands.length) :
    Machine.callOf? env func (Machine.place frame callers blocks under pc s).values =
      some ⟨func, (s.operands.take t.params.length).reverse⟩ := by
  have hle : t.params.length ≤ s.operands.length + under.length := by omega
  simp [Machine.callOf?, ht, Machine.place, hle, List.take_append_of_le_length hs]

theorem popMany_place (hs : t.params.length ≤ s.operands.length) :
    (Machine.popMany t.params.length (Machine.place frame callers blocks under pc s).values :
      Run (World H) _) =
      Pure.pure ((s.operands.take t.params.length).reverse,
        s.operands.drop t.params.length ++ under) := by
  have hlt : ¬(s.operands ++ under).length < t.params.length := by
    rw [List.length_append]
    omega
  rw [Machine.popMany, Machine.place, if_neg hlt, List.take_append_of_le_length hs,
    List.drop_append_of_le_length hs]

theorem split_operands (hs : t.params.length ≤ s.operands.length) :
    (split t.params.length s.operands : Run (Logged H) _) =
      Pure.pure (s.operands.take t.params.length, s.operands.drop t.params.length) := by
  rw [split, if_neg (by omega)]

variable (env callers frame blocks under) in
/-- A call is followed up to the next instruction. -/
abbrev CallFollows (n depth pc : Nat) (m : Machine) (l : Logged H)
    (r : Except Halt State × Logged H) : Prop :=
  Follows (n + 1) (fun i => runTo env depth i m l) (fun _ => 0)
    (fun s' l' i => runTo env depth i (.place frame callers blocks under (pc + 1) s') l')
      (Logged.exits (callers.length + 1 - depth)) r

section

variable (hsim : Simulates env bodies n) (hdepth : depth ≤ callers.length)
  (ht : env.mod.funcType? func = some t) (hs : t.params.length ≤ s.operands.length)
  (hm : m.callers = callers)
  (hstep : ∀ inv, m.step env inv l.world = (Machine.place frame callers blocks under pc s).callFunc
    env inv func l.world)
include hsim hdepth ht hs hm hstep

/-- A call of a host function, whose calls back into the instance are followed. -/
theorem hostCall_follows (hf : func < env.imported)
    (hcall : m.nextCall? env l.world = some ⟨func, (s.operands.take t.params.length).reverse⟩) :
    CallFollows env callers frame blocks under n depth pc m l
      (call env bodies (Structured.invoke env bodies n)
        (Structured.run env bodies n) func s l) := by
  let args := List.zipWith Value.ofRaw t.params (s.operands.take t.params.length).reverse
  have htracks : Tracks (fun j => env.callHost (env.callExport (invoke env j)) func args) n
      (env.callHost (env.callExport (Structured.invoke env bodies n)) func args) :=
    env.callHost_tracks (fun name args j => env.callExport_below
      (related_below env j).invoke name args)
      (env.callExport_tracks fun func t args ht hargs => hsim.invoke ht
        (FuncType.types_of_checkArguments hargs)) func args
  have hcallee (j : Nat) : m.step env (invoke env j) l.world =
      (env.callHost (env.callExport (invoke env j)) func args >>= fun rs =>
        Pure.pure (Progress.running ((Machine.place frame callers blocks under pc s).withValues
          ((rs.map Value.toRaw).reverse ++ (s.operands.drop t.params.length ++ under))).next))
          l.world := by
    rw [hstep]
    simp only [Machine.callFunc, hf, if_true, ht, need_some, Run.pure_bind, popMany_place hs]
    rfl
  let c : Call := ⟨func, (s.operands.take t.params.length).reverse⟩
  have href :
      call env bodies (Structured.invoke env bodies n) (Structured.run env bodies n) func s l =
      (Logged.onWorld (env.callHost (env.callExport (Structured.invoke env bodies n)) func
        args) >>= fun rs => Pure.pure { s with
          operands := (rs.map Value.toRaw).reverse ++ s.operands.drop t.params.length })
        ⟨l.world, c :: l.calls⟩ := by
    simp only [call, hf, if_true, ht, need_some, Run.pure_bind, split_operands hs]
    rfl
  rw [href]
  rcases settled_cases (env.callHost (env.callExport (Structured.invoke env bodies n)) func
      args l.world) with
    ⟨rs, w, hx⟩ | ⟨h, w, hx, hh⟩ | ⟨w, hx⟩
  · obtain ⟨j, hj⟩ := htracks.lower l.world (by simp [hx])
    have hlead := leads_step env depth ((hcallee j).trans (bind_ok (hj.trans hx)))
    rw [hcall, onward_running env (by exact hdepth)] at hlead
    rw [bind_ok (Logged.onWorld_eq _ hx)]
    refine (Leads.mono ?_ (rising_runTo env depth m l) (Nat.zero_le 1))
    simpa [Machine.place, Machine.withValues, Machine.next, Machine.goto] using hlead
  · obtain ⟨j, hj⟩ := htracks.lower l.world (by simp [hx, hh])
    have herror := runTo_error env depth ((hcallee j).trans (bind_error (hj.trans hx)))
    rw [bind_error (Logged.onWorld_eq _ hx)]
    rw [hcall, hm] at herror
    exact (follows_error hh).2 ⟨j + 1, herror⟩
  · obtain ⟨w', hy⟩ := htracks.exhausted hx
    rw [bind_error (Logged.onWorld_eq _ hx)]
    intro hn
    simp [runTo_error env depth ((hcallee n).trans (bind_error hy))] at hn

/-- A call of a function of the module: its body is followed, and its results
are left on the stack. -/
theorem wasmCall_follows (hlinked : env.Linked) (hb : env.mod.Bodies bodies)
    (hf : ¬func < env.imported)
    (hcall : m.nextCall? env l.world = some ⟨func, (s.operands.take t.params.length).reverse⟩) :
    CallFollows env callers frame blocks under n depth pc m l
      (call env bodies (Structured.invoke env bodies n)
        (Structured.run env bodies n) func s l) := by
  obtain ⟨f, hfunc, htype, hdef⟩ := Env.exists_defined hf ht
  let args := (s.operands.take t.params.length).reverse
  let rest := s.operands.drop t.params.length
  have hcallee (j : Nat) : m.step env (invoke env j) l.world =
      (World.enter >>= fun _ => Pure.pure (Progress.running
        ((Machine.place frame callers blocks under pc s).call f t args (rest ++ under))))
        l.world := by
    rw [hstep]
    simp only [Machine.callFunc, hf, if_false, hdef, need_some, Run.pure_bind, popMany_place hs]
    rfl
  have href :
    call env bodies (Structured.invoke env bodies n) (Structured.run env bodies n) func s l =
      (Structured.enter env bodies (Structured.run env bodies n) func f t args >>= fun rs =>
        Pure.pure { s with operands := rs ++ rest }) ⟨l.world, ⟨func, args⟩ :: l.calls⟩ := by
    simp only [call, hf, if_false, hdef, need_some, Run.pure_bind, split_operands hs]
    rfl
  rw [href, Structured.enter, Run.bind_assoc]
  rcases enter_cases l.world with ⟨g, henter⟩ | ⟨tr, henter⟩
  · have hlead := leads_step env depth ((hcallee 0).trans (bind_ok henter))
    rw [hcall, onward_running env (by exact Nat.le_succ_of_le hdepth)] at hlead
    have hmachine : (Machine.place frame callers blocks under pc s).call f t args (rest ++ under) =
        .place (Frame.enter f t args blocks.length (rest ++ under).length)
          ({ frame with pc := pc + 1, locals := s.locals } :: callers) blocks (rest ++ under) 0
          ⟨(args ++ List.replicate (t.params.length + f.locals.length - args.length) 0).toArray,
            []⟩ := rfl
    rw [hmachine] at hlead
    rw [bind_ok (Logged.onWorld_eq _ henter)]
    refine Follows.of_leads (rising_runTo env depth m l) hlead ?_
    refine Follows.bind (rising_runTo env depth _ _)
      (body_follows _ hlinked hb hsim hfunc htype rfl rfl rfl rfl ?_ (Nat.le_succ_of_le hdepth))
        fun rs l' _ => ?_
    · simp [args, hs]
    · rw [returned, onward_running env hdepth]
      simpa [Follows, Machine.place, rest] using Leads.refl _
  · have herror := runTo_error env depth ((hcallee 0).trans (bind_error henter))
    rw [hcall, hm] at herror
    rw [bind_error (Logged.onWorld_eq _ henter)]
    exact ⟨1, herror⟩

theorem callFunc_follows (hlinked : env.Linked) (hb : env.mod.Bodies bodies)
    (hcall : m.nextCall? env l.world =
      Machine.callOf? env func (Machine.place frame callers blocks under pc s).values) :
    CallFollows env callers frame blocks under n depth pc m l
      (call env bodies (Structured.invoke env bodies n)
        (Structured.run env bodies n) func s l) := by
  rw [callOf?_place ht hs] at hcall
  by_cases hf : func < env.imported
  · exact hostCall_follows hsim hdepth ht hs hm hstep hf hcall
  · exact wasmCall_follows hsim hdepth ht hs hm hstep hlinked hb hf hcall

end

variable {op : Plain}

/-- A step that fails without a call. -/
theorem step_error_follows {β : Type} {N : Nat} {d : β → Nat}
    {k : β → Logged H → Nat → Except Halt Progress × Logged H} {h : Halt} {w : World H}
    (hm : m.callers = callers) (hh : h ≠ .exhausted)
    (hstep : ∀ inv, m.step env inv l.world = (.error h, w))
    (hcall : m.nextCall? env l.world = none) :
    Follows N (fun i => runTo env depth i m l) d k (Logged.exits (callers.length + 1 - depth))
      (.error h, ⟨w, l.calls⟩) := by
  have herror := runTo_error env depth (hstep (invoke env 0))
  rw [hcall, hm] at herror
  exact (follows_error hh).2 ⟨1, herror⟩

theorem step_callIndirect {type table : Nat} {index : Raw} {locals : Array Raw} {vs : List Raw}
    (inv : Nat → List Value → Run (World H) (List Value))
    (hcode : frame.code[pc]? = some (.plain (.callIndirect type table)))
    (ht : env.mod.types[type]? = some t) :
    (Machine.place frame callers blocks under pc ⟨locals, index :: vs⟩).step env inv = (do
      let func ← World.tableFunc table index
      let actual ← Run.need (.funcNotFound func) (env.mod.funcType? func)
      if actual = t then
        (Machine.place frame callers blocks under pc ⟨locals, vs⟩).callFunc env inv func
      else Run.trap (.callTypeMismatch t actual)) := by
  rw [step_plain hcode]
  simp only [Machine.stepPlain, Machine.callTable, Machine.place, Machine.pop, List.cons_append,
    Run.pure_bind, ht, need_some]
  rfl

theorem callTable_follows (hlinked : env.Linked) (hb : env.mod.Bodies bodies)
    (hsim : Simulates env bodies n) {type table : Nat} {index : Raw}
    {locals : Array Raw} {vs : List Raw}
    (hcode : frame.code[pc]? = some (.plain (.callIndirect type table)))
    (ht : env.mod.types[type]? = some t) (hs : t.params.length ≤ vs.length)
    (hdepth : depth ≤ callers.length) :
    CallFollows env callers frame blocks under n depth pc
      (.place frame callers blocks under pc ⟨locals, index :: vs⟩) l
      (callTable env bodies (Structured.invoke env bodies n) (Structured.run env bodies n) type
        table ⟨locals, index :: vs⟩ l) := by
  simp only [CallFollows, callTable, Structured.pop, Run.pure_bind, ht, need_some]
  rcases htable : l.world.store.tableFunc table index.low.toNat with e | func
  · have hworld : World.tableFunc table index l.world = (.error (.error e), l.world) := by
      simp only [World.tableFunc, World.seeStore, htable]
    rw [bind_error (Logged.onWorld_eq l.calls hworld)]
    refine step_error_follows rfl (by simp) (fun inv => ?_)
      (by simp [Machine.nextCall?, Machine.place, hcode, htable])
    rw [step_callIndirect inv hcode ht, bind_error hworld]
  · have hworld : World.tableFunc table index l.world = (.ok func, l.world) := by
      simp only [World.tableFunc, World.seeStore, htable]
    rw [bind_ok (Logged.onWorld_eq l.calls hworld)]
    rcases hactual : env.mod.funcType? func with _ | actual
    · refine step_error_follows rfl (by simp) (fun inv => ?_)
        (by simp [Machine.nextCall?, Machine.place, hcode, htable, hactual])
      rw [step_callIndirect inv hcode ht, bind_ok hworld, hactual]
      rfl
    · rw [need_some, Run.pure_bind]
      split
      · next heq =>
        refine callFunc_follows hsim hdepth (heq ▸ hactual) hs rfl (fun inv => ?_) hlinked hb ?_
        · rw [step_callIndirect inv hcode ht, bind_ok hworld, hactual, need_some,
            Run.pure_bind, if_pos heq]
        · simp [Machine.nextCall?, Machine.place, hcode, htable, hactual, ht, heq]
      · next hne =>
        refine step_error_follows rfl (by simp) (fun inv => ?_)
          (by simp [Machine.nextCall?, Machine.place, hcode, htable, hactual, ht, hne])
        rw [step_callIndirect inv hcode ht, bind_ok hworld, hactual, need_some,
          Run.pure_bind, if_neg hne]
        rfl

/-! ### Plain instructions -/

theorem step_operate (inv : Nat → List Value → Run (World H) (List Value))
    (hcode : frame.code[pc]? = some (.plain op)) (hop : op.demand ≤ s.operands.length)
    (hplain : op.isCall = false ∧ ∀ d, op ≠ .br d ∧ op ≠ .brIf d ∧ op ≠ .ret) :
    (Machine.place frame callers blocks under pc s).step env inv = Structured.operate env
      op s >>= fun s' =>
      Pure.pure (Progress.running (.place frame callers blocks under (pc + 1) s')) := by
  have hoperate : (Machine.place frame callers blocks under pc s).stepPlain env inv op =
      (Machine.place frame callers blocks under pc s).operate env op >>= fun m =>
      Pure.pure (Progress.running m.next) := by
    cases op with
    | br d | brIf d | ret => simp at hplain
    | call | callIndirect => simp [Plain.isCall] at hplain
    | _ => rfl
  rw [step_plain hcode, hoperate, Machine.operate_place hop hplain, Run.bind_assoc]
  rfl

theorem operate_follows (hcode : frame.code[pc]? = some (.plain op))
    (hop : op.demand ≤ s.operands.length)
    (hplain : op.isCall = false ∧ ∀ d, op ≠ .br d ∧ op ≠ .brIf d ∧ op ≠ .ret)
    (hdepth : depth ≤ callers.length) :
    FollowsTo env (n + 1) depth frame callers blocks under (pc + 1)
      (.place frame callers blocks under pc s) l
      ((Logged.onWorld (Structured.operate env op s) >>= fun s' =>
        Pure.pure (Outcome.next s')) l) := by
  have hstep (inv : Nat → List Value → Run (World H) (List Value)) :
      (Machine.place frame callers blocks under pc s).step env inv = Structured.operate env
        op s >>= fun s' =>
        Pure.pure (Progress.running (.place frame callers blocks under (pc + 1) s')) :=
    step_operate inv hcode hop hplain
  have hcall : (Machine.place frame callers blocks under pc s).nextCall? env l.world = none := by
    cases op with
    | call | callIndirect => simp [Plain.isCall] at hplain
    | _ => simp [Machine.nextCall?, Machine.place, hcode]
  rcases settled_cases (Structured.operate env op s l.world) with ⟨s', w, hx⟩ | ⟨h,
    w, hx, hh⟩ | ⟨w, hx⟩
  · have hlead :=
      leads_step env depth ((congrFun (hstep (invoke env 0)) l.world).trans (bind_ok hx))
    rw [hcall, onward_running env hdepth] at hlead
    rw [bind_ok (Logged.onWorld_eq l.calls hx)]
    exact hlead.mono (rising_runTo env depth _ l) (Nat.zero_le 1)
  · rw [bind_error (Logged.onWorld_eq l.calls hx)]
    exact step_error_follows rfl hh (fun inv => by rw [hstep, bind_error hx]) hcall
  · rw [bind_error (Logged.onWorld_eq l.calls hx)]
    intro hn
    simp [runTo_error env depth ((congrFun (hstep (invoke env n)) l.world).trans (bind_error hx))]
      at hn

theorem step_brIf {d : Nat} {c : Raw} {locals : Array Raw} {vs : List Raw}
    (inv : Nat → List Value → Run (World H) (List Value))
    (hcode : frame.code[pc]? = some (.plain (.brIf d))) :
    (Machine.place frame callers blocks under pc ⟨locals, c :: vs⟩).step env inv =
      if c.isTrue then (Machine.place frame callers blocks under pc ⟨locals, vs⟩).branchTo d
      else
        Pure.pure (Progress.running (.place frame callers blocks under (pc + 1) ⟨locals, vs⟩)) := by
  rw [step_plain hcode]
  rfl

theorem plain_follows (hlinked : env.Linked) (hb : env.mod.Bodies bodies)
    (hsim : Simulates env bodies n) {sc : CodeScope} {labels : List (List ValType)}
    {ts : List ValType} {aft : Option (List ValType)} (hsc : Scoped env sc frame)
    (hop : op.Typed sc labels ts aft) (hs : s.Fits sc ts)
    (hcode : frame.code[pc]? = some (.plain op)) (hdepth : depth ≤ callers.length) :
    FollowsTo env (n + 1) depth frame callers blocks under (pc + 1)
      (.place frame callers blocks under pc s) l
      (plain env bodies (Structured.invoke env bodies n) (Structured.run env bodies n) op s l) := by
  have hdemand := hs.demand_le hop
  cases op with
  | br d =>
    exact leads_proceed (fun _ => step_plain hcode)
      (by simp [Machine.nextCall?, Machine.place, hcode]) (branchTo_ok _ _ _)
  | ret =>
    exact leads_proceed (fun _ => step_plain hcode)
      (by simp [Machine.nextCall?, Machine.place, hcode]) (leaveFrame_ok _ _)
  | brIf d =>
    obtain ⟨locals, vs⟩ := s
    obtain _ | ⟨c, vs⟩ := vs
    · simp [Plain.demand] at hdemand
    · have hcall : (Machine.place frame callers blocks under pc ⟨locals, c :: vs⟩).nextCall? env
        l.world = none := by
        simp [Machine.nextCall?, Machine.place, hcode]
      simp only [plain, Structured.pop, Run.pure_bind]
      cases hc : c.isTrue with
      | true =>
        exact leads_proceed (fun inv => by rw [step_brIf inv hcode, hc, if_pos rfl]; rfl) hcall
          (branchTo_ok _ _ _)
      | false =>
        exact (leads_move (fun inv => by rw [step_brIf inv hcode, hc]; rfl) hcall hdepth).mono
          (rising_runTo env depth _ l) (Nat.zero_le 1)
  | call func =>
    cases hop with
    | sig h =>
      simp only [Plain.signature?, hsc.mod, Option.map_eq_some_iff, Prod.mk.injEq] at h
      obtain ⟨t, ht, rfl, rfl⟩ := h
      refine Follows.bind (rising_runTo env depth _ l)
        (callFunc_follows hsim hdepth ht (by simp [hs.2]) rfl
        (fun inv => congrFun (step_plain hcode) _) hlinked hb ?_) fun s' l' _ => Leads.refl _
      simp [Machine.nextCall?, Machine.place, hcode]
  | callIndirect type table =>
    cases hop with
    | sig h =>
      simp only [Plain.signature?, hsc.mod, Option.ite_none_right_eq_some, Option.map_eq_some_iff,
        Prod.mk.injEq] at h
      obtain ⟨-, t, ht, rfl, rfl⟩ := h
      obtain ⟨locals, vs⟩ := s
      obtain _ | ⟨index, vs⟩ := vs
      · simpa using hs.2
      · have hlen : t.params.length ≤ vs.length := by
          have := hs.2
          simp at this
          omega
        exact Follows.bind (rising_runTo env depth _ l)
          (callTable_follows hlinked hb hsim hcode ht hlen hdepth)
          fun s' l' _ => Leads.refl _
  | _ => exact operate_follows hcode hdemand ⟨rfl, by simp⟩ hdepth

end Calls

end

end Interpreter

end WasmEngine
