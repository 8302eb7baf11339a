import WasmEngine.Proofs.Calls.Site
import WasmEngine.Proofs.Interpreter.Simulation

/-!
# The machine in typed code

A step of the machine keeps a condition on values
(`WasmEngine.Machine.step_typed`). What the types are does not only depend on
the position: the code at hand stands in constructs that go on behind their
ends, and the function has callers that go on behind their calls. The block
stack is explained by the constructs (`WasmEngine.Machine.Inside`): each open
block says where it ends, what operands lie below it, and where a branch to it
leads. The call stack is explained by the callers
(`WasmEngine.Machine.Waiting`): each waits for the results of the function above
it.

So a branch from within constructs is followed outwards, block by block, until
it finds its own (`WasmEngine.Machine.branch_meets`); the stack is cut down in
the same way that it was built up.
-/

namespace WasmEngine

open Run Structured

variable {H : Type}

/-- Typed code from a position of the body of a function to another. -/
structure Nested.Spans (sc : CodeScope) (root : Nested) (labels : List (List ValType))
    (below : List ValType) (code : Nested) (ts us : List ValType) (pos stop : Nat) : Prop where
  /-- The code is typed. -/
  typed : code.Typed sc labels ts us
  /-- It lies at the position. -/
  located : Nested.Located sc root below code ts pos
  /-- Where it ends. -/
  ends : pos + code.size = stop

/-- A frame runs a body, over blocks and operands of other frames. -/
structure Frame.Runs (sc : CodeScope) (root : Nested) (base : List Block) (floor : List Raw)
    (frame : Frame) : Prop where
  /-- The code is that of the body. -/
  code : frame.code = root.flatten.toArray
  /-- The results are those of the scope. -/
  results : sc.results.length = frame.results
  /-- The blocks of other frames. -/
  blocks : base.length = frame.blockBase
  /-- The operands of other frames. -/
  values : floor.length = frame.valueBase

namespace Machine

/-- At a position a construct ends, and what is behind it starts at another. -/
def Closes (root : Nested) (pos target : Nat) : Prop :=
  root.flatten.toArray[pos]? = some .endBlock ∧ pos + 1 = target ∨
    ∃ distance, root.flatten.toArray[pos]? = some (.orElse distance) ∧ pos + distance + 1 = target

/-- **The open blocks of a frame are the constructs around the code at hand.**
The code stands below `labels`, over operands `under` of which those that are
the frame's own have the types `below`, and ends at `stop` with operands
`us`. -/
inductive Inside (V : ValType → Raw → Prop) (sc : CodeScope) (root : Nested) (base : List Block)
    (floor : List Raw) :
    (labels : List (List ValType)) → List Block → (under : List Raw) → (below us : List ValType) →
    (stop : Nat) → Prop
  /-- Outside of all constructs. The body never reaches its end, since it
  returns. -/
  | function {us} : Inside V sc root base floor [sc.results] base floor [] us root.size
  /-- In a construct whose label is behind its end. -/
  | block {labels blocks under below us stop b ts vs next last} {rs : List ValType}
    (outer : Inside V sc root base floor labels blocks under below us stop)
      (hloop : b.isLoop = false)
    (hresults : b.results = rs.length) (hbase : b.base = (vs ++ under).length)
    (hvs : List.Forall₂ V ts vs) (hnext : Nested.Spans sc root labels below next (rs.reverse ++ ts)
      us (b.start + b.stop + 1) stop) (hclose : Closes root last (b.start + b.stop + 1)) :
    Inside V sc root base floor (rs :: labels) (b :: blocks) (vs ++ under)
      (ts ++ below) rs.reverse last
  /-- In a loop, whose label is at its start. -/
  | loop {labels blocks under below us stop b ts vs body next last} {ps rs : List ValType}
    (outer : Inside V sc root base floor labels blocks under below us stop)
      (hloop : b.isLoop = true) (hparams : b.params = ps.length) (hresults : b.results = rs.length)
    (hbase : b.base = (vs ++ under).length) (hvs : List.Forall₂ V ts vs)
    (hbody : Nested.Spans sc root (ps :: labels) (ts ++ below) body ps.reverse rs.reverse
      (b.start + 1) last)
    (hnext : Nested.Spans sc root labels below next (rs.reverse ++ ts) us
      (b.start + b.stop + 1) stop) (hclose : Closes root last (b.start + b.stop + 1)) :
    Inside V sc root base floor (ps :: labels) (b :: blocks) (vs ++ under)
      (ts ++ below) rs.reverse last

/-- The machine is at typed code, with operands of its types. -/
structure Standing (V : ValType → Raw → Prop) (sc : CodeScope) (root : Nested) (base : List Block)
    (floor : List Raw) (blocks : List Block) (under : List Raw) (pc : Nat) (s : State) : Prop where
  /-- The code, the constructs around it and the types of the operands. -/
  code : ∃ labels below us stop code ts, Inside V sc root base floor labels blocks
    under below us stop ∧
    Nested.Spans sc root labels below code ts us pc stop ∧ s.Carries V sc ts

/-- **The callers wait for results** of the types given, with blocks and
operands of their own. -/
inductive Waiting (V : ValType → Raw → Prop) (m : Module) (bodies : Nat → Nested) :
    List Nat → List Frame → (results : List ValType) → List Block → List Raw → Prop
  /-- There are none. -/
  | nil {results} : Waiting V m bodies [] [] results [] []
  /-- The innermost goes on with the results on top of its operands. -/
  | cons {func funcs sc root base floor frame callers labels blocks under below us stop
    code results ts vs}
    (howns : m.Owns bodies func sc root) (hframe : frame.Runs sc root base floor)
    (hin : Inside V sc root base floor labels blocks under below us stop)
    (hcode : Nested.Spans sc root labels below code (results.reverse ++ ts) us frame.pc stop)
    (hlocals : List.Forall₂ V sc.locals frame.locals.toList) (hvs : List.Forall₂ V ts vs)
    (hcallers : Waiting V m bodies funcs callers sc.results base floor) :
    Waiting V m bodies (func :: funcs) (frame :: callers) results blocks (vs ++ under)

/-- **The machine is in typed code**, in functions with these numbers, and all
values are as their types say. -/
inductive Typed (V : ValType → Raw → Prop) (m : Module) (bodies : Nat → Nested) :
    List Nat → Machine → Prop
  /-- The current frame is at typed code, and the others wait for it. -/
  | mk {func funcs sc root base floor frame callers blocks under pc s}
    (howns : m.Owns bodies func sc root)
    (hframe : frame.Runs sc root base floor) (hs : Standing V sc root base floor blocks under pc s)
    (hcallers : Waiting V m bodies funcs callers sc.results base floor) :
    Typed V m bodies (func :: funcs) (.place frame callers blocks under pc s)

section

variable {env : Env H} {V : ValType → Raw → Prop} {P : Store → Prop} {E : Error → Prop} {m : Module}
  {bodies : Nat → Nested} {func : Nat} {funcs : List Nat} {sc : CodeScope} {root code : Nested}
  {base blocks : List Block} {floor under : List Raw} {frame : Frame} {callers : List Frame}
  {labels : List (List ValType)} {below us ts : List ValType} {stop pc : Nat} {s : State}
  {x x' : Machine} {w w' : World H}

theorem Inside.enclosed (h : Inside V sc root base floor labels blocks under below us stop)
    (hframe : frame.Runs sc root base floor) : Enclosed frame labels blocks under := by
  induction h with
  | function => exact .function hframe.results hframe.blocks hframe.values
  | block _ hloop hresults hbase _ _ _ ih =>
    exact .construct ih (by simp [Block.arity, hloop, hresults]) hbase
  | loop _ hloop hparams _ hbase _ _ _ _ ih =>
    exact .construct ih (by simp [Block.arity, hloop, hparams]) hbase

/-- The operands under the code are those of the types below it, and those of
other frames. -/
theorem Inside.split (h : Inside V sc root base floor labels blocks under below us stop) :
    ∃ vs, under = vs ++ floor ∧ List.Forall₂ V below vs := by
  induction h with
  | function => exact ⟨[], rfl, .nil⟩
  | block _ _ _ _ hvs _ _ ih | loop _ _ _ _ _ hvs _ _ _ ih =>
    obtain ⟨vs', rfl, hvs'⟩ := ih
    exact ⟨_ ++ vs', (List.append_assoc _ _ _).symm, List.rel_append hvs hvs'⟩

/-! ### Branches and returns -/

/-- Where the machine is after a step that calls no function: in the same frame
or in its caller. -/
inductive Proceeds (V : ValType → Raw → Prop) (m : Module) (bodies : Nat → Nested)
    (funcs : List Nat) (callers : List Frame) : Progress → Prop
  /-- The entry frame has returned. -/
  | finished {vs} : Proceeds V m bodies funcs callers (.finished vs)
  /-- It stays in the frame. -/
  | stays {x : Machine} (hlen : x.callers.length = callers.length) (h : Typed V m bodies funcs x) :
    Proceeds V m bodies funcs callers (.running x)
  /-- It returns to the caller. -/
  | returns {x : Machine} (hlen : x.callers.length + 1 = callers.length)
    (h : Typed V m bodies funcs.tail x) : Proceeds V m bodies funcs callers (.running x)

/-- A step that calls no function keeps a condition on the store, and the
machine in typed code. -/
abbrev StepMeets (P : Store → Prop) (E : Error → Prop) (V : ValType → Raw → Prop) (m : Module)
    (bodies : Nat → Nested) (funcs : List Nat) (callers : List Frame)
    (x : Run (World H) Progress) : Prop :=
  Meets (fun w : World H => P w.store) E (Proceeds V m bodies funcs callers) x

section Frames

variable (howns : m.Owns bodies func sc root) (hframe : frame.Runs sc root base floor)
  (hcallers : Waiting V m bodies funcs callers sc.results base floor)
include hframe hcallers

/-- A frame returns with results of the right types. -/
theorem leave_meets (hs : s.Carries V sc (sc.results.reverse ++ ts)) :
    StepMeets (H := H) P E V m bodies (func :: funcs) callers
      (place frame callers base floor pc s).leaveFrame := by
  have hlen : frame.results ≤ s.operands.length := by simp [← hframe.results, ← hs.2.length_eq]
  have hresults := hs.split.1.2
  rw [hframe.results] at hresults
  intro w hw
  simp only [leaveFrame, Interpreter.unwound_place hframe.blocks hframe.values hlen]
  cases hcallers with
  | nil => exact ⟨hw, .finished⟩
  | @cons _ _ sc' root' base' floor' caller callers labels _ under below us stop code _ ts' vs howns
    hframe' hin hcode hlocals hvs hcallers =>
    refine ⟨hw, .returns rfl ?_⟩
    have hplace :
      (⟨s.operands.take frame.results ++ (vs ++ under), base, caller, callers⟩ : Machine) =
        place caller callers base under caller.pc
          ⟨caller.locals, s.operands.take frame.results ++ vs⟩ := by
      simp [place]
    rw [hplace]
    exact .mk howns hframe'
      ⟨⟨labels, below, us, stop, code, _, hin, hcode, hlocals, List.rel_append hresults hvs⟩⟩
      hcallers

/-- A return from within constructs. -/
theorem ret_meets (hin : Inside V sc root base floor labels blocks under below us stop)
    (hs : s.Carries V sc (sc.results.reverse ++ ts)) :
    StepMeets (H := H) P E V m bodies (func :: funcs) callers
      (place frame callers blocks under pc s).leaveFrame := by
  have hlen : frame.results ≤ s.operands.length := by simp [← hframe.results, ← hs.2.length_eq]
  induction hin with
  | function => exact leave_meets hframe hcallers hs
  | @block labels blocks under below us stop b ts' vs next last rs outer _ _ _ _ _ _ ih
  | @loop labels blocks under below us stop b ts' vs body next last ps rs outer _
    _ _ _ _ _ _ _ ih =>
    have houtside :
      ((place frame callers (b :: blocks) (vs ++ under) pc s).leaveFrame : Run (World H) Progress) =
        (place frame callers blocks under pc s).leaveFrame :=
        leaveFrame_outside (outer.enclosed hframe) hlen
    rw [houtside]
    exact ih

include howns

/-- **A branch leads to code that takes what it carries.** -/
theorem branch_meets (hin : Inside V sc root base floor labels blocks under below us stop)
    {depth : Nat} {ls : List ValType} (hls : labels[depth]? = some ls)
    (hs : s.Carries V sc (ls.reverse ++ ts)) :
    StepMeets (H := H) P E V m bodies (func :: funcs) callers
      ((place frame callers blocks under pc s).branchTo depth) := by
  have hlen : ls.length ≤ s.operands.length := by simp [← hs.2.length_eq]
  induction hin generalizing depth with
  | function =>
    have hdepth : ¬depth < base.length - frame.blockBase := by
      rw [hframe.blocks]
      omega
    obtain rfl : sc.results = ls := by
      rw [List.getElem?_singleton] at hls
      split at hls
      · exact Option.some.inj hls
      · cases hls
    have hleave : ((place frame callers base floor pc s).branchTo depth : Run (World H) Progress) =
        (place frame callers base floor pc s).leaveFrame := by
      simp only [branchTo, branch?, place, hdepth, if_false]
    rw [hleave]
    exact leave_meets hframe hcallers hs
  | @block labels blocks under below us stop b ts' vs next last rs outer hloop hresults hbase hvs
    hnext hclose ih =>
    cases depth with
    | zero =>
      obtain rfl : rs = ls := Option.some.inj hls
      have harity : b.arity = rs.length := by simp [Block.arity, hloop, hresults]
      rw [Interpreter.branchTo_place 0, Interpreter.branchTo_zero (outer.enclosed hframe) hbase
        (harity ▸ hlen), hloop, harity]
      refine Meets.pure
        (.stays rfl (.mk howns hframe ⟨⟨_, _, _, _, _, _, outer, hnext, hs.1, ?_⟩⟩ hcallers))
      exact List.rel_append hs.split.1.2 hvs
    | succ depth =>
      rw [branchTo_outside (outer.enclosed hframe) hls hlen]
      exact ih hls
  | @loop labels blocks under below us stop b ts' vs body next last ps rs outer hloop hparams
    hresults hbase hvs hbody hnext hclose ih =>
    cases depth with
    | zero =>
      obtain rfl : ps = ls := Option.some.inj hls
      have harity : b.arity = ps.length := by simp [Block.arity, hloop, hparams]
      rw [Interpreter.branchTo_place 0, Interpreter.branchTo_zero (outer.enclosed hframe) hbase
        (harity ▸ hlen), hloop, harity]
      refine Meets.pure
        (.stays rfl (.mk howns hframe ⟨⟨_, _, _, _, _, _, ?_, hbody, hs.split.1⟩⟩ hcallers))
      exact .loop outer hloop hparams hresults hbase hvs hbody hnext hclose
    | succ depth =>
      rw [branchTo_outside (outer.enclosed hframe) hls hlen]
      exact ih hls

end Frames

/-! ### Functions -/

/-- The start of the body of a function. -/
theorem standing_entry (hb : m.Bodies bodies) (howns : m.Owns bodies func sc root)
    {locals : Array Raw} (hlocals : List.Forall₂ V sc.locals locals.toList) :
    Standing V sc root base floor base floor 0 ⟨locals, []⟩ := by
  cases howns with
  | @mk f t hf ht =>
    obtain ⟨t', ht', htyped⟩ := hb.typed hf
    obtain rfl : t' = t := Option.some.inj (ht'.symm.trans ht)
    refine ⟨⟨_, _, _, _, _, _, .function, ⟨htyped.thenRet rfl, ?_, Nat.zero_add _⟩, hlocals, .nil⟩⟩
    exact Nested.located_root _ (hb.narrow hf).thenRet

theorem runs_enter (hb : m.Bodies bodies) {f : Func} {t : FuncType}
    (hf : m.funcs[func - m.importedCount]? = some f) (args : List Raw) :
    (Frame.enter f t args base.length floor.length).Runs ⟨m, t.params ++ f.locals, t.results⟩
      (bodies (func - m.importedCount)).thenRet base floor := by
  refine ⟨?_, rfl, rfl, rfl⟩
  rw [Nested.flatten_thenRet]
  exact hb.code hf

/-- **A function that is called from outside starts out typed.** -/
theorem start_typed (hp : env.policy.Upholds V) (hb : env.mod.Bodies bodies) {f : Func}
    {t : FuncType} {args : List Value} (hdef : env.defined? func = some (f, t))
    (hargs : args.map Value.type = t.params) :
    Typed V env.mod bodies [func] (Machine.start f t args) := by
  have hplace : Machine.start f t args =
      place (Frame.enter f t (args.map Value.toRaw) 0 0) [] [] [] 0
        ⟨(Frame.enter f t (args.map Value.toRaw) 0 0).locals, []⟩ := rfl
  obtain ⟨hf, ht, -⟩ := Env.of_defined hdef
  rw [hplace]
  refine .mk (.mk hf ht) (runs_enter hb hf _) (standing_entry hb (.mk hf ht) ?_) .nil
  exact hp.locals (hargs ▸ hp.values args)

/-! ### Calls -/

/-- Where the machine is after a call: behind it, if the function is the host's,
or in a frame for it. -/
inductive Called (V : ValType → Raw → Prop) (m : Module) (bodies : Nat → Nested) (callee : Nat)
    (funcs : List Nat) (callers : List Frame) : Progress → Prop
  /-- It stays in the frame. -/
  | stays {x : Machine} (hlen : x.callers.length = callers.length) (h : Typed V m bodies funcs x) :
    Called V m bodies callee funcs callers (.running x)
  /-- It is in a new frame. -/
  | enters {x : Machine} (hlen : x.callers.length = callers.length + 1)
    (h : Typed V m bodies (callee :: funcs) x) : Called V m bodies callee funcs callers (.running x)

theorem callFunc_meets (hc : Contract env V P E) (hb : env.mod.Bodies bodies)
    {inv : Nat → List Value → Run (World H) (List Value)}
    (hinv : ∀ {func t args}, env.mod.funcType? func = some t → args.map Value.type = t.params →
      Meets (fun w : World H => P w.store) E (fun rs => rs.map Value.type = t.results)
        (inv func args))
    (howns : env.mod.Owns bodies func sc root) (hframe : frame.Runs sc root base floor)
    (hcallers : Waiting V env.mod bodies funcs callers sc.results base floor)
    (hin : Inside V sc root base floor labels blocks under below us stop)
    {callee : Nat} {t : FuncType} (ht : env.mod.funcType? callee = some t)
    (hcode : Nested.Spans sc root labels below code (t.results.reverse ++ ts) us (pc + 1) stop)
    (hs : s.Carries V sc (t.params.reverse ++ ts)) :
    Meets (fun w : World H => P w.store) E (Called V env.mod bodies callee (func :: funcs) callers)
      ((place frame callers blocks under pc s).callFunc env inv callee) := by
  have hlen : t.params.length ≤ s.operands.length := by simp [← hs.2.length_eq]
  obtain ⟨hargs, hrest⟩ := hs.split
  by_cases hf : callee < env.imported
  · simp only [callFunc, hf, if_true, ht, need_some, Run.pure_bind, Interpreter.popMany_place hlen]
    refine (hc.host hf ht (hc.callExport_meets hinv) _).bind fun rs hrs =>
      Meets.pure (.stays rfl ?_)
    have hplace : ((place frame callers blocks under pc s).withValues
        ((rs.map Value.toRaw).reverse ++ (s.operands.drop t.params.length ++ under))).next =
        place frame callers blocks under (pc + 1) { s with
          operands := (rs.map Value.toRaw).reverse ++ s.operands.drop t.params.length } := by
      simp [place, withValues, next, goto]
    have hresults := List.rel_reverse (hc.values.values rs)
    rw [hrs] at hresults
    rw [hplace]
    exact .mk howns hframe ⟨⟨_, _, _, _, _, _, hin, hcode, hs.1, List.rel_append hresults hrest⟩⟩
      hcallers
  · obtain ⟨f, hfunc, htype, hdef⟩ := Env.exists_defined hf ht
    simp only [callFunc, hf, if_false, hdef, need_some, Run.pure_bind,
      Interpreter.popMany_place hlen]
    refine (World.enter_meets hc.trap).bind fun _ _ => Meets.pure (.enters rfl ?_)
    have hargs := List.rel_reverse hargs.2
    rw [List.reverse_reverse] at hargs
    -- the callee starts over what is left of the operands, and the caller waits behind the call
    exact .mk (.mk hfunc htype) (runs_enter hb hfunc (s.operands.take t.params.length).reverse)
      (standing_entry hb (.mk hfunc htype) (hc.values.locals hargs))
      (.cons howns ⟨hframe.code, hframe.results, hframe.blocks, hframe.values⟩ hin hcode
        hs.1 hrest hcallers)

/-! ### Steps -/

theorem Proceeds.typed (h : Proceeds V m bodies funcs x.callers (.running x')) :
    Typed V m bodies (x.functions env w x' funcs) x' := by
  rw [functions]
  cases h with
  | stays hlen h => rwa [if_neg (by omega), if_neg (by omega)]
  | returns hlen h => rwa [if_neg (by omega), if_pos (by omega)]

theorem Called.typed {callee : Nat} {rs : List Raw}
    (h : Called V m bodies callee funcs x.callers (.running x'))
    (hcall : x.nextCall? env w = some ⟨callee, rs⟩) :
    Typed V m bodies (x.functions env w x' funcs) x' := by
  rw [functions]
  cases h with
  | stays hlen h => rwa [if_neg (by omega), if_neg (by omega)]
  | enters hlen h =>
    rw [if_pos (by omega), hcall]
    exact h

section Constructs

variable {args : BlockArgs} {ps rs ts' : List ValType} {body alt next : Nested}
  (inv : Nat → List Value → Run (World H) (List Value)) (hmod : sc.mod = env.mod)
  (howns : m.Owns bodies func sc root) (hframe : frame.Runs sc root base floor)
  (hcallers : Waiting V m bodies funcs callers sc.results base floor)
  (hin : Inside V sc root base floor labels blocks under below us stop)
include howns hframe hcallers hin

/-- The end of a construct. -/
theorem close_meets {b : Block} {vs : List Raw} {last : Nat} (hresults : b.results = rs.length)
    (hbase : b.base = (vs ++ under).length) (hvs : List.Forall₂ V ts vs)
    (hnext : Nested.Spans sc root labels below next (rs.reverse ++ ts) us
      (b.start + b.stop + 1) stop)
    (hclose : Closes root last (b.start + b.stop + 1)) (hs : s.Carries V sc rs.reverse) :
    StepMeets P E V m bodies (func :: funcs) callers
      ((place frame callers (b :: blocks) (vs ++ under) last s).step env inv) := by
  have hlen : s.operands.length = b.results := by simp [← hs.2.length_eq, hresults]
  have hproceeds : Proceeds V m bodies (func :: funcs) callers
      (.running (place frame callers blocks under (b.start + b.stop + 1)
        { s with operands := s.operands ++ vs })) :=
    .stays rfl
      (.mk howns hframe ⟨⟨_, _, _, _, _, _, hin, hnext, hs.1, List.rel_append hs.2 hvs⟩⟩ hcallers)
  rw [Closes, ← hframe.code] at hclose
  rcases hclose with ⟨hcode, htarget⟩ | ⟨distance, hcode, htarget⟩
  · rw [Interpreter.step_endBlock inv hbase hlen hcode, htarget]
    exact Meets.pure hproceeds
  · rw [Interpreter.step_orElse inv hbase hlen hcode, htarget]
    exact Meets.pure hproceeds

omit howns hframe hcallers in
/-- The start of the body of a construct whose label is behind its end. -/
theorem standing_block {start distance params target last : Nat} {vs : List Raw}
    (htarget : start + distance + 1 = target) (hvs : List.Forall₂ V ts vs)
    (hnext : Nested.Spans sc root labels below next (rs.reverse ++ ts) us target stop)
    (hbody : Nested.Spans sc root (rs :: labels) (ts ++ below) body ps.reverse rs.reverse pc last)
    (hclose : Closes root last target) (hs : s.Carries V sc ps.reverse) :
    Standing V sc root base floor (Interpreter.openedBlock start distance params rs.length
      (vs ++ under) :: blocks) (vs ++ under) pc s := by
  subst htarget
  exact ⟨⟨_, _, _, _, _, _, .block hin rfl rfl rfl hvs hnext hclose, hbody, hs⟩⟩

/-- A plain instruction that does not go on. -/
theorem last_meets (hc : Contract env V P E) {op : Plain} (hop : op.Typed sc labels ts none)
    (hloc : Nested.Located sc root below (.plain op next) ts pc) (hs : s.Carries V sc ts) :
    StepMeets P E V m bodies (func :: funcs) callers
      ((place frame callers blocks under pc s).step env inv) := by
  have hcode : frame.code[pc]? = some (.plain op) := hframe.code ▸ (row_cons.1 hloc.row).1
  rw [Interpreter.step_plain hcode]
  cases hop with
  | br hls => exact branch_meets howns hframe hcallers hin hls hs
  | ret => exact ret_meets hframe hcallers hin hs
  | unreachable => exact Meets.fail (hc.trap _)

theorem brTable_meets {targets : List Nat} {default : Nat}
    (htargets : ∀ d ∈ default :: targets, ∃ ls rest, labels[d]? = some ls ∧ ts = ls.reverse ++ rest)
    (hloc : Nested.Located sc root below (.brTable targets default next) (.i32 :: ts) pc)
    (hs : s.Carries V sc (.i32 :: ts)) :
    StepMeets P E V m bodies (func :: funcs) callers
      ((place frame callers blocks under pc s).step env inv) := by
  obtain ⟨locals, vs⟩ := s
  obtain ⟨hlocals, _ | @⟨_, c, _, vs, -, hvs⟩⟩ := hs
  have hmem : targets[c.low.toNat]?.getD default ∈ default :: targets := by
    rcases h : targets[c.low.toNat]? with _ | d
    · exact List.mem_cons_self
    · exact List.mem_cons_of_mem _ (List.mem_of_getElem? h)
  obtain ⟨ls, rest, hls, rfl⟩ := htargets _ hmem
  rw [Interpreter.step_brTable inv (hframe.code ▸ hloc.row)]
  exact branch_meets howns hframe hcallers hin hls ⟨hlocals, hvs⟩

include hmod

theorem block_meets
    (hcode : Nested.Spans sc root labels below (.block args body next) ts us pc stop)
    (hs : s.Carries V sc ts) :
    StepMeets P E V m bodies (func :: funcs) callers
      ((place frame callers blocks under pc s).step env inv) := by
  obtain ⟨htyped, hloc, hends⟩ := hcode
  cases htyped with
  | @block _ _ _ _ ps rs ts _ htype hinner hrest =>
    have hparts := hloc.block htype
    have hcode : frame.code[pc]? = some (.block args (body.size + 1)) := by
      rw [hframe.code, ← Nested.length_flatten]
      exact (row_cons.1 hloc.row).1
    rw [Interpreter.step_block inv (hmod ▸ htype) hs.fits hcode]
    simp only [Nested.size] at hends
    refine Meets.pure
      (.stays rfl (.mk howns hframe (standing_block hin ?_ hs.split.2 ⟨hrest, hparts.behind, ?_⟩
      ⟨hinner, hparts.inner, rfl⟩ (.inl ⟨hparts.close, ?_⟩) hs.split.1) hcallers)) <;> omega

theorem loop_meets (hcode : Nested.Spans sc root labels below (.loop args body next) ts us pc stop)
    (hs : s.Carries V sc ts) :
    StepMeets P E V m bodies (func :: funcs) callers
      ((place frame callers blocks under pc s).step env inv) := by
  obtain ⟨htyped, hloc, hends⟩ := hcode
  cases htyped with
  | @loop _ _ _ _ ps rs ts _ htype hinner hrest =>
    have hparts := hloc.loop htype
    have hcode : frame.code[pc]? = some (.loop args (body.size + 1)) := by
      rw [hframe.code, ← Nested.length_flatten]
      exact (row_cons.1 hloc.row).1
    have htarget : pc + body.size + 2 = pc + (body.size + 1) + 1 := by omega
    have hbody : Nested.Spans sc root (ps :: labels) (ts ++ below) body ps.reverse rs.reverse
        (pc + 1) (pc + 1 + body.size) :=
      ⟨hinner, hparts.inner, rfl⟩
    simp only [Nested.size] at hends
    rw [Interpreter.step_loop inv (hmod ▸ htype) hs.fits hcode]
    have hnext : Nested.Spans sc root labels below next (rs.reverse ++ ts) us
        (pc + (body.size + 1) + 1) stop :=
      ⟨hrest, htarget ▸ hparts.behind, by omega⟩
    have hclose : Closes root (pc + 1 + body.size) (pc + (body.size + 1) + 1) :=
      .inl ⟨hparts.close, by omega⟩
    refine Meets.pure
      (.stays rfl (.mk howns hframe ⟨⟨_, _, _, _, _, _, ?_, hbody, hs.split.1⟩⟩ hcallers))
    exact .loop hin rfl rfl rfl rfl hs.split.2 hbody hnext hclose

theorem cond_meets (hcode : Nested.Spans sc root labels below (.cond args body next) ts us pc stop)
    (hs : s.Carries V sc ts) :
    StepMeets P E V m bodies (func :: funcs) callers
      ((place frame callers blocks under pc s).step env inv) := by
  obtain ⟨htyped, hloc, hends⟩ := hcode
  cases htyped with
  | @cond _ _ _ _ ps ts _ htype hinner hrest =>
    have hparts := hloc.cond htype
    have hcode : frame.code[pc]? = some (.cond args 0 (body.size + 1)) := by
      rw [hframe.code, ← Nested.length_flatten]
      exact (row_cons.1 hloc.row).1
    obtain ⟨locals, vs⟩ := s
    obtain ⟨hlocals, _ | @⟨_, c, _, vs, -, hvs⟩⟩ := hs
    have hs : State.Carries V sc (ps.reverse ++ ts) ⟨locals, vs⟩ := ⟨hlocals, hvs⟩
    simp only [Nested.size] at hends
    have hnext : Nested.Spans sc root labels below next (ps.reverse ++ ts) us
        (pc + body.size + 2) stop :=
      ⟨hrest, hparts.behind, by omega⟩
    rw [Interpreter.step_cond hcode (hmod ▸ htype) hs.fits inv, Interpreter.selected, if_pos rfl]
    refine Meets.pure (.stays ?_ ?_)
    · split <;> rfl
    · split
      · refine .mk howns hframe (standing_block hin ?_ hs.split.2 hnext ⟨hinner, hparts.inner, rfl⟩
          (.inl ⟨hparts.close, ?_⟩) hs.split.1) hcallers <;> omega
      · exact .mk howns hframe ⟨⟨_, _, _, _, _, _, hin, hnext, hs⟩⟩ hcallers

theorem condElse_meets
    (hcode : Nested.Spans sc root labels below (.condElse args body alt next) ts us pc stop)
    (hs : s.Carries V sc ts) :
    StepMeets P E V m bodies (func :: funcs) callers
      ((place frame callers blocks under pc s).step env inv) := by
  obtain ⟨htyped, hloc, hends⟩ := hcode
  cases htyped with
  | @condElse _ _ _ _ _ ps rs ts _ htype hyes hno hrest =>
    have harms := hloc.condElse htype
    have hcode : frame.code[pc]? =
        some (.cond args (body.size + 1) (body.size + alt.size + 2)) := by
      rw [hframe.code, ← Nested.length_flatten, ← Nested.length_flatten]
      exact (row_cons.1 hloc.row).1
    obtain ⟨locals, vs⟩ := s
    obtain ⟨hlocals, _ | @⟨_, c, _, vs, -, hvs⟩⟩ := hs
    have hs : State.Carries V sc (ps.reverse ++ ts) ⟨locals, vs⟩ := ⟨hlocals, hvs⟩
    simp only [Nested.size] at hends
    have hnear := harms.near
    -- the alternative is a block that starts at the mark between the two arms
    have hdistance : (body.size + alt.size + 2 + 0x100000000 - (body.size + 1)) % 0x100000000 =
      alt.size + 1 := by omega
    have hsecond : pc + (body.size + 1) + 1 = pc + body.size + 2 := by omega
    have hnext : Nested.Spans sc root labels below next (rs.reverse ++ ts) us
        (pc + body.size + alt.size + 3) stop :=
      ⟨hrest, harms.behind, by omega⟩
    rw [Interpreter.step_cond hcode (hmod ▸ htype) hs.fits inv, Interpreter.selected, hdistance,
      hsecond, if_neg (Nat.add_one_ne_zero body.size)]
    refine Meets.pure (.stays ?_ ?_)
    · split <;> rfl
    · split
      · refine .mk howns hframe (standing_block hin ?_ hs.split.2 hnext ⟨hyes, harms.yes, rfl⟩
          (.inr ⟨_, harms.mark, ?_⟩) hs.split.1) hcallers <;> omega
      · refine .mk howns hframe (standing_block hin ?_ hs.split.2 hnext ⟨hno, harms.no, rfl⟩
          (.inl ⟨harms.close, ?_⟩) hs.split.1) hcallers <;> omega

/-- A plain instruction other than a call that goes on. -/
theorem plain_meets (hc : Contract env V P E) {op : Plain} (hop : op.Typed sc labels ts (some ts'))
    (hcall : op.isCall = false) (hcode : frame.code[pc]? = some (.plain op))
    (hnext : Nested.Spans sc root labels below next ts' us (pc + 1) stop) (hs : s.Carries V sc ts) :
    StepMeets P E V m bodies (func :: funcs) callers
      ((place frame callers blocks under pc s).step env inv) := by
  by_cases hbranch : ∃ d, op = .brIf d
  · obtain ⟨d, rfl⟩ := hbranch
    cases hop with
    | sig h => cases h
    | brIf hls =>
      obtain ⟨locals, vs⟩ := s
      obtain ⟨hlocals, _ | @⟨_, c, _, vs, -, hvs⟩⟩ := hs
      rw [Interpreter.step_brIf inv hcode]
      split
      · exact branch_meets howns hframe hcallers hin hls ⟨hlocals, hvs⟩
      · exact Meets.pure
          (.stays rfl (.mk howns hframe ⟨⟨_, _, _, _, _, _, hin, hnext, hlocals, hvs⟩⟩ hcallers))
  · have hne (d : Nat) : op ≠ .brIf d := fun h => hbranch ⟨d, h⟩
    have hplain : ∀ d, op ≠ .br d ∧ op ≠ .brIf d ∧ op ≠ .ret := by
      refine fun d => ⟨?_, hne d, ?_⟩
      · rintro rfl
        cases hop with
        | sig h => cases h
      · rintro rfl
        cases hop with
        | sig h => cases h
    rw [Interpreter.step_operate inv hcode (hs.fits.demand_le hop) ⟨hcall, hplain⟩]
    refine (operate_carries hc hmod hop hcall hne hs).bind fun s' hs' => Meets.pure (.stays rfl ?_)
    exact .mk howns hframe ⟨⟨_, _, _, _, _, _, hin, hnext, hs'⟩⟩ hcallers

end Constructs

/-- A call that goes through is that of a function whose parameters are on top
of the operands. -/
theorem exists_call (inv : Nat → List Value → Run (World H) (List Value))
    (hmod : sc.mod = env.mod) {op : Plain} {ts' : List ValType} {p : Progress}
    (hop : op.Typed sc labels ts (some ts')) (hcall : op.isCall = true)
    (hcode : frame.code[pc]? = some (.plain op)) (hs : s.Carries V sc ts)
    (h : (place frame callers blocks under pc s).step env inv w = (.ok p, w')) :
    ∃ callee t us s', env.mod.funcType? callee = some t ∧ ts' = t.results.reverse ++ us ∧
    s'.Carries V sc (t.params.reverse ++ us) ∧
      (place frame callers blocks under pc s').callFunc env inv callee w = (.ok p, w') ∧
      (place frame callers blocks under pc s).nextCall? env w =
      some ⟨callee, (s'.operands.take t.params.length).reverse⟩ := by
  have hof {callee : Nat} {t : FuncType} {us : List ValType} {s : State}
    (ht : env.mod.funcType? callee = some t)
      (hs : s.Carries V sc (t.params.reverse ++ us)) :
      callOf? env callee (place frame callers blocks under pc s).values =
        some ⟨callee, (s.operands.take t.params.length).reverse⟩ :=
    Interpreter.callOf?_place ht (by simp [← hs.2.length_eq])
  cases op with
  | call callee =>
    cases hop with
    | sig hsig =>
      simp only [Plain.signature?, hmod, Option.map_eq_some_iff, Prod.mk.injEq] at hsig
      obtain ⟨t, ht, rfl, rfl⟩ := hsig
      rw [Interpreter.step_plain hcode] at h
      exact ⟨callee, t, _, s, ht, rfl, hs, h, by simpa [nextCall?, place, hcode] using hof ht hs⟩
  | callIndirect type table =>
    cases hop with
    | sig hsig =>
      simp only [Plain.signature?, hmod, Option.ite_none_right_eq_some, Option.map_eq_some_iff,
        Prod.mk.injEq] at hsig
      obtain ⟨-, t, ht, rfl, rfl⟩ := hsig
      simp only [List.reverse_append, List.reverse_singleton, List.cons_append] at hs
      obtain ⟨locals, vs⟩ := s
      obtain ⟨hlocals, _ | @⟨_, index, _, vs, -, hvs⟩⟩ := hs
      have hs : State.Carries V sc _ ⟨locals, vs⟩ := ⟨hlocals, hvs⟩
      rw [Interpreter.step_callIndirect inv hcode ht] at h
      obtain ⟨callee, _, hsee, hthen⟩ := Run.bind_eq_ok.1 h
      obtain ⟨rfl, htable⟩ := World.seeStore_eq_ok.1 hsee
      rcases hactual : env.mod.funcType? callee with _ | actual
      · rw [hactual] at hthen
        cases hthen
      rw [hactual, need_some, Run.pure_bind] at hthen
      split at hthen
      · next heq =>
        obtain rfl := heq
        exact ⟨callee, actual, _, ⟨locals, vs⟩, hactual, rfl, hs, hthen, by
          simpa [nextCall?, place, hcode, htable, hactual, ht] using hof hactual hs⟩
      · cases hthen
  | _ => cases hcall

/-- **A step of the machine keeps it in typed code.** -/
theorem step_typed (hc : Contract env V P E) (hb : env.mod.Bodies bodies)
    {inv : Nat → List Value → Run (World H) (List Value)}
    (hinv : ∀ {func t args}, env.mod.funcType? func = some t → args.map Value.type = t.params →
      Meets (fun w : World H => P w.store) E (fun rs => rs.map Value.type = t.results)
        (inv func args))
    (hx : Typed V env.mod bodies funcs x) (hw : P w.store)
    (h : x.step env inv w = (.ok (.running x'), w')) :
    P w'.store ∧ Typed V env.mod bodies (x.functions env w x' funcs) x' := by
  obtain @⟨func, funcs, sc, root, base, floor, frame, callers, blocks, under, pc, s, howns, hframe,
    hs, hcallers⟩ := hx
  obtain ⟨labels, below, us, stop, code, ts, hin, hspans, hs⟩ := hs
  have hmod : sc.mod = env.mod := howns.mod_eq
  obtain ⟨htyped, hloc, hends⟩ := id hspans
  have proceeds (hmeets : StepMeets P E V env.mod bodies (func :: funcs) callers
    ((place frame callers blocks under pc s).step env inv)) :
      P w'.store ∧
      Typed V env.mod bodies ((place frame callers blocks under pc s).functions env w x'
        (func :: funcs)) x' :=
    ⟨hmeets.keeps_of_ok hw h, (hmeets.of_ok hw h).typed⟩
  cases htyped with
  | done =>
    obtain rfl : pc = stop := hends
    cases hin with
    | function =>
      -- there is no code at the end of the body
      have hcode : frame.code[root.size]? = none := by simp [hframe.code, Nested.length_flatten]
      simp only [step, place, hcode, need_none, fault_bind] at h
      cases h
    | block outer _ hresults hbase hvs hnext hclose
    | loop outer _ _ hresults hbase hvs _ hnext hclose =>
      exact proceeds (close_meets inv howns hframe hcallers outer hresults hbase
        hvs hnext hclose hs)
  | @plain _ op next _ _ _ hop hrest =>
    have hcode : frame.code[pc]? = some (.plain op) := hframe.code ▸ (row_cons.1 hloc.row).1
    have hbehind := hloc.plain hop
    have hends : pc + 1 + next.size = stop := by
      rw [← hends, Nested.size]
      omega
    cases hcall : op.isCall with
    | true =>
      obtain ⟨callee, t, us', s', ht, rfl, hs', hstep, hnext⟩ :=
        exists_call inv hmod hop hcall hcode hs h
      have hmeets := callFunc_meets hc hb hinv howns hframe hcallers hin ht
        ⟨hrest, hbehind, hends⟩ hs'
      exact ⟨hmeets.keeps_of_ok hw hstep, (hmeets.of_ok hw hstep).typed hnext⟩
    | false =>
      exact proceeds (plain_meets inv hmod howns hframe hcallers hin hc hop hcall hcode
        ⟨hrest, hbehind, hends⟩ hs)
  | last hop => exact proceeds (last_meets inv howns hframe hcallers hin hc hop hloc hs)
  | brTable htargets =>
    exact proceeds (brTable_meets inv howns hframe hcallers hin htargets hloc hs)
  | block => exact proceeds (block_meets inv hmod howns hframe hcallers hin hspans hs)
  | loop => exact proceeds (loop_meets inv hmod howns hframe hcallers hin hspans hs)
  | cond => exact proceeds (cond_meets inv hmod howns hframe hcallers hin hspans hs)
  | condElse => exact proceeds (condElse_meets inv hmod howns hframe hcallers hin hspans hs)

/-! ### What the words are like -/

/-- The words of a frame over its own operands. -/
theorem Inside.active (howns : m.Owns bodies func sc root) (hframe : frame.Runs sc root base floor)
    (hin : Inside V sc root base floor labels blocks under below us stop) {rs ts : List ValType}
    {vs : List Raw} {locals : List Raw} (hloc : Nested.Located sc root below code (rs ++ ts) pc)
    (hlocals : List.Forall₂ V sc.locals locals) (hvs : List.Forall₂ V ts vs) :
    Active.Carries V m bodies
        ⟨func, pc, rs.length, locals, (vs ++ under).take ((vs ++ under).length - frame.valueBase)⟩ ∧
      (vs ++ under).drop ((vs ++ under).length - frame.valueBase) = floor := by
  obtain ⟨vs', rfl, hvs'⟩ := hin.split
  have hlen : (vs ++ (vs' ++ floor)).length - frame.valueBase = (vs ++ vs').length := by
    simp only [← hframe.values, List.length_append]
    omega
  rw [hlen, ← List.append_assoc, List.take_left, List.drop_left]
  refine ⟨⟨sc, root, rs ++ ts ++ below, howns, hloc.operandsAt?, hlocals, ?_⟩, rfl⟩
  rw [List.append_assoc, List.drop_left]
  exact List.rel_append hvs hvs'

theorem Waiting.carries {results : List ValType} {values : List Raw}
    (h : Waiting V m bodies funcs callers results blocks values) : funcs.length = callers.length ∧
      ∀ active ∈ Frame.actives results.length funcs callers values, active.Carries V m bodies := by
  induction h with
  | nil => simp [Frame.actives]
  | cons howns hframe hin hcode hlocals hvs _ ih =>
    obtain ⟨hactive, hfloor⟩ := hin.active howns hframe hcode.located hlocals hvs
    simp only [List.length_reverse] at hactive
    refine ⟨congrArg (· + 1) ih.1, ?_⟩
    simp only [Frame.actives, List.forall_mem_cons, hfloor, ← hframe.results]
    exact ⟨hactive, ih.2⟩

/-- **The words of a machine in typed code are as their types say.** -/
theorem Typed.carries (h : Typed V m bodies funcs x) : funcs.length = x.callers.length + 1 ∧
    ∀ active ∈ Frame.actives 0 funcs (x.frame :: x.callers) x.values,
    active.Carries V m bodies := by
  cases h with
  | mk howns hframe hs hcallers =>
    obtain ⟨labels, below, us, stop, code, ts, hin, hcode, hs⟩ := hs
    obtain ⟨hlen, hwaiting⟩ := hcallers.carries
    have hloc : Nested.Located _ _ below code ([] ++ ts) _ := hcode.located
    obtain ⟨hactive, hfloor⟩ := hin.active howns hframe hloc hs.1 hs.2
    refine ⟨congrArg (· + 1) hlen, ?_⟩
    simp only [Frame.actives, List.forall_mem_cons, place, hfloor, ← hframe.results]
    exact ⟨hactive, hwaiting⟩

end

end Machine

end WasmEngine
