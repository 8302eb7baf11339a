import WasmEngine.Proofs.Interpreter.Instructions

/-!
# The interpreter follows the reference semantics

Nested code is laid out flat with distances, and the machine finds its way by
them: a block that is opened remembers where it ends, an alternative is skipped,
and the end of a construct drops its block. Here each construct is followed from
its start to behind its end, and with it all code
(`WasmEngine.Interpreter.exec_follows`).

The induction is on the bound of the reference semantics and then on the typing
of the code. A loop that starts over is not entered again: the machine is in its
body with the block still open, while the reference semantics is at the loop.
The step that the branch took makes up for the bound that the restart takes.
-/

namespace WasmEngine

open Run Structured

variable {H : Type}

namespace Interpreter

section

variable {env : Env H} {bodies : Nat → Nested} {n N depth : Nat} {callers : List Frame}
  {l : Logged H} {sc : CodeScope} {frame : Frame} {labels : List (List ValType)}
  {blocks : List Block} {under : List Raw} {pc stop : Nat} {s : State} {args : BlockArgs}
  {ps rs ts : List ValType}

/-! ### Sequences -/

/-- A sequence is followed if its first part is, and what comes after it
from where it ends. -/
theorem seq_follows {m : Machine} {x : Run (Logged H) Outcome}
    {k : State → Run (Logged H) Outcome} (mid : Nat)
    (hx : FollowsTo env N depth frame callers blocks under mid m l (x l))
    (hk : ∀ s' l', x l = (.ok (.next s'), l') →
      FollowsTo env N depth frame callers blocks under stop
        (.place frame callers blocks under mid s') l' (k s' l')) :
    FollowsTo env N depth frame callers blocks under stop m l ((x >>= fun o => o.andThen k) l) := by
  refine Follows.bind (rising_runTo env depth m l) hx fun o l' ho => ?_
  cases o with
  | next s' => exact hk s' l' ho
  | branch d s' => exact Leads.refl _
  | ret s' => exact Leads.refl _

/-! ### Opening and closing a construct -/

/-- The block that a construct opens over the operands below its parameters. -/
def openedBlock (start distance params results : Nat) (under : List Raw) : Block :=
  ⟨start, distance, under.length, params, results, false⟩

/-- **The machine inside of a construct** that has opened a block: the operands
that it takes are its own, the others are under it. -/
def inside (frame : Frame) (callers : List Frame) (blocks : List Block) (under : List Raw)
    (b : List Raw → Block) (params pc : Nat) (s : State) : Machine :=
  .place frame callers (b (s.operands.drop params ++ under) :: blocks)
    (s.operands.drop params ++ under) pc { s with operands := s.operands.take params }

/-- Where a conditional goes: into its first arm, behind its end, or into its
alternative. -/
def selected (frame : Frame) (callers : List Frame) (blocks : List Block) (under : List Raw)
    (pc alt distance params results : Nat) (c : Raw) (s : State) : Machine :=
  if c.isTrue then
    inside frame callers blocks under (openedBlock pc distance params results) params (pc + 1) s
  else if alt = 0 then .place frame callers blocks under (pc + distance + 1) s
  else
    inside frame callers blocks under
      (openedBlock (pc + alt) ((distance + 0x100000000 - alt) % 0x100000000) params results) params
    (pc + alt + 1) s

theorem fetch_place {i : Instr} (hcode : frame.code[pc]? = some i) :
    (Machine.place frame callers blocks under pc
      s).frame.code[(Machine.place frame callers blocks under pc s).frame.pc]? = some i := hcode

section

variable (inv : Nat → List Value → Run (World H) (List Value)) {distance : Nat}
  (h : args.type? env.mod = some (ps, rs)) (hs : s.Fits sc (ps.reverse ++ ts))
include h hs

theorem enterBlock_place (start stop : Nat) (isLoop : Bool) :
    (Machine.enterBlock env (.place frame callers blocks under pc s) args start stop isLoop :
      Run (World H) Machine) = Pure.pure (inside frame callers blocks under
        (fun under => ⟨start, stop, under.length, ps.length, rs.length, isLoop⟩)
          ps.length pc s) := by
  have harity : (Machine.arity env args : Run (World H) (Nat × Nat)) =
    Pure.pure (ps.length, rs.length) := arity_eq h
  have hlen : s.operands.length = ps.length + ts.length := by simp [hs.2]
  have hlt : ¬(s.operands ++ under).length < ps.length := by
    rw [List.length_append]
    omega
  have hbase : (s.operands ++ under).length - ps.length =
      (s.operands.drop ps.length ++ under).length := by
    simp only [List.length_append, List.length_drop]
    omega
  simp only [Machine.enterBlock, harity, Run.pure_bind, Machine.openBlock?, inside, Machine.place,
    hlt, if_false, need_some, hbase]
  rw [← List.append_assoc, List.take_append_drop]

theorem step_block (hcode : frame.code[pc]? = some (.block args distance)) :
    (Machine.place frame callers blocks under pc s).step env inv =
      Pure.pure (.running
        (inside frame callers blocks under (openedBlock pc distance ps.length rs.length) ps.length
          (pc + 1) s)) := by
  rw [Machine.step, fetch_place hcode, need_some, Run.pure_bind]
  simp only [enterBlock_place h hs, Run.pure_bind]
  rfl

theorem step_loop (hcode : frame.code[pc]? = some (.loop args distance)) :
    (Machine.place frame callers blocks under pc s).step env inv =
      Pure.pure (.running
        (inside frame callers blocks under (loopBlock pc distance ps.length rs.length) ps.length
          (pc + 1) s)) := by
  rw [Machine.step, fetch_place hcode, need_some, Run.pure_bind]
  simp only [enterBlock_place h hs, Run.pure_bind]
  rfl

end

section

variable {alt distance : Nat} {locals : Array Raw} {c : Raw} {vs : List Raw}
  (hcode : frame.code[pc]? = some (.cond args alt distance))
  (h : args.type? env.mod = some (ps, rs)) (hs : State.Fits sc (ps.reverse ++ ts) ⟨locals, vs⟩)
include hcode h hs

theorem step_cond (inv : Nat → List Value → Run (World H) (List Value)) :
    (Machine.place frame callers blocks under pc ⟨locals, c :: vs⟩).step env inv =
      Pure.pure (.running (selected frame callers blocks under pc alt distance ps.length rs.length c
        ⟨locals, vs⟩)) := by
  have hpop : (Machine.pop (Machine.place frame callers blocks under pc ⟨locals, c :: vs⟩).values :
    Run (World H) _) =
      Pure.pure (c, vs ++ under) := rfl
  have hhere :
    (Machine.place frame callers blocks under pc ⟨locals, c :: vs⟩).withValues (vs ++ under) =
      .place frame callers blocks under pc ⟨locals, vs⟩ := rfl
  have hthere : (Machine.place frame callers blocks under pc ⟨locals, vs⟩).goto (pc + alt) =
      .place frame callers blocks under (pc + alt) ⟨locals, vs⟩ := rfl
  rw [Machine.step, fetch_place hcode, need_some, Run.pure_bind, selected]
  simp only [Machine.enterCond, hpop, Run.pure_bind, hhere]
  cases c.isTrue with
  | true =>
    simp only [if_true, enterBlock_place h hs, Run.pure_bind]
    rfl
  | false =>
    by_cases halt : alt = 0
    · simp only [halt, Bool.false_eq_true, if_false, if_true, Run.pure_bind]
      rfl
    · have hpc' : (Machine.place frame callers blocks under pc ⟨locals, c :: vs⟩).frame.pc = pc :=
        rfl
      simp only [halt, Bool.false_eq_true, if_false, hpc', hthere,
        enterBlock_place h hs, Run.pure_bind]
      rfl

theorem cond_leads (hdepth : depth ≤ callers.length) :
    Leads 1 (fun i => runTo env depth i (.place frame callers blocks under pc ⟨locals, c :: vs⟩) l)
      (fun i => runTo env depth i (selected frame callers blocks under pc alt distance ps.length
        rs.length c ⟨locals, vs⟩) l) := by
  refine leads_move (step_cond hcode h hs) (by simp [Machine.nextCall?, Machine.place, hcode]) ?_
  rw [selected]
  split
  · exact hdepth
  · split <;> exact hdepth

end

section

variable {b : Block} {below : List Raw} (inv : Nat → List Value → Run (World H) (List Value))
  (hbase : b.base = (below ++ under).length) (hresults : s.operands.length = b.results)
include hbase hresults

/-- The operands at the end of a construct stay when its block is closed. -/
theorem closeBlock_place :
    (Machine.place frame callers (b :: blocks) (below ++ under) pc s).closeBlock? =
      some (.place frame callers blocks under pc { s with operands := s.operands ++ below }) := by
  have hkeep : keepAbove b.base b.results (s.operands ++ (below ++ under)) =
      s.operands ++ (below ++ under) := by
    rw [hbase, ← hresults]
    exact (keepAbove_under (Nat.le_refl _)).trans (by rw [List.take_length])
  simp only [Machine.closeBlock?, Machine.place, hkeep, List.append_assoc]

theorem step_endBlock (hcode : frame.code[pc]? = some .endBlock) :
    (Machine.place frame callers (b :: blocks) (below ++ under) pc s).step env inv =
    Pure.pure (.running
      (.place frame callers blocks under (pc + 1) { s with operands := s.operands ++ below })) := by
  rw [Machine.step, fetch_place hcode, need_some, Run.pure_bind]
  simp only [closeBlock_place hbase hresults, need_some, Run.pure_bind]
  rfl

theorem step_orElse {distance : Nat} (hcode : frame.code[pc]? = some (.orElse distance)) :
    (Machine.place frame callers (b :: blocks) (below ++ under) pc s).step env inv =
    Pure.pure (.running
      (.place frame callers blocks under (pc + distance + 1)
        { s with operands := s.operands ++ below })) := by
  rw [Machine.step, fetch_place hcode, need_some, Run.pure_bind]
  simp only [closeBlock_place hbase hresults, need_some, Run.pure_bind]
  rfl

end

variable {b : Block} {below : List Raw}

/-- The end of the body of a construct, from where the machine goes on behind
the construct. -/
abbrev EndLeads (env : Env H) (depth : Nat) (frame : Frame) (callers : List Frame)
    (blocks : List Block) (under : List Raw) (b : Block) (below : List Raw)
    (results last stop : Nat) : Prop :=
  ∀ s l, s.operands.length = results →
    Leads 1
      (fun i => runTo env depth i (.place frame callers (b :: blocks) (below ++ under) last s) l)
      (fun i => runTo env depth i
        (.place frame callers blocks under stop { s with operands := s.operands ++ below }) l)

theorem endBlock_leads (hcode : frame.code[pc]? = some .endBlock)
    (hbase : b.base = (below ++ under).length) (hdepth : depth ≤ callers.length) :
    EndLeads env depth frame callers blocks under b below b.results pc (pc + 1) :=
  fun _ _ hresults =>
  leads_move (fun inv => step_endBlock inv hbase hresults hcode)
    (by simp [Machine.nextCall?, Machine.place, hcode]) hdepth

theorem orElse_leads {distance : Nat} (hcode : frame.code[pc]? = some (.orElse distance))
    (hbase : b.base = (below ++ under).length) (hdepth : depth ≤ callers.length) :
    EndLeads env depth frame callers blocks under b below b.results pc (pc + distance + 1) :=
  fun _ _ hresults =>
  leads_move (fun inv => step_orElse inv hbase hresults hcode)
    (by simp [Machine.nextCall?, Machine.place, hcode]) hdepth

/-- From the body of a construct to behind its end: how its body ends, so the
construct ends. A branch to the construct itself is left to be told. -/
theorem leave_leads {o : Outcome} {last : Nat} {ls : List ValType}
    (hsc : Scoped env sc frame) (henc : Machine.Enclosed frame labels blocks under)
    (ho : o.Fits sc (ls :: labels) rs.reverse)
    (hend : EndLeads env depth frame callers blocks under b below rs.length last stop)
    (hzero : ∀ s', o = .branch 0 s' →
      Leads 0 (after env depth frame callers (b :: blocks) (below ++ under) last (.branch 0 s') l)
        (after env depth frame callers blocks under stop
          ((Outcome.branch 0 s').leave rs.length below) l)) :
    Leads (delay (o.leave rs.length below) - delay o)
      (after env depth frame callers (b :: blocks) (below ++ under) last o l)
      (after env depth frame callers blocks under stop (o.leave rs.length below) l) := by
  match o, ho with
  | .next s', ho =>
    exact (hend s' l (by simpa using ho.2)).mono (rising_runTo env depth _ l) (Nat.zero_le 1)
  | .branch 0 s', _ => exact hzero s' rfl
  | .branch (d + 1) s', ⟨_, ls, hls, hlen⟩ =>
    have houtside :
      ((Machine.place frame callers (b :: blocks) (below ++ under) 0 s').branchTo (d + 1) :
        Run (World H) Progress) = (Machine.place frame callers blocks under 0 s').branchTo d :=
      Machine.branchTo_outside henc (by simpa using hls) hlen
    rw [after, houtside]
    exact Leads.refl _
  | .ret s', ho =>
    have houtside : ((Machine.place frame callers (b :: blocks) (below ++ under) 0 s').leaveFrame :
        Run (World H) Progress) = (Machine.place frame callers blocks under 0 s').leaveFrame :=
      Machine.leaveFrame_outside henc (hsc.results ▸ ho.2)
    rw [after, houtside]
    exact Leads.refl _

/-- What a branch to the innermost block does: it keeps what the block carries. -/
theorem branchTo_zero (henc : Machine.Enclosed frame labels blocks under)
    (hbase : b.base = (below ++ under).length) (hs : b.arity ≤ s.operands.length) :
    ((Machine.place frame callers (b :: blocks) (below ++ under) 0 s).branchTo 0 :
      Run (World H) Progress) = Pure.pure (.running (if b.isLoop then
        .place frame callers (b :: blocks) (below ++ under) (b.start + 1)
          { s with operands := s.operands.take b.arity }
      else
        .place frame callers blocks under (b.start + b.stop + 1)
          { s with operands := s.operands.take b.arity ++ below })) := by
  have hle := henc.blockBase_le
  have hlt : 0 < blocks.length + 1 - frame.blockBase := by omega
  have hkeep : keepAbove b.base b.arity (s.operands ++ (below ++ under)) =
      s.operands.take b.arity ++ (below ++ under) := by
    rw [hbase]
    exact keepAbove_under hs
  cases hloop : b.isLoop with
  | true =>
    simp only [Block.arity, hloop, if_true] at hkeep ⊢
    simp only [Machine.branchTo, Machine.branch?, Machine.place, List.length_cons, hlt, if_true,
      hloop, List.getElem?_cons_zero, hkeep, Machine.goto]
    rfl
  | false =>
    simp only [Block.arity, hloop, Bool.false_eq_true, if_false] at hkeep ⊢
    simp only [Machine.branchTo, Machine.branch?, Machine.place, List.length_cons, hlt, if_true,
      hloop, List.getElem?_cons_zero, Bool.false_eq_true, if_false, hkeep, Machine.goto,
      List.append_assoc]
    rfl

theorem proceed_move {m : Machine} (hm : depth ≤ m.callers.length) :
    proceed env depth (Pure.pure (.running m)) l = fun i => runTo env depth i m l :=
  onward_running env hm

/-- A construct with a block and what comes after it are followed, if its body
is, up to where it ends. -/
theorem construct_follows {start distance first last mid : Nat}
    {body k : State → Run (Logged H) Outcome} (hsc : Scoped env sc frame)
    (henc : Machine.Enclosed frame labels blocks under) (h : args.type? sc.mod = some (ps, rs))
    (hs : s.Fits sc (ps.reverse ++ ts)) (hdepth : depth ≤ callers.length)
    (hland : start + distance + 1 = mid) (hend : EndLeads env depth frame callers blocks under
      (openedBlock start distance ps.length rs.length (s.operands.drop ps.length ++ under))
        (s.operands.drop ps.length) rs.length last mid)
    (hmeets : ∀ {s : State}, s.Fits sc ps.reverse →
      Meets (fun _ : Logged H => True) (fun _ => True)
        (Outcome.Fits sc (rs :: labels) rs.reverse) (body s))
    (hbody : FollowsTo env N depth frame callers
      (openedBlock start distance ps.length rs.length
        (s.operands.drop ps.length ++ under) :: blocks) (s.operands.drop ps.length ++ under) last
      (inside frame callers blocks under (openedBlock start distance ps.length rs.length)
        ps.length first s) l (body { s with operands := s.operands.take ps.length } l))
    (hk : ∀ s' l', s'.Fits sc (rs.reverse ++ ts) →
      FollowsTo env N depth frame callers blocks under stop
        (.place frame callers blocks under mid s') l' (k s' l')) :
    FollowsTo env N depth frame callers blocks under stop
      (inside frame callers blocks under (openedBlock start distance ps.length rs.length)
        ps.length first s) l ((construct env args s body >>= fun o => o.andThen k) l) := by
  refine seq_follows mid ?_ fun s' l' ho => ?_
  · rw [construct, arity_eq (hsc.mod ▸ h), Run.pure_bind]
    simp only [split_eq hs, Run.pure_bind]
    refine Follows.bind (rising_runTo env depth _ l) hbody fun o l' ho => ?_
    have hfits := (hmeets hs.split.1).of_ok trivial ho
    refine leave_leads hsc henc hfits hend fun s' hs' => ?_
    subst hs'
    obtain ⟨-, ls, hls, hlen⟩ := hfits
    obtain rfl : rs = ls := by simpa using hls
    rw [after, branchTo_zero (b := openedBlock start distance ps.length rs.length _) henc rfl hlen,
      proceed_move hdepth]
    subst hland
    exact Leads.refl _
  · have hconstruct := construct_meets (P := fun _ => True) hsc.mod h hs fun _ hs => hmeets hs
    exact hk s' l' (hconstruct.of_ok trivial ho)

/-! ### Loops -/

section

variable (hsim : Simulates env bodies n) {body : Nested} (hsc : Scoped env sc frame)
  (hready : Ready sc frame labels blocks under pc (.loop args body .done) (ps.reverse ++ ts)
    (rs.reverse ++ ts) s) (h : args.type? sc.mod = some (ps, rs)) (hdepth : depth ≤ callers.length)
include hsim hsc hready h hdepth

/-- A loop, from its body to behind its end: a branch to it goes back to the
start of its body, with the block still open. -/
theorem restart_follows {o : Outcome} (ho : o.Fits sc (ps :: labels) rs.reverse) :
    Follows (n + 1 - delay o)
      (after env depth frame callers
        (loopBlock pc (body.size + 1) ps.length rs.length
          (s.operands.drop ps.length ++ under) :: blocks)
        (s.operands.drop ps.length ++ under) (pc + 1 + body.size) o l)
      (fun o' => delay o' - delay o)
      (after env depth frame callers blocks under (pc + body.size + 2))
        (Logged.exits (callers.length + 1 - depth))
      (o.orRestart ps.length rs.length (s.operands.drop ps.length)
        (Structured.run env bodies n (.loop args body .done)) l) := by
  obtain ⟨-, hbelow⟩ := hready.fits.split
  have hrow := hready.row
  rw [Nested.flatten, row_cons, row_append, row_cons, Nested.length_flatten] at hrow
  have hstop : pc + body.size + 2 = pc + 1 + body.size + 1 := by omega
  rw [hstop]
  have hend : EndLeads env depth frame callers blocks under
      (loopBlock pc (body.size + 1) ps.length rs.length (s.operands.drop ps.length ++ under))
        (s.operands.drop ps.length) rs.length
      (pc + 1 + body.size) (pc + 1 + body.size + 1) := endBlock_leads hrow.2.2.1 rfl hdepth
  have hleave (hzero : ∀ s', o ≠ .branch 0 s') := leave_leads (l := l) hsc hready.enclosed ho hend
    fun s' hs' => absurd hs' (hzero s')
  rcases o with s' | ⟨_ | d, s'⟩ | s'
  · exact hleave (by simp)
  · -- The branch to the loop: with less of the bound, the loop starts over as it stands here.
    obtain ⟨hl, ls, hls, hlen⟩ := ho
    obtain rfl : ps = ls := by simpa using hls
    let s'' : State :=
      { s' with operands := s'.operands.take ps.length ++ s.operands.drop ps.length }
    have htake : (s'.operands.take ps.length).length = ps.length := by simp [hlen]
    have hready' : Ready sc frame labels blocks under pc (.loop args body .done) (ps.reverse ++ ts)
        (rs.reverse ++ ts) s'' :=
      ⟨hready.typed, hready.narrow, ⟨hl, by simp [s'', hlen, hbelow]⟩, hready.row, hready.enclosed⟩
    have hagain := hsim.loop (l := l) hsc hready' h hdepth
    rw [hstop] at hagain
    have hbranch : ((Machine.place frame callers
        (loopBlock pc (body.size + 1) ps.length rs.length
          (s.operands.drop ps.length ++ under) :: blocks)
        (s.operands.drop ps.length ++ under) 0 s').branchTo 0 : Run (World H) Progress) =
        Pure.pure (.running _) := branchTo_zero hready.enclosed rfl hlen
    rw [after, hbranch, proceed_move hdepth]
    simp only [s'', List.drop_left' htake, List.take_left' htake] at hagain
    exact hagain.mono (rising_runTo env depth _ l) (Nat.le_refl n) fun o' => Nat.sub_le _ _
  · exact hleave (by simp)
  · exact hleave (by simp)

theorem loop_follows {x : Run (Logged H) Outcome}
    (hbody : FollowsTo env (n + 1) depth frame callers
      (loopBlock pc (body.size + 1) ps.length rs.length (s.operands.drop ps.length ++ under) ::
        blocks) (s.operands.drop ps.length ++ under) (pc + 1 + body.size)
      (inside frame callers blocks under (loopBlock pc (body.size + 1) ps.length rs.length)
        ps.length (pc + 1) s) l (x l))
    (hfits : ∀ o l', x l = (.ok o, l') → o.Fits sc (ps :: labels) rs.reverse) :
    FollowsTo env (n + 1) depth frame callers blocks under (pc + body.size + 2)
      (inside frame callers blocks under (loopBlock pc (body.size + 1) ps.length rs.length)
        ps.length (pc + 1) s) l
      ((x >>= fun o => o.orRestart ps.length rs.length (s.operands.drop ps.length)
        (Structured.run env bodies n (.loop args body .done))) l) :=
  Follows.bind (rising_runTo env depth _ l) hbody fun o l' ho =>
    restart_follows hsim hsc hready h hdepth (hfits o l' ho)

end

/-! ### Branch tables -/

variable {locals : Array Raw} {c : Raw} {f : Func} {t : FuncType} {vs : List Value}

theorem tableLabel_place {targets : List Nat} {default : Nat} {next : Nested}
    {vs : List Raw} (hrow : Row frame.code pc (Nested.brTable targets default next).flatten) :
    (Machine.tableLabel (.place frame callers blocks under pc ⟨locals, c :: vs⟩)
      default targets.length :
      Run (World H) (Nat × List Raw)) = Pure.pure (targets[c.low.toNat]?.getD default,
      vs ++ under) := by
  rw [Nested.flatten, row_cons, row_append] at hrow
  obtain ⟨hhead, hlabels, -⟩ := hrow
  have hpc : pc < frame.code.size := (Array.getElem?_eq_some_iff.1 hhead).1
  have hsize : ¬frame.code.size < pc + 1 + targets.length := by
    have := hlabels.add_length_le hpc
    rw [List.length_map] at this
    omega
  simp only [Machine.tableLabel, Machine.place, hsize, if_false, Machine.pop,
    List.cons_append, Run.pure_bind]
  split
  · next hlt =>
    have hlabel : frame.code[pc + 1 + c.low.toNat]? = some (.brLabel (targets[c.low.toNat])) := by
      rw [hlabels c.low.toNat (by simpa using hlt)]
      simp [hlt]
    simp only [hlabel, List.getElem?_eq_getElem hlt, Option.getD_some]
  · next hge => rw [List.getElem?_eq_none (by omega), Option.getD_none]

theorem step_brTable {targets : List Nat} {default : Nat} {next : Nested} {vs : List Raw}
    (inv : Nat → List Value → Run (World H) (List Value))
    (hrow : Row frame.code pc (Nested.brTable targets default next).flatten) :
    (Machine.place frame callers blocks under pc ⟨locals, c :: vs⟩).step env inv =
      (Machine.place frame callers blocks under pc ⟨locals, vs⟩).branchTo
        (targets[c.low.toNat]?.getD default) := by
  rw [Machine.step, fetch_place (row_cons.1 hrow).1, need_some, Run.pure_bind]
  simp only [tableLabel_place hrow, Run.pure_bind]
  rfl

theorem brTable_follows {targets : List Nat} {default : Nat} {next : Nested}
    (hrow : Row frame.code pc (Nested.brTable targets default next).flatten)
    (hs : s.operands ≠ []) :
    FollowsTo env N depth frame callers blocks under stop (.place frame callers blocks under pc s) l
      ((do
        let (c, s) ← Structured.pop s
        return Outcome.branch (targets[c.low.toNat]?.getD default) s) l) := by
  obtain ⟨locals, _ | ⟨c, vs⟩⟩ := s
  · exact absurd rfl hs
  · have hcode := (row_cons.1 hrow).1
    exact leads_proceed (fun inv => step_brTable inv hrow)
      (by simp [Machine.nextCall?, Machine.place, hcode]) (branchTo_ok _ _ _)

/-! ### All code -/

theorem pop_cons {σ : Type} (locals : Array Raw) (c : Raw) (vs : List Raw) :
    (Structured.pop ⟨locals, c :: vs⟩ : Run σ (Raw × State)) = Pure.pure (c, ⟨locals, vs⟩) := rfl

theorem fits_tail {vs : List Raw} {t : ValType} (hs : State.Fits sc (t :: ts) ⟨locals, c :: vs⟩) :
    State.Fits sc ts ⟨locals, vs⟩ :=
  ⟨hs.1, by simpa using hs.2⟩

/-- **The machine at the start of typed code follows the reference semantics.** -/
theorem exec_follows (hlinked : env.Linked) (hb : env.mod.Bodies bodies)
    (hsim : Simulates env bodies n) (hsc : Scoped env sc frame) {code : Nested} {us : List ValType}
    (hready : Ready sc frame labels blocks under pc code ts us s)
    (hdepth : depth ≤ callers.length) :
    FollowsTo env (n + 1) depth frame callers blocks under (pc + code.size)
      (.place frame callers blocks under pc s) l
      (exec env bodies (Structured.invoke env bodies n)
        (Structured.run env bodies n) code s l) := by
  have hback := back_run hlinked.contract hb n
  obtain ⟨htyped, hnarrow, hfits, hrow, henc⟩ := hready
  induction htyped generalizing blocks under pc s l with
  | done => exact Leads.refl _
  | @plain labels op next ts ts' us h _ ih =>
    rw [Nested.flatten, row_cons] at hrow
    have hsize : pc + (Nested.plain op next).size = pc + 1 + next.size := by
      rw [Nested.size]
      omega
    rw [hsize]
    refine seq_follows (pc + 1) (plain_follows hlinked hb hsim hsc h hfits hrow.1 hdepth)
      fun s' l' ho => ?_
    have ho := (plain_meets hlinked.contract hb hback hsc.mod h hfits).of_ok trivial ho
    exact ih hnarrow (ho ts' fun _ hv => (Option.some.inj hv).symm) hrow.2 henc
  | @last labels op next ts us h =>
    rw [Nested.flatten, row_cons] at hrow
    refine seq_follows (pc + 1) (plain_follows hlinked hb hsim hsc h hfits hrow.1 hdepth)
      fun s' l' ho => ?_
    -- operands that are as many as any types are: there are none, so the end was not reached
    have ho := (plain_meets hlinked.contract hb hback hsc.mod h hfits).of_ok trivial ho
    have hnone := (ho [] (by simp)).2
    have hone := (ho [.i32] (by simp)).2
    exact absurd (hnone.symm.trans hone) (by simp)
  | @brTable labels targets default next ts us h =>
    refine brTable_follows hrow ?_
    intro hnil
    simpa [hnil] using hfits.2
  | @block labels args body next ps rs ts us h hinner _ ihbody ihnext =>
    rw [Nested.flatten, row_cons, row_append, row_cons, Nested.length_flatten] at hrow
    obtain ⟨hopen, hbody, hclose, hnext⟩ := hrow
    have hsize : pc + (Nested.block args body next).size = pc + 1 + body.size + 1 + next.size := by
      rw [Nested.size]
      omega
    rw [hsize]
    refine Follows.before (rising_runTo env depth _ l) ?_
      (leads_move (fun inv => step_block inv (hsc.mod ▸ h) hfits hopen)
      (by simp [Machine.nextCall?, Machine.place, hopen]) hdepth)
    exact construct_follows hsc henc h hfits hdepth (by omega) (endBlock_leads hclose rfl hdepth)
      (exec_meets hlinked.contract hb hback hsc.mod hinner)
        (ihbody hnarrow.1 hfits.split.1 hbody (.construct henc rfl rfl))
      fun s' l' hs' => ihnext hnarrow.2 hs' hnext henc
  | @loop labels args body next ps rs ts us h hinner hrest ihbody ihnext =>
    rw [Nested.flatten, row_cons, row_append, row_cons, Nested.length_flatten] at hrow
    obtain ⟨hopen, hbody, hclose, hnext⟩ := hrow
    have hsize : pc + (Nested.loop args body next).size = pc + body.size + 2 + next.size := by
      rw [Nested.size]
      omega
    have hloop : Row frame.code pc (Nested.loop args body .done).flatten := by
      rw [Nested.flatten, row_cons, row_append, row_cons, Nested.length_flatten]
      exact ⟨hopen, hbody, hclose, row_nil⟩
    have hready : Ready sc frame labels blocks under pc (.loop args body .done) (ps.reverse ++ ts)
        (rs.reverse ++ ts) s :=
      ⟨.loop h hinner .done, ⟨hnarrow.1, trivial⟩, hfits, hloop, henc⟩
    have hinner' := exec_meets hlinked.contract hb hback hsc.mod hinner hfits.split.1
    have hloopFollows := loop_follows (l := l) hsim hsc hready h hdepth
      (ihbody hnarrow.1 hfits.split.1 hbody (.construct henc rfl rfl)) fun o l' ho =>
      hinner'.of_ok trivial ho
    rw [hsize, exec, arity_eq (hsc.mod ▸ h), Run.pure_bind]
    simp only [split_eq hfits, Run.pure_bind]
    rw [← Run.bind_assoc]
    refine seq_follows (pc + body.size + 2)
      (Follows.before (rising_runTo env depth _ l) hloopFollows
      (leads_move (fun inv => step_loop inv (hsc.mod ▸ h) hfits hopen)
        (by simp [Machine.nextCall?, Machine.place, hopen]) hdepth))
      fun s' l' ho => ?_
    have hmeets := hinner'.bind fun o ho => orRestart_meets hback hsc.mod h hinner ho hfits.split.2
    have hnext' : Row frame.code (pc + body.size + 2) next.flatten := by
      have hpos : pc + 1 + body.size + 1 = pc + body.size + 2 := by omega
      rwa [hpos] at hnext
    exact ihnext hnarrow.2 (hmeets.of_ok trivial ho) hnext' henc
  | @cond labels args body next ps ts us h hinner _ ihbody ihnext =>
    obtain ⟨locals, _ | ⟨c, vs⟩⟩ := s
    · simp [State.Fits] at hfits
    rw [Nested.flatten, row_cons, row_append, row_cons, Nested.length_flatten] at hrow
    obtain ⟨hopen, hbody, hclose, hnext⟩ := hrow
    have hsize : pc + (Nested.cond args body next).size = pc + 1 + body.size + 1 + next.size := by
      rw [Nested.size]
      omega
    have hfits : State.Fits sc (ps.reverse ++ ts) ⟨locals, vs⟩ := fits_tail hfits
    rw [hsize, exec, pop_cons, Run.pure_bind]
    refine Follows.before (rising_runTo env depth _ l) ?_
      (cond_leads hopen (hsc.mod ▸ h) hfits hdepth)
    cases hc : c.isTrue with
    | true =>
      simp only [selected, hc, if_true]
      exact construct_follows hsc henc h hfits hdepth (by omega) (endBlock_leads hclose rfl hdepth)
        (exec_meets hlinked.contract hb hback hsc.mod hinner)
          (ihbody hnarrow.1 hfits.split.1 hbody (.construct henc rfl rfl))
        fun s' l' hs' => ihnext hnarrow.2 hs' hnext henc
    | false =>
      have hpos : pc + (body.size + 1) + 1 = pc + 1 + body.size + 1 := by omega
      simp only [selected, hc, Bool.false_eq_true, if_false, if_true, hpos]
      exact ihnext hnarrow.2 hfits hnext henc
  | @condElse labels args body alt next ps rs ts us h hyes hno _ ihyes ihno ihnext =>
    obtain ⟨locals, _ | ⟨c, vs⟩⟩ := s
    · simp [State.Fits] at hfits
    rw [Nested.flatten, row_cons, row_append, row_cons, row_append, row_cons, Nested.length_flatten,
      Nested.length_flatten] at hrow
    obtain ⟨hopen, hbody, horElse, halt, hclose, hnext⟩ := hrow
    obtain ⟨hnear, hnarrowYes, hnarrowNo, hnarrowNext⟩ := hnarrow
    have hsize : pc + (Nested.condElse args body alt next).size =
        pc + 1 + body.size + 1 + alt.size + 1 + next.size := by
      rw [Nested.size]
      omega
    have hfits : State.Fits sc (ps.reverse ++ ts) ⟨locals, vs⟩ := fits_tail hfits
    rw [hsize, exec, pop_cons, Run.pure_bind]
    refine Follows.before (rising_runTo env depth _ l) ?_
      (cond_leads hopen (hsc.mod ▸ h) hfits hdepth)
    cases hc : c.isTrue with
    | true =>
      have hpos : pc + 1 + body.size + (alt.size + 1) + 1 =
        pc + 1 + body.size + 1 + alt.size + 1 := by omega
      simp only [selected, hc, if_true]
      exact construct_follows hsc henc h hfits hdepth (by omega)
        (hpos ▸ orElse_leads horElse rfl hdepth)
        (exec_meets hlinked.contract hb hback hsc.mod hyes)
          (ihyes hnarrowYes hfits.split.1 hbody (.construct henc rfl rfl))
        fun s' l' hs' => ihnext hnarrowNext hs' hnext henc
    | false =>
      -- the alternative is a block that starts at the mark between the two arms
      have hfirst : pc + (body.size + 1) + 1 = pc + 1 + body.size + 1 := by omega
      have hdistance : (body.size + alt.size + 2 + 0x100000000 - (body.size + 1)) % 0x100000000 =
        alt.size + 1 := by omega
      simp only [selected, hc, Bool.false_eq_true, if_false, Nat.add_one_ne_zero, hfirst, hdistance]
      exact construct_follows hsc henc h hfits hdepth (by omega) (endBlock_leads hclose rfl hdepth)
        (exec_meets hlinked.contract hb hback hsc.mod hno)
          (ihno hnarrowNo hfits.split.1 halt (.construct henc rfl rfl))
        fun s' l' hs' => ihnext hnarrowNext hs' hnext henc

/-! ### Functions -/

/-- Behind the return of a frame nothing is left to do, if that is where the run
stops. -/
theorem onward_returned (rs : List Raw) :
    onward env callers.length (returned callers blocks under rs) l =
    fun _ => (.ok (returned callers blocks under rs), l) := by
  funext i
  cases callers with
  | nil => rfl
  | cons caller callers => simp [returned, onward]

/-- **The body of a function, until it returns**: from any stack and below any
frames, the machine does what the reference semantics says of the body. -/
theorem body_tracks (frame : Frame) (callers : List Frame) (blocks : List Block) (under : List Raw)
    (locals : Array Raw) (hlinked : env.Linked) (hb : env.mod.Bodies bodies)
    (hsim : Simulates env bodies n) {i : Nat} (hf : env.mod.funcs[i]? = some f)
    (ht : env.mod.types[f.type]? = some t) (hcode : frame.code = f.code)
    (hresults : frame.results = t.results.length) (hblocks : blocks.length = frame.blockBase)
    (hunder : under.length = frame.valueBase)
    (hlocals : locals.size = t.params.length + f.locals.length) :
    Tracks (fun j => runTo env callers.length j (.place frame callers blocks under 0 ⟨locals, []⟩))
      n (do
      let rs ← finish (Structured.run env bodies n) t.results.length (bodies i) locals
      return returned callers blocks under rs) := by
  refine Tracks.of_follows (d := 1) (chain_runTo env _ _) fun l => ?_
  have hfollows := body_follows (l := l) frame hlinked hb hsim hf ht hcode hresults
    hblocks hunder hlocals
    (Nat.le_refl callers.length)
  rw [Nat.sub_self] at hfollows
  simp only [onward_returned] at hfollows
  exact Follows.map hfollows

theorem ended_finished (x : Run (Logged H) (List Raw)) (w : World H) :
    ended ((x >>= fun rs => Pure.pure (Progress.finished rs)) ⟨w, []⟩) = Logged.apart x w := by
  rw [Run.bind_apply, Logged.apart]
  rcases x ⟨w, []⟩ with ⟨_ | rs, l⟩ <;> rfl

/-- What the runs of a machine up to no return track, its runs do. -/
theorem run_tracks {m : Machine} {x : Run (Logged H) (List Raw)}
    (h : Tracks (fun j => runTo env 0 j m) n (x >>= fun rs => Pure.pure (.finished rs))) :
    Tracks (fun j => run env j m) n (Logged.apart x) := by
  refine ⟨fun w hw => ?_, fun w hw => ?_⟩
  · have hrun : run env n m w = ended (runTo env 0 n m ⟨w, []⟩) := run_eq_ended env n m ⟨w, []⟩
    simp only [hrun, settled_ended] at hw ⊢
    rw [← h.upper ⟨w, []⟩ hw, ended_finished]
  · rw [← ended_finished, settled_ended] at hw
    obtain ⟨j, hj⟩ := h.lower ⟨w, []⟩ hw
    exact ⟨j, by rw [run_eq_ended env j m ⟨w, []⟩, hj, ended_finished]⟩

/-- A function that is called from outside. -/
theorem start_tracks (hlinked : env.Linked) (hb : env.mod.Bodies bodies)
    (hsim : Simulates env bodies n) {i : Nat} (hf : env.mod.funcs[i]? = some f)
    (ht : env.mod.types[f.type]? = some t) (hvs : vs.length = t.params.length) :
    Tracks (fun j => run env j (Machine.start f t vs)) n (Logged.apart (do
      let rs ← finish (Structured.run env bodies n) t.results.length (bodies i)
        (Frame.enter f t (vs.map Value.toRaw) 0 0).locals
      return rs.reverse)) := by
  have hbody := body_tracks (Frame.enter f t (vs.map Value.toRaw) 0 0) [] [] []
    (Frame.enter f t (vs.map Value.toRaw) 0 0).locals hlinked hb hsim hf ht rfl rfl rfl rfl
      (by simp [Frame.enter, hvs])
  simp only [returned, List.append_nil] at hbody
  refine run_tracks ?_
  simp only [Run.bind_assoc, Run.pure_bind]
  exact hbody

/-- The results are as many as the type of the function says, so the check at
the end passes. -/
theorem structured_invoke {func : Nat} (hlinked : env.Linked) (hb : env.mod.Bodies bodies)
    (hf : ¬func < env.imported) (hfunc : env.mod.funcs[func - env.imported]? = some f)
    (htype : env.mod.types[f.type]? = some t) (hdef : env.defined? func = some (f, t))
    (hvs : vs.length = t.params.length) : Structured.invoke env bodies (n + 1) func vs = (do
      World.enter
      let values ← Logged.apart (do
        let rs ← finish (Structured.run env bodies n) t.results.length
          (bodies (func - env.imported))
          (Frame.enter f t (vs.map Value.toRaw) 0 0).locals
        return rs.reverse)
      if values.length = t.results.length then return List.zipWith Value.ofRaw t.results values
      else Run.fault (.resultCount t.results.length values.length)) := by
  have hlocals : (Frame.enter f t (vs.map Value.toRaw) 0 0).locals.size =
      t.params.length + f.locals.length := by
    simp [Frame.enter, hvs]
  have hmeets :=
    apart_meets (P := fun _ => True)
    (finish_meets hb (back_run hlinked.contract hb n) hfunc htype hlocals)
  rw [Structured.invoke, if_neg hf, hdef, need_some, Run.pure_bind]
  simp only [enter, Logged.apart_onWorld_bind, Logged.apart_bind_pure,
    Run.bind_assoc, Run.pure_bind]
  congr 1
  funext _ w
  refine bind_congr fun rs w' hrs => ?_
  have hlen : rs.length = t.results.length := hmeets.of_ok trivial hrs
  rw [if_pos (by rw [List.length_reverse, hlen])]

/-- The results of a function, and the check that they are as many as its type
says. -/
theorem invoke_tracks (hlinked : env.Linked) (hb : env.mod.Bodies bodies)
    (hsim : Simulates env bodies n) {func : Nat} (ht : env.mod.funcType? func = some t)
    (hvs : vs.map Value.type = t.params) :
    Tracks (fun j => invoke env j func vs) (n + 1)
      (Structured.invoke env bodies (n + 1) func vs) := by
  by_cases hf : func < env.imported
  · refine Tracks.succ (fun j => by rw [invoke, if_pos hf]) ?_
    rw [Structured.invoke, if_pos hf]
    exact env.callHost_tracks
      (fun name vs j => env.callExport_below (related_below env j).invoke name vs)
      (env.callExport_tracks fun func t vs ht hvs => hsim.invoke ht
        (FuncType.types_of_checkArguments hvs)) func vs
  · obtain ⟨f, hfunc, htype, hdef⟩ := Env.exists_defined hf ht
    have hlen : vs.length = t.params.length := by simpa using congrArg List.length hvs
    refine Tracks.succ
      (fun j => by rw [invoke, if_neg hf, ht, hdef, need_some, Run.pure_bind, need_some,
        Run.pure_bind]) ?_
    rw [structured_invoke hlinked hb hf hfunc htype hdef hlen]
    refine Tracks.bind (fun _ => Below.refl _) (fun _ j => ?_) (Tracks.const _ n) fun _ => ?_
    · exact ((related_below env j).run _).bind fun _ => Below.refl _
    · exact Tracks.bind (fun j => (related_below env j).run _) (fun _ _ => Below.refl _)
        (start_tracks hlinked hb hsim hfunc htype hlen) fun _ => Tracks.const _ n

/-! ### The induction -/

theorem again_follows (hlinked : env.Linked) (hb : env.mod.Bodies bodies)
    (hsim : Simulates env bodies n) {body : Nested} (hsc : Scoped env sc frame)
    (hready : Ready sc frame labels blocks under pc (.loop args body .done) (ps.reverse ++ ts)
      (rs.reverse ++ ts) s)
    (h : args.type? sc.mod = some (ps, rs)) (hdepth : depth ≤ callers.length) :
    FollowsTo env (n + 1) depth frame callers blocks under (pc + body.size + 2)
      (inside frame callers blocks under (loopBlock pc (body.size + 1) ps.length rs.length)
        ps.length (pc + 1) s) l
      (Structured.run env bodies (n + 1) (.loop args body .done) s l) := by
  have hinner : body.Typed sc (ps :: labels) ps.reverse rs.reverse := by
    obtain ⟨htyped, -⟩ := hready
    generalize hts : ps.reverse ++ ts = ts' at htyped
    cases htyped with
    | loop h' hinner _ =>
      obtain ⟨rfl, rfl⟩ : _ ∧ _ := by simpa using h.symm.trans h'
      exact hinner
  have hrow := hready.row
  rw [Nested.flatten, row_cons, row_append] at hrow
  have hmeets := exec_meets hlinked.contract hb (back_run hlinked.contract hb n) hsc.mod hinner
    hready.fits.split.1
  rw [Structured.run, exec, arity_eq (hsc.mod ▸ h), Run.pure_bind]
  simp only [split_eq hready.fits, Run.pure_bind]
  rw [← Run.bind_assoc]
  refine seq_follows (pc + body.size + 2)
    (loop_follows hsim hsc hready h hdepth ?_ fun o l' ho => hmeets.of_ok trivial ho)
      fun s' l' _ => Leads.refl _
  exact exec_follows hlinked hb hsim hsc
    ⟨hinner, hready.narrow.1, hready.fits.split.1, hrow.2.1,
      .construct hready.enclosed rfl rfl⟩ hdepth

/-- **The machine follows the reference semantics**, within every bound. -/
theorem simulates (hlinked : env.Linked) (hb : env.mod.Bodies bodies) (n : Nat) :
    Simulates env bodies n := by
  induction n with
  | zero =>
    refine ⟨fun _ _ _ => ?_, fun _ _ _ _ => ?_, fun _ _ => ?_⟩
    · exact not_settled_exhausted _
    · exact not_settled_exhausted _
    · exact ⟨fun w hw => absurd rfl hw, fun w hw => absurd rfl hw⟩
  | succ n ih =>
    refine ⟨fun hsc hready hdepth => ?_, fun hsc hready h hdepth => ?_, fun ht hvs => ?_⟩
    · rw [Structured.run]
      exact exec_follows hlinked hb ih hsc hready hdepth
    · exact again_follows hlinked hb ih hsc hready h hdepth
    · exact invoke_tracks hlinked hb ih ht hvs

end

end Interpreter

end WasmEngine
