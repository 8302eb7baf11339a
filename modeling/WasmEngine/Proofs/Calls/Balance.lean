import WasmEngine.Proofs.Calls.Watch
import WasmEngine.Proofs.Compiled.Shown

/-!
# The guard counts the active calls

Units of call depth are taken and returned in many places: by the entry of the
interpreter, by its calls and returns, all at once when a machine stops with an
error, by each call that compiled code makes, and around host functions. Here these
are put together: all calls are watched (`WasmEngine.Runtime.noted_holds`). A call
ends with the guard that it started with, at all of its moments the depth of the
guard is the number of active calls, and it does not see a higher ceiling or passes
the lower one.

A host program is watched if the calls that it makes are. So the proof is by
induction on the bound, where the calls that host functions make have less of it.
The interpreter is followed step by step, and the statement about a machine has its
frames in it: the guard is as many units above what it was outside
(`WasmEngine.Interpreter.WatchedWithin`).
-/

namespace WasmEngine

open Run Noted
open HasWorld (world)

variable {H α β : Type} {C active : Nat} {W : Watch}

theorem guard_exits {w : World H} {n : Nat} (hw : w.guard = ⟨active + n, C⟩) :
    (w.exits n).guard = ⟨active, C⟩ := by
  simp [World.exits, Guard.exits, hw]

theorem World.quiet {x : Run (World H) α} (hshows : Shows (World.under W.higher) x x)
    (hkeeps : Keeps (fun w : World H => w.guard) x) : W.Quiet x := ⟨hshows, hkeeps⟩

/-! ### Host functions -/

theorem HostProg.noted_holds {reenter : String → List Value → Noted H (World H) (List Value)}
    (hcall : ∀ name args, W.Holds active (W.back active) (reenter name args)) (p : HostProg H)
    (hp : W.raises → p.Blind) : W.Holds active (W.back active) (p.noted reenter active) := by
  induction p with
  | finish r => exact .running (.of_quiet (W.closed_quiet.ofExcept r))
  | look next ih =>
    intro w hw hle
    have hnext := ih w (fun hq => (hp hq w).2) w hw hle
    refine ⟨hnext.ends, hnext.counted, fun hq => ?_⟩
    -- The program goes on in the same way under both ceilings: it cannot tell them apart.
    have hblind : next (W.raise w) = next w := (hp hq w).1 W.higher
    have hsame := congrArg (fun p => HostProg.noted reenter active p (W.raise w)) hblind
    refine (hnext.raised hq).within rfl (congrArg Prod.fst hsame) fun same => ?_
    exact (congrArg Prod.snd hsame).trans same
  | setHost h next ih =>
    refine .running fun w hw hle => ?_
    have hnext := ih hp { w with host := h } hw hle
    exact ⟨hnext.ends, hnext.counted, fun hq => (hnext.raised hq).within rfl rfl id⟩
  | memory op next ih =>
    refine .running (.seen (World.quiet ?_ ?_) fun r => ih r fun hq => hp hq r)
    · exact (World.onMemory_shows (World.view_under W.higher) _).catching
    · exact (World.steady_guard.memory _ fun m => m.byteLimit_apply op).catching
  | call name args next ih =>
    exact .running ((hcall name args).catching.andThen fun r => ih r fun hq => hp hq r)

namespace Env

variable (env : Env H)

theorem notedHost_holds (henv : W.raises → ∀ f ∈ env.hosts, f.Blind)
    {reenter : Nat → String → List Value → Noted H (World H) (List Value)}
    (hcall : ∀ a name args, W.Holds a (W.back a) (reenter a name args)) (active func : Nat)
    (args : List Value) :
    W.Holds active (W.back active) (env.notedHost reenter active func args) := by
  refine .need fun f hf => .attempt (Watch.Holds.bind_quiet (.leaving ?_) fun results => ?_)
  · exact HostProg.noted_holds (hcall (active + 1)) (f.run args)
      fun hq => henv hq f (Array.mem_of_getElem? hf) args
  · exact iteInduction (fun _ => W.closed_quiet.pure _) fun _ => W.closed_quiet.fail _

theorem notedExport_holds {invoke : Nat → Nat → List Value → Noted H (World H) (List Value)}
    (h : ∀ a func args, W.Holds a (W.back a) (invoke a func args)) (a : Nat) (name : String)
    (args : List Value) : W.Holds a (W.back a) (env.notedExport invoke a name args) := by
  rw [notedExport]
  cases env.mod.exportedFunc? name with
  | none => exact .halt _
  | some func =>
    exact .need fun t _ => .seen (W.closed_quiet.ofExcept _) fun _ => h a func args

end Env

/-! ### The interpreter -/

/-- A run whose values have a property. -/
def Run.Gives {σ : Type} (Q : α → Prop) (x : Run σ α) : Prop := ∀ s a s', x s = (.ok a, s') → Q a

namespace Run.Gives

variable {σ : Type} {Q : α → Prop}

theorem pure {a : α} (h : Q a) : Gives Q (Pure.pure a : Run σ α) := by
  rintro s b s' hb
  cases hb
  exact h

theorem halt (e : Halt) : Gives Q (Run.halt e : Run σ α) := by
  rintro s b s' ⟨⟩

theorem bind {x : Run σ β} {f : β → Run σ α} (hf : ∀ b, Gives Q (f b)) : Gives Q (x >>= f) := by
  intro s a s' h
  rw [bind_apply] at h
  generalize x s = r at h
  obtain ⟨e | b, s''⟩ := r
  · cases h
  · exact hf b s'' a s' h

theorem ite {c : Prop} [Decidable c] {x y : Run σ α} (hx : Gives Q x) (hy : Gives Q y) :
    Gives Q (if c then x else y) := by
  split
  · exact hx
  · exact hy

end Run.Gives

namespace Machine

variable {env : Env H} {m : Machine}

theorem enterBlock_callers (args : BlockArgs) (start stop : Nat) (isLoop : Bool) :
    Gives (fun m' => m'.callers = m.callers) (enterBlock env m args start stop isLoop) := by
  refine Gives.bind fun p => ?_
  obtain ⟨params, results⟩ := p
  simp only [openBlock?]
  split
  · exact Gives.halt _
  · exact Gives.pure rfl

theorem enterCond_callers (args : BlockArgs) (alt stop : Nat) :
    Gives (fun m' => m'.callers = m.callers) (enterCond env m args alt stop) := by
  refine Gives.bind fun p => Gives.ite (enterBlock_callers args _ _ _) ?_
  exact Gives.ite (Gives.pure rfl) (enterBlock_callers args _ _ _)

/-- An instruction that neither calls nor branches leaves the frames that wait
alone. -/
theorem operate_callers (op : Plain) :
    Gives (fun m' => m'.callers = m.callers) (operate env m op) := by
  cases op with
  | unreachable => exact Gives.halt _
  | select =>
    refine Gives.bind fun _ => Gives.bind fun _ => Gives.ite (Gives.pure rfl) ?_
    exact Gives.bind fun _ => Gives.pure rfl
  | drop | localGet | globalGet | memorySize => exact Gives.bind fun _ => Gives.pure rfl
  | load | memoryGrow | unary | globalSet =>
    exact Gives.bind fun _ => Gives.bind fun _ => Gives.pure rfl
  | localSet | localTee => exact Gives.bind fun _ => Gives.ite (Gives.pure rfl) (Gives.halt _)
  | store | binary =>
    exact Gives.bind fun _ => Gives.bind fun _ => Gives.bind fun _ => Gives.pure rfl
  | memoryCopy | memoryFill =>
    exact Gives.bind fun _ => Gives.bind fun _ => Gives.bind fun _ => Gives.bind
      fun _ => Gives.pure rfl
  | _ => exact Gives.pure rfl

theorem branch?_callers {depth : Nat} {m' : Machine} (h : m.branch? depth = some m') :
    m'.callers = m.callers := by
  rw [branch?] at h
  split at h
  · split at h
    · split at h <;> cases h <;> rfl
    · cases h
  · cases h

theorem closeBlock?_callers {m' : Machine} (h : m.closeBlock? = some m') :
    m'.callers = m.callers := by
  rw [closeBlock?] at h
  split at h
  · cases h
    rfl
  · cases h

/-- **What a step does to the guard**: it stays as many units above the calls
outside as there are frames, and a step that fails leaves it alone. -/
def Counts (C outside frames : Nat) : Except Halt Progress → Guard → Prop
  | .ok (.running m'), g =>
    g = ⟨outside + m'.callers.length + 1, C⟩ ∧ outside + m'.callers.length + 1 ≤ C
  | .ok (.finished _), g => g = ⟨outside, C⟩
  | .error _, g => g = ⟨outside + frames, C⟩

instance (outside : Nat) (m : Machine) : W.Absorbs (outside + m.callers.length + 1)
    (Counts W.ceiling outside (m.callers.length + 1)) := ⟨fun _ => rfl⟩

section

variable {outside : Nat} {w : World H} (hle : outside + m.callers.length + 1 ≤ C)
  (hw : w.guard = ⟨outside + m.callers.length + 1, C⟩)

/-- The outcome of a step and the guard after it. -/
abbrev CountsAfter (C outside frames : Nat) (r : Except Halt Progress × World H) : Prop :=
  Counts C outside frames r.1 r.2.guard

include hw in
theorem CountsAfter.bind {x : Run (World H) α} {f : α → Run (World H) Progress}
    (hx : Keeps (fun w => w.guard) x)
    (hf : ∀ b w', x w = (.ok b, w') → w'.guard = ⟨outside + m.callers.length + 1, C⟩ →
      CountsAfter C outside (m.callers.length + 1) (f b w')) :
    CountsAfter C outside (m.callers.length + 1) ((x >>= f) w) := by
  have hkept := (hx w).trans hw
  rw [bind_apply]
  rcases hxw : x w with ⟨e | b, w'⟩ <;> rw [hxw] at hkept
  · exact hkept
  · exact hf b w' hxw hkept

include hle hw

theorem CountsAfter.running {m' : Machine} (h : m'.callers = m.callers) :
    CountsAfter C outside (m.callers.length + 1)
      ((Pure.pure (.running m') : Run (World H) Progress) w) := by
  simp only [CountsAfter, pure_apply, Counts, h]
  exact ⟨hw, hle⟩

theorem leaveFrame_counts {m' : Machine} (h : m'.callers = m.callers) :
    CountsAfter C outside (m.callers.length + 1) (m'.leaveFrame w) := by
  rw [leaveFrame, h]
  rcases hc : m.callers with _ | ⟨caller, callers⟩ <;> rw [hc] at hw hle
  · exact guard_exits (n := 1) hw
  · refine ⟨guard_exits (n := 1) hw, ?_⟩
    rw [List.length_cons] at hle
    exact Nat.le_of_succ_le hle

theorem branchTo_counts {m' : Machine} (h : m'.callers = m.callers) (depth : Nat) :
    CountsAfter C outside (m.callers.length + 1) (m'.branchTo depth w) := by
  rw [branchTo]
  rcases hb : m'.branch? depth with _ | m''
  · exact leaveFrame_counts hle hw h
  · exact CountsAfter.running hle hw ((branch?_callers hb).trans h)

variable {invoke : Nat → List Value → Run (World H) (List Value)}

/-- **One step of the interpreter and the guard**, if the step is no call. -/
theorem step_counts (hcall : ∀ func, m.frame.code[m.frame.pc]? ≠ some (.plain (.call func)))
    (htable : ∀ type table, m.frame.code[m.frame.pc]? ≠ some (.plain (.callIndirect type table))) :
    CountsAfter C outside (m.callers.length + 1) (m.step env invoke w) := by
  -- Where there is no branch and no return, a step keeps the frames and the guard.
  have hgives {x : Run (World H) Machine} (hx : Keeps (fun w => w.guard) x)
      (hgives : Gives (fun m' => m'.callers = m.callers) x) (f : Machine → Machine)
      (hf : ∀ m', (f m').callers = m'.callers) {w : World H}
      (hw : w.guard = ⟨outside + m.callers.length + 1, C⟩) :
      CountsAfter C outside (m.callers.length + 1)
        ((x >>= fun m' => Pure.pure (Progress.running (f m'))) w) :=
    CountsAfter.bind hw hx fun m' w' hm' hw' => CountsAfter.running hle hw'
      ((hf m').trans (hgives w m' w' hm'))
  have hkept := Keeps.closed fun w : World H => w.guard
  cases hi : m.frame.code[m.frame.pc]? with
  | none =>
    rw [step, hi]
    exact hw
  | some i =>
    rw [step, hi, need_some, Run.pure_bind]
    cases i with
    | plain op =>
      cases op with
      | call func => exact absurd hi (hcall func)
      | callIndirect type table => exact absurd hi (htable type table)
      | br depth => exact branchTo_counts hle hw rfl depth
      | brIf depth =>
        refine CountsAfter.bind hw (closed_pop hkept _) fun p w' _ hw' => ?_
        obtain ⟨c, rest⟩ := p
        dsimp only
        split
        · have hcallers : (m.withValues rest).callers = m.callers := rfl
          exact branchTo_counts hle hw' hcallers depth
        · exact CountsAfter.running hle hw' rfl
      | ret => exact leaveFrame_counts hle hw rfl
      | _ =>
        exact hgives (ample_operate m World.steady_guard.ample (.refl env) _) (operate_callers _)
          next (fun _ => rfl) hw
    | block args stop | loop args stop =>
      exact hgives (closed_enterBlock m hkept (.refl env) args _ stop _)
        (enterBlock_callers args _ stop _) next (fun _ => rfl) hw
    | cond args alt stop =>
      exact hgives (closed_enterCond m hkept (.refl env) args alt stop)
        (enterCond_callers args alt stop) next (fun _ => rfl) hw
    | orElse | endBlock =>
      rcases hc : m.closeBlock? with _ | m'
      · exact hw
      · have hcallers := closeBlock?_callers hc
        exact CountsAfter.running hle hw hcallers
    | brTable default count =>
      refine CountsAfter.bind hw (closed_tableLabel m hkept default count) fun p w' _ hw' => ?_
      obtain ⟨depth, rest⟩ := p
      have hcallers : (m.withValues rest).callers = m.callers := rfl
      exact branchTo_counts hle hw' hcallers depth
    | brLabel => exact CountsAfter.running hle hw rfl

end

section

variable {invoke : Nat → Nat → List Value → Noted H (World H) (List Value)} {outside : Nat}
  (henv : W.raises → ∀ f ∈ env.hosts, f.Blind)
  (hinvoke : ∀ a func args, W.Holds a (W.back a) (invoke a func args))
include henv hinvoke

/-- The call of a function of the module is refused, or there is a frame more. -/
theorem notedCall_holds (m : Machine) (func : Nat) :
    W.Holds (outside + m.callers.length + 1) (Counts W.ceiling outside (m.callers.length + 1))
      (notedCall env invoke (outside + m.callers.length + 1) m func) := by
  rw [notedCall]
  split
  · refine .need fun t _ => .seen (closed_popMany W.closed_quiet _ _) fun p => ?_
    exact (env.notedHost_holds henv (env.notedExport_holds hinvoke) _ func _).andThen fun _ =>
      .pure fun hle => ⟨rfl, hle⟩
  · refine .need fun p _ => .seen (closed_popMany W.closed_quiet _ _) fun q => ?_
    -- The one place where the guard grows: there is a frame more as well.
    exact .attempt (.pure fun hle => ⟨rfl, hle⟩)

theorem notedTable_holds (m : Machine) (type table : Nat) :
    W.Holds (outside + m.callers.length + 1) (Counts W.ceiling outside (m.callers.length + 1))
      (notedTable env invoke (outside + m.callers.length + 1) m type table) := by
  refine .seen (closed_pop W.closed_quiet _) fun p => .seen (World.quiet ?_ ?_) fun func =>
    .need fun expected _ => .need fun actual _ => ?_
  · exact World.seeStore_shows (World.view_under W.higher) _
  · exact World.seeStore_keeps _ _
  · split
    · exact notedCall_holds henv hinvoke (m.withValues p.2) func
    · exact .halt _

/-- **One step is watched.** -/
theorem notedStep_holds (m : Machine) :
    W.Holds (outside + m.callers.length + 1) (Counts W.ceiling outside (m.callers.length + 1))
      (notedStep env invoke (outside + m.callers.length + 1) m) := by
  fun_cases notedStep env invoke (outside + m.callers.length + 1) m with
  | case1 func hi => exact notedCall_holds henv hinvoke m func
  | case2 type table hi => exact notedTable_holds henv hinvoke m type table
  | case3 hcall htable =>
    refine .leavingIf ?_ (Nat.le_add_left 1 _) fun w hw hle _ => step_counts hle hw hcall htable
    refine full_step (World.view_under W.higher).full (.refl env) ?_ ?_
    · exact fun func hi => absurd hi (hcall func)
    · exact fun type table hi => absurd hi (htable type table)

/-- The units of all frames are returned behind a step that fails. -/
theorem returning_holds (outside : Nat) (m : Machine) :
    W.Holds (outside + m.callers.length + 1) (Counts W.ceiling outside 0)
      ((m.notedStep env invoke (outside + m.callers.length + 1)).returning
        (outside + m.callers.length + 1) m.ended) := by
  refine (notedStep_holds henv hinvoke m).returning ?_ ?_ ?_
  · rintro (_ | _)
    · exact Nat.add_le_add_right (Nat.le_add_left _ outside) 1
    · exact Nat.zero_le _
  · rintro (_ | _) g hg hn
    · exact hg
    · exact absurd rfl hn
  · -- The units of the frames are those between the guard and the calls outside.
    rintro (_ | m' | _) g hg
    · rw [hg]
      simp [Guard.exits, Counts, ended]
    · exact hg
    · exact hg

end

end Machine

namespace Interpreter

variable {env : Env H}

/-- All that is interpreted within a bound is watched. A machine has its frames: the
guard is above the calls outside by as many units, and in the end by none. -/
structure WatchedWithin (W : Watch) (env : Env H) (n : Nat) : Prop where
  invoke : ∀ a func args, W.Holds a (W.back a) (noted env n a func args)
  run : ∀ outside (m : Machine), W.Holds (outside + m.callers.length + 1) (W.back outside)
    (notedRun env n outside m)

/-- **Interpreted calls are watched.** -/
theorem watchedWithin (henv : W.raises → ∀ f ∈ env.hosts, f.Blind) (n : Nat) :
    WatchedWithin W env n := by
  induction n with
  | zero => exact ⟨fun _ _ _ => .exhausted, fun _ _ => .exhausted⟩
  | succ n ih =>
    refine ⟨fun a func args => ?_, fun outside m => ?_⟩
    · rw [noted]
      split
      · exact env.notedHost_holds henv (env.notedExport_holds ih.invoke) a func args
      · refine .need fun t _ => .need fun p _ => .attempt ?_
        refine (ih.run a (Machine.start p.1 p.2 args)).bind_quiet fun values => ?_
        exact iteInduction (fun _ => W.closed_quiet.pure _) fun _ => W.closed_quiet.fail _
    · -- What a step leaves is the state of the machine after it, or nothing.
      have hstep := Machine.returning_holds henv ih.invoke outside m
      refine .running (hstep.bind (fun _ _ h => h) fun p _ w' _ hw' => ?_)
      cases p with
      | running m' => exact ih.run outside m' w' hw'.1 hw'.2
      | finished values =>
        exact ⟨fun _ => hw', List.forall_mem_nil _, fun _ => .unseen (List.forall_mem_nil _) rfl⟩

end Interpreter

/-! ### Compiled code -/

namespace Compiled

open Activation

variable {env : Env H} {c : Compiled}

/-- All that runs compiled code within a bound is watched. -/
structure WatchedWithin (W : Watch) (env : Env H) (c : Compiled) (n : Nat) : Prop where
  invoke : ∀ a func args, W.Holds a (W.back a) (noted env c n a func args)
  execute : ∀ a func fp, W.Holds a (W.back a) (notedExecute env c n a func fp)
  callAt : ∀ a func slot, W.Holds a (W.back a) (notedCallAt env c n a func slot)
  runSeq : ∀ a fp ops, W.Holds a (W.back a) (notedSeq env c n a fp ops)
  runOp : ∀ a fp op, W.Holds a (W.back a) (notedOp env c n a fp op)

theorem quiet {x : Run (Activation H) α} (hshows : Shows (shown (World.under W.higher)) x x)
    (hkeeps : Keeps (fun a => a.world.guard) x) : W.Quiet x := ⟨hshows, hkeeps⟩

theorem get_quiet (i : Nat) : W.Quiet (get i : Run (Activation H) Raw) :=
  quiet (get_shows i) (get_keeps _ i)

theorem bare_quiet (fp : Nat) (op : Code) : W.Quiet (bare env c fp op) := by
  refine quiet
    (ample_dispatch ample_shows (World.view_under W.higher).full.toAmple _ _ _ (.refl env)
    (fun _ _ => trivial) (fun _ => Shows.halt _) (Shows.halt _) fun _ _ => Shows.halt _) ?_
  exact ample_dispatch (keeps_ample _) World.steady_guard.ample (fun _ => Run.halt .exhausted)
    (fun _ => Run.halt .exhausted) (fun _ _ => Run.halt .exhausted) (.refl env)
    (fun _ _ => trivial) (fun _ => Keeps.halt _) (Keeps.halt _) fun _ _ => Keeps.halt _

/-- What compiled code does is watched in the world that it is called in. -/
theorem inside_holds {stop : Nat} {x : Noted H (Activation H) α}
    (hx : W.Holds active (W.back stop) x) (slots : Array Raw) :
    W.Holds active (W.back stop) (inside slots x) := by
  intro w hw hle
  have hx := hx ⟨slots, w⟩ hw hle
  refine ⟨hx.ends, hx.counted, fun hq => (hx.raised hq).within rfl rfl fun same => ?_⟩
  exact congrArg (Prod.map id Activation.world) same

/-- An operation is watched if its parts are. -/
theorem notedDispatch_holds {seq : List Code → Noted H (Activation H) Flow}
    {again : Unit → Noted H (Activation H) Flow}
    {call : (func slot : Nat) → Noted H (Activation H) Unit}
    (hseq : ∀ ops, W.Holds active (W.back active) (seq ops))
    (hagain : W.Holds active (W.back active) (again ()))
    (hcall : ∀ func slot, W.Holds active (W.back active) (call func slot)) (fp : Nat) (op : Code) :
    W.Holds active (W.back active) (notedDispatch env c seq again call fp op) := by
  fun_cases notedDispatch env c seq again call fp op with
  | case1 body => exact (hseq body).andThen fun _ => .pure fun _ => rfl
  | case2 body =>
    refine (hseq body).andThen fun flow => ?_
    split
    · exact hagain
    · exact .pure fun _ => rfl
  | case3 slot yes no =>
    exact .seen (get_quiet _) fun r => (hseq _).andThen fun _ => .pure fun _ => rfl
  | case4 func args => exact (hcall func _).andThen fun _ => .pure fun _ => rfl
  | case5 expected table slot args =>
    refine .seen (get_quiet _) fun r => .seen (quiet ?_ ?_) fun func => .need fun actual _ => ?_
    · exact onWorld_shows (World.seeStore_shows (World.view_under W.higher) _)
    · exact onWorld_keeps (World.seeStore_keeps _ _)
    · split
      · exact (hcall func _).andThen fun _ => .pure fun _ => rfl
      · exact .halt _
  | case6 => exact .of_quiet (bare_quiet fp op)

/-- **Compiled calls are watched.** -/
theorem watchedWithin (henv : W.raises → ∀ f ∈ env.hosts, f.Blind) (c : Compiled) (n : Nat) :
    WatchedWithin W env c n := by
  induction n with
  | zero =>
    exact ⟨fun _ _ _ => .exhausted, fun _ _ _ => .exhausted, fun _ _ _ => .exhausted,
      fun _ _ _ => .exhausted, fun _ _ _ => .exhausted⟩
  | succ n ih =>
    have hhost := env.notedHost_holds henv (env.notedExport_holds ih.invoke)
    refine ⟨fun a func args => ?_, fun a func fp => ?_, fun a func slot => ?_, fun a fp ops => ?_,
      fun a fp op => ?_⟩
    · rw [noted]
      split
      · exact hhost a func args
      · refine .need fun t _ => .attempt (inside_holds ?_ _)
        exact (Watch.Holds.leaving (ih.execute (a + 1) func 0)).bind_quiet fun _ =>
          quiet (fun _ => rfl) fun _ => rfl
    · rw [notedExecute]
      refine .need fun f _ => .seen (quiet (openFrame_shows f fp) fun _ => rfl) fun _ => ?_
      exact (ih.runSeq a fp f.body).andThen fun _ => .pure fun _ => rfl
    · rw [notedCallAt]
      split
      · refine .need fun t _ => .seen (quiet ?_ ?_) fun args => ?_
        · exact ample_arguments ample_shows fun _ _ => trivial
        · exact ample_arguments (keeps_ample _) fun _ _ => trivial
        · exact (hhost a func args).inWorld.andThen fun _ => .of_quiet
            (quiet (ample_setResults ample_shows fun _ _ => trivial)
              (ample_setResults (keeps_ample _) fun _ _ => trivial))
      · exact .attempt (.leaving (ih.execute (a + 1) func slot))
    · cases ops with
      | nil =>
        rw [notedSeq]
        exact .running (.pure fun _ => rfl)
      | cons op ops =>
        rw [notedSeq]
        refine (ih.runOp a fp op).andThen fun flow => ?_
        cases flow with
        | next => exact ih.runSeq a fp ops
        | branch | ret => exact .pure fun _ => rfl
    · rw [notedOp]
      exact .running (notedDispatch_holds (ih.runSeq a fp) (ih.runOp a fp op) (ih.callAt a) fp op)

end Compiled

/-! ### However the module is executed -/

namespace Runtime

/-- **All calls are watched.** -/
theorem noted_holds (env : Env H) (henv : W.raises → ∀ f ∈ env.hosts, f.Blind) (r : Runtime)
    (active bound func : Nat) (args : List Value) :
    W.Holds active (W.back active) (r.noted env bound active func args) := by
  cases r with
  | interpreter => exact (Interpreter.watchedWithin henv bound).invoke active func args
  | compiled c => exact (Compiled.watchedWithin henv c bound).invoke active func args

/-- **All calls are balanced**: they end with the guard that they start with. -/
theorem guard_invoke (r : Runtime) (env : Env H) (bound func : Nat)
    (args : List Value) {w : World H} (hle : w.guard.depth ≤ w.guard.maxDepth)
    (hs : Settled (r.invoke env bound func args w)) :
    (r.invoke env bound func args w).2.guard = w.guard := by
  rw [← r.run_noted env bound w.guard.depth] at hs ⊢
  exact (r.noted_holds (W := .count w.guard.maxDepth) env nofun _ bound func args w rfl hle).ends hs

end Runtime

end WasmEngine
