import WasmEngine.Proofs.Compiled.Simulation

/-!
# Typed code and the operations emitted for it

Every construct of nested code is run by the operations that were emitted for
it: what the operations end in is what the reference semantics ends in, with the
operands where the height says (`WasmEngine.Compiled.exec_mirrors`). Compiled
functions then do what the reference semantics does
(`WasmEngine.Compiled.simulates`), whatever they are called with.

The induction is on the bound of the reference semantics and then on what is
emitted. The bound of the reference semantics goes down only where a function is
called or a loop starts over, and there the bound of compiled code goes down as
well.
-/

namespace WasmEngine

open Run Structured

variable {H : Type}

/-- What is emitted for, is typed. -/
theorem Body.Emits.typed {b : Body} {sc : CodeScope} {top under : Nat} {types : List (List ValType)}
    {labels : List Label} {code : Nested} {ts us : List ValType} {ops : List Code}
    (h : b.Emits sc top types labels under code ts us ops) : code.Typed sc types ts us := by
  induction h with
  | done => exact .done
  | op h _ _ _ ih => exact .plain h ih
  | nothing h _ _ ih => exact .plain h ih
  | last h _ => exact .last h
  | brTable h => exact .brTable h
  | block h _ _ _ ihinner ihnext => exact .block h ihinner ihnext
  | loop h _ _ _ ihinner ihnext => exact .loop h ihinner ihnext
  | cond h _ _ _ ihinner ihnext => exact .cond h ihinner ihnext
  | condElse h _ _ _ _ ihyes ihno ihnext => exact .condElse h ihyes ihno ihnext

/-- A run that nothing is done after. -/
theorem Structured.Outcome.bind_andThen_next {σ : Type} (x : Run σ Outcome) :
    (x >>= fun o => o.andThen fun s => Pure.pure (.next s)) = x := by
  funext s
  rw [Run.bind_apply]
  rcases x s with ⟨_ | _ | _ | _, s'⟩ <;> rfl

namespace Compiled

open Activation

section

variable {env : Env H} {bodies : Nat → Nested} {c : Compiled} {n N : Nat} {b : Body}
  {sc : CodeScope} {top fp : Nat} {types : List (List ValType)} {labels : List Label}
  {under : List Raw} {ts ts' us ps rs : List ValType} {s : State} {l : Logged H} {a : Activation H}
  {ops : List Code} {code : Code} {op : Plain}

/-! ### Plain instructions -/

variable {start : Array Raw} {t : FuncType} {height : Nat} {func : Nat}
  {r : Except Halt Unit × Activation H}

theorem Shows.lands (h : Shows fp under start s l.world a) :
    Lands b labels fp under start (.next s) l .next a :=
  ⟨h.world, h.kept, .next h.holds⟩

/-- Where code goes on after what was in front of it. -/
theorem Lands.holding {s' : State} {l' : Logged H} {a' : Activation H}
    (h : Lands b labels fp under start (.next s') l' .next a') (hfits : s'.Fits sc ts')
    (hroom : fp + b.slot top ≤ start.size) : Holding b sc top fp under ts' s' l' a' := by
  refine ⟨hfits, h.world, ?_, Nat.le_trans hroom h.kept.size⟩
  cases h.leaves with
  | next hholds => exact hholds

/-- The operands all have their slots. -/
theorem Holding.size_le (hh : Holding b sc top fp under ts s l a)
    (hlocals : b.locals = sc.locals.length) :
    fp + b.slot (under.length + s.operands.length) ≤ a.slots.size := by
  have hfp : fp ≤ a.slots.size := Nat.le_trans (Nat.le_add_right _ _) hh.room
  have hsize := Row.add_length_le hh.holds hfp
  rwa [Holds.length_row, hh.fits.1, ← hlocals] at hsize

/-- The top operand, and where code goes on without it. -/
theorem Holding.pop {t : ValType} (hh : Holding b sc top fp under (t :: ts) s l a)
    (hlocals : b.locals = sc.locals.length) :
    ∃ locals v vs, s = ⟨locals, v :: vs⟩ ∧ vs.length = ts.length ∧
    Holding b sc top fp under ts ⟨locals, vs⟩ l a ∧
      get (fp + b.slot (under.length + vs.length)) a = (.ok v, a) := by
  obtain ⟨locals, _ | ⟨v, vs⟩⟩ := s
  · have hlen := hh.fits.2
    simp at hlen
  · have hlen : vs.length = ts.length := by simpa using hh.fits.2
    refine ⟨locals, v, vs, rfl, hlen, ⟨⟨hh.fits.1, hlen⟩, hh.world, hh.holds.pop.2, hh.room⟩, ?_⟩
    exact get_top (hlocals.trans hh.fits.1.symm) hh.holds a.world

/-- A call of the function at an entry of a table. -/
theorem callTable_mirrors {type table : Nat} (hsim : Simulates env bodies c n)
    (hlinked : env.Linked) (hb : env.mod.Bodies bodies) (hc : Renders env.mod bodies c)
    (hlocals : b.locals = sc.locals.length) (ht : env.mod.types[type]? = some t)
    (hh : Holding b sc top fp under (.i32 :: (t.params.reverse ++ ts)) s l a)
    (htop : under.length + (t.results.reverse ++ ts).length ≤ top)
    (seq : Nat → List Code → Run (Activation H) Flow)
    (again : Nat → Unit → Run (Activation H) Flow) :
    Mirrors (fun s' => Lands b labels fp under a.slots (.next s')) Alike
      (fun j => dispatch env c (seq j) (again j) (callAt env c j) fp
        (.callIndirect t table (b.slot (under.length + s.operands.length - 1))
          (b.slot (under.length + s.operands.length - 1 - t.params.length))) a) n
      (Structured.callTable env bodies (Structured.invoke env bodies n) (run env bodies n)
        type table s l) := by
  obtain ⟨locals, index, vs, rfl, -, hrest, hget⟩ := hh.pop hlocals
  have hheight : under.length + (index :: vs).length - 1 = under.length + vs.length := by
    rw [List.length_cons]
    omega
  simp only [dispatch, hheight, Run.bind_ok hget, Structured.callTable,
    Structured.pop, Run.pure_bind]
  refine Mirrors.bind (onWorld_mirrors (Tracks.const (World.tableFunc table index) n) hh.world)
    (fun _ _ => rfl) (fun func a' j => ?_) ?_
  · refine Below.bind (Below.refl _) (fun actual => ?_) a'
    split
    · exact ((rises env c j).callAt func _).bind fun _ => Below.refl _
    · exact Below.refl _
  · rintro func l' _ _ - ⟨rfl, rfl⟩
    simp only [ht, need_some, Run.pure_bind, hc.types]
    rcases hfunc : env.mod.funcType? func with _ | actual
    · refine Mirrors.const ?_ n
      exact ⟨rfl, rfl⟩
    simp only [need_some, Run.pure_bind]
    by_cases hsame : actual = t
    · subst hsame
      have hcall := call_mirrors hsim hc hlocals hfunc
        ⟨hrest.fits, (rfl : (⟨a.slots, l'.world⟩ : Activation H).world = l'.world), hrest.holds,
          hrest.room⟩ hlinked hb htop
      simp only [if_true]
      exact hcall.map_right fun _ _ _ _ h => h.lands
    · simp only [hsame, if_false]
      refine Mirrors.const ?_ n
      exact ⟨rfl, rfl⟩

/-- An operation that neither branches nor calls, in sequence. -/
theorem operate_mirrors
    (h : Matches (fun s' w' (_ : Unit) a' => Shows fp under a.slots s' w' a')
      (fun w' a' => a'.world = w')
      (Structured.operate env op s l.world) (Compiled.operate env.policy fp code a)) (n : Nat) :
    Mirrors (Lands b labels fp under a.slots) Alike
      (fun _ => (Compiled.operate env.policy fp code >>= fun _ => Pure.pure .next) a) n
      ((Logged.onWorld (Structured.operate env op s) >>= fun s' => Pure.pure (.next s')) l) := by
  refine Mirrors.const ?_ n
  rw [Run.bind_apply, Run.bind_apply, Logged.onWorld]
  generalize Structured.operate env op s l.world = x at h ⊢
  generalize Compiled.operate env.policy fp code a = y at h ⊢
  obtain ⟨_ | s', w⟩ := x <;> obtain ⟨_ | _, a'⟩ := y
  · exact h
  · exact h.elim
  · exact h.elim
  · exact Shows.lands (l := ⟨w, l.calls⟩) h

/-- One of two operands is kept: the lower one stays where it is, or the upper
one takes its place. -/
theorem select_matches (env : Env H) {t : ValType}
    (hh : Holding b sc top fp under (.i32 :: t :: t :: ts) s l a)
    (hlocals : b.locals = sc.locals.length)
    (hc : b.emit labels (under.length + s.operands.length) .select = .op code) :
    Matches (fun s' w' (_ : Unit) a' => Shows fp under a.slots s' w' a')
      (fun w' a' => a'.world = w')
      (Structured.operate env .select s l.world) (Compiled.operate env.policy fp code a) := by
  obtain ⟨locals, cond, vs, rfl, -, hh₁, hcond⟩ := hh.pop hlocals
  obtain ⟨_, upper, vs, hs, -, hh₂, hupper⟩ := hh₁.pop hlocals
  obtain ⟨rfl, rfl⟩ := State.mk.inj hs
  obtain ⟨_, lower, vs, hs, -, hh₃, -⟩ := hh₂.pop hlocals
  obtain ⟨rfl, rfl⟩ := State.mk.inj hs
  have hsize := hh₂.size_le hlocals
  simp only [Body.emit, List.length_cons] at hc hsize hcond hupper
  obtain rfl := Emit.op.inj hc
  rw [show under.length + (vs.length + 1 + 1 + 1) - 2 + 1 =
    under.length + (vs.length + 1 + 1) by omega,
    show under.length + (vs.length + 1 + 1 + 1) - 2 = under.length + (vs.length + 1) by omega,
    show under.length + (vs.length + 1) - 1 = under.length + vs.length by omega]
  simp only [Structured.operate, Compiled.operate, Run.bind_ok hcond]
  obtain ⟨slots, w⟩ := a
  obtain rfl : w = l.world := hh.world
  split
  · exact ⟨rfl, Kept.refl fp _, hh₂.holds⟩
  · rw [Run.bind_ok hupper]
    refine set_top (hlocals.trans hh.fits.1.symm) hh₃.holds ?_ upper l.world
    simp only [Body.slot] at hsize ⊢
    omega

/-- A branch to a label whose values are there. -/
theorem jump_lands {ls : List ValType} {depth : Nat} (henc : b.Encloses types labels under.length)
    (hlocals : b.locals = sc.locals.length) (hd : types[depth]? = some ls)
    (hh : Holding b sc top fp under (ls.reverse ++ ts) s l a) :
    Matches (Lands b labels fp under a.slots) Alike
      ((Pure.pure (.branch depth s) : Run (Logged H) Outcome) l)
      (take fp (b.jumpFrom labels (under.length + s.operands.length) depth) a) := by
  have hls : ls.length ≤ s.operands.length := by simp [hh.fits.2]
  obtain ⟨flow, slots, htake, hkept, hleaves⟩ :=
    jump_leaves henc (hlocals.trans hh.fits.1.symm) hd hls hh.holds (hh.size_le hlocals) a.world
  rw [htake]
  exact ⟨hh.world, hkept, hleaves⟩

/-- A return with the results there. -/
theorem return_lands (hscope : Scoped env.mod sc b)
    (hh : Holding b sc top fp under (sc.results.reverse ++ ts) s l a) :
    Matches (Lands b labels fp under a.slots) Alike
      ((Pure.pure (.ret s) : Run (Logged H) Outcome) l)
      (take fp (b.returnFrom (under.length + s.operands.length)) a) := by
  have hresults : b.results ≤ s.operands.length := by simp [hh.fits.2, hscope.results]
  obtain ⟨slots, htake, hkept, hleaves⟩ :=
    return_leaves (hscope.locals.trans hh.fits.1.symm) hresults hh.holds
      (hh.size_le hscope.locals) a.world
  rw [htake]
  exact ⟨hh.world, hkept, hleaves⟩

/-- What a plain instruction with a signature is on both sides, unless it is a
call. -/
theorem plain_emitted (env : Env H) (hop : op.signature? sc = some (ps, rs))
    (hcall : op.isCall = false) (hemit : b.emit labels height op = .op code) :
    (∀ bodies invoke again s, Structured.plain env bodies invoke again op s =
      Logged.onWorld (Structured.operate env op s) >>= fun s' => Pure.pure (.next s')) ∧
    ∀ c seq again call fp, dispatch env c seq again call fp code = Compiled.operate env.policy fp
      code >>= fun _ => Pure.pure .next := by
  cases op with
  | call | callIndirect => simp [Plain.isCall] at hcall
  | nop | drop | unreachable | br | ret => simp [Body.emit] at hemit
  | brIf => simp [Plain.signature?] at hop
  | _ =>
    obtain rfl := Emit.op.inj hemit
    exact ⟨fun _ _ _ _ => rfl, fun _ _ _ _ _ => rfl⟩

/-- **A plain instruction that goes on and the operation that it becomes.** -/
theorem plain_mirrors (hsim : Simulates env bodies c n) (hlinked : env.Linked)
    (hb : env.mod.Bodies bodies) (hc : Renders env.mod bodies c) (hscope : Scoped env.mod sc b)
    (henc : b.Encloses types labels under.length) (hop : op.Typed sc types ts (some ts'))
    (hemit : b.emit labels (under.length + ts.length) op = .op code)
    (htop : under.length + ts'.length ≤ top) (hh : Holding b sc top fp under ts s l a) :
    Mirrors (Lands b labels fp under a.slots) Alike (fun j => runOp env c j fp code a) (n + 1)
      (Structured.plain env bodies (Structured.invoke env bodies n) (run env bodies n) op s l) := by
  refine op_mirrors ?_
  rw [← hh.fits.2] at hemit
  have hlocals := hscope.locals
  cases hop with
  | @sig _ ps rs ts hop =>
    rcases hcall : op.isCall with _ | _
    · obtain ⟨hplain, hdispatch⟩ := plain_emitted env hop hcall hemit
      simp only [hplain, hdispatch]
      refine operate_mirrors ?_ n
      have hroom : fp + b.slot (under.length + (rs.reverse ++ ts).length) ≤ a.slots.size :=
        Nat.le_trans (Nat.add_le_add_left (Nat.add_le_add_left htop _) _) hh.room
      obtain ⟨slots, w⟩ := a
      obtain rfl : w = l.world := hh.world
      exact operate_matches hop hcall hh.fits hlocals hemit hroom hh.holds l.world
    · cases op with
      | call func =>
        simp only [Plain.signature?, hscope.scope, Option.map_eq_some_iff, Prod.mk.injEq] at hop
        obtain ⟨t, ht, rfl, rfl⟩ := hop
        simp only [Body.emit, hscope.mod, ht] at hemit
        obtain rfl := Emit.op.inj hemit
        refine Mirrors.map_iff.2 ((call_mirrors hsim hc hlocals ht hh hlinked hb htop).map_right ?_)
        exact fun _ _ _ _ h => h.lands
      | callIndirect type table =>
        simp only [Plain.signature?, hscope.scope, Option.ite_none_right_eq_some,
          Option.map_eq_some_iff, Prod.mk.injEq] at hop
        obtain ⟨-, t, ht, rfl, rfl⟩ := hop
        simp only [Body.emit, hscope.mod, ht] at hemit
        obtain rfl := Emit.op.inj hemit
        rw [List.reverse_append, List.reverse_singleton, List.singleton_append,
          List.cons_append] at hh
        exact Mirrors.map_iff.2 (callTable_mirrors hsim hlinked hb hc hlocals ht hh htop _ _)
      | _ => simp [Plain.isCall] at hcall
  | drop => simp [Body.emit] at hemit
  | select =>
    obtain rfl := Emit.op.inj hemit
    exact operate_mirrors (select_matches env hh hlocals hemit) n
  | @brIf depth ls ts hd =>
    obtain ⟨locals, cond, vs, rfl, -, hrest, hget⟩ := hh.pop hlocals
    rw [List.length_cons, ← Nat.add_assoc] at hemit
    obtain rfl := Emit.op.inj hemit
    simp only [dispatch, Structured.plain, Structured.pop, Run.pure_bind,
      Nat.add_sub_cancel, Run.bind_ok hget]
    refine Mirrors.const ?_ n
    split
    · exact jump_lands henc hlocals hd hrest
    · exact ⟨hh.world, Kept.refl fp _, .next hrest.holds⟩

/-- **A plain instruction that does not go on.** -/
theorem last_mirrors (hscope : Scoped env.mod sc b) (henc : b.Encloses types labels under.length)
    (hop : op.Typed sc types ts none)
    (hemit : b.emit labels (under.length + ts.length) op = .last code)
    (hh : Holding b sc top fp under ts s l a)
    (invoke : Nat → List Value → Run (World H) (List Value))
    (again : Nested → State → Run (Logged H) Outcome) :
    Mirrors (Lands b labels fp under a.slots) Alike (fun j => runOp env c j fp code a) (n + 1)
      (Structured.plain env bodies invoke again op s l) := by
  refine op_mirrors ?_
  rw [← hh.fits.2] at hemit
  cases hop with
  | br hd =>
    obtain rfl := Emit.last.inj hemit
    exact Mirrors.const (jump_lands henc hscope.locals hd hh) n
  | ret =>
    obtain rfl := Emit.last.inj hemit
    exact Mirrors.const (return_lands hscope hh) n
  | unreachable =>
    obtain rfl := Emit.last.inj hemit
    refine Mirrors.const ?_ n
    exact ⟨rfl, hh.world⟩

theorem last_ne_next (hop : op.Typed sc types ts none)
    (invoke : Nat → List Value → Run (World H) (List Value))
    (again : Nested → State → Run (Logged H) Outcome) (s s' : State) (l l' : Logged H) :
    Structured.plain env bodies invoke again op s l ≠ (.ok (.next s'), l') := by
  cases hop <;> rintro ⟨⟩

/-! ### Sequences -/

theorem Holding.lands (hh : Holding b sc top fp under ts s l a) :
    Lands b labels fp under a.slots (.next s) l .next a :=
  ⟨hh.world, Kept.refl fp _, .next hh.holds⟩

/-- Where there is nothing to do. -/
theorem nil_mirrors (h : Lands b labels fp under a.slots (.next s) l .next a) (n : Nat) :
    Mirrors (fun o l' flow a' => flow = .next ∧ Lands b labels fp under a.slots o l' flow a') Alike
      (fun j => runSeq env c j fp [] a) (n + 1)
        ((Pure.pure (.next s) : Run (Logged H) Outcome) l) := by
  refine Mirrors.succ (Mirrors.const ?_ n) fun j => congrFun (runSeq_nil env c j fp) a
  exact Matches.pure ⟨rfl, h⟩

/-- A conditional runs one of its parts. -/
theorem cond_mirrors {slot : Nat} {r : Raw} {yes no : List Code}
    {x : Except Halt Outcome × Logged H} (hget : get (fp + slot) a = (.ok r, a))
    (h : Mirrors (Lands b labels fp under a.slots) Alike
      (fun j => (runSeq env c j fp (if r.isTrue then yes else no) >>= fun flow =>
        Pure.pure flow.leaveBlock) a) n x) :
    Mirrors (Lands b labels fp under a.slots) Alike
      (fun j => runOp env c j fp (.cond slot yes no) a) (n + 1) x := by
  refine op_mirrors ?_
  simp only [dispatch, Run.bind_ok hget]
  exact h

/-- The instructions without an operation. -/
theorem nothing_cases {m : Module} (hop : op.Typed sc types ts (some ts')) (hscope : Scoped m sc b)
    (hemit : b.emit labels height op = .nothing) : op = .nop ∧ ts' = ts ∨ op = .drop ∧
    ∃ t, ts = t :: ts' := by
  cases hop with
  | @sig _ ps rs ts hop =>
    cases op with
    | nop =>
      obtain ⟨rfl, rfl⟩ := Prod.mk.inj (Option.some.inj hop)
      exact .inl ⟨rfl, rfl⟩
    | call func =>
      simp only [Plain.signature?, hscope.scope, Option.map_eq_some_iff] at hop
      obtain ⟨t, ht, -⟩ := hop
      simp [Body.emit, hscope.mod, ht] at hemit
    | callIndirect type table =>
      simp only [Plain.signature?, hscope.scope, Option.ite_none_right_eq_some,
        Option.map_eq_some_iff] at hop
      obtain ⟨-, t, ht, -⟩ := hop
      simp [Body.emit, hscope.mod, ht] at hemit
    | drop => simp [Plain.signature?] at hop
    | _ => simp [Body.emit] at hemit
  | drop => exact .inr ⟨rfl, _, rfl⟩
  | select | brIf => simp [Body.emit] at hemit

/-- An instruction without an operation changes no more than the operands. -/
theorem nothing_holding (hop : op.Typed sc types ts (some ts')) (hscope : Scoped env.mod sc b)
    (hemit : b.emit labels (under.length + ts.length) op = .nothing)
    (hh : Holding b sc top fp under ts s l a)
    (invoke : Nat → List Value → Run (World H) (List Value))
    (again : Nested → State → Run (Logged H) Outcome) :
    ∃ s', Structured.plain env bodies invoke again op s l = (.ok (.next s'), l) ∧
    Holding b sc top fp under ts' s' l a := by
  rcases nothing_cases hop hscope hemit with ⟨rfl, rfl⟩ | ⟨rfl, t, rfl⟩
  · exact ⟨s, rfl, hh⟩
  · obtain ⟨locals, v, vs, rfl, -, hrest, -⟩ := hh.pop hscope.locals
    exact ⟨⟨locals, vs⟩, rfl, hrest⟩

/-- The operands behind a construct whose body leaves what its type says. -/
theorem construct_fits (types : List (List ValType)) {args : BlockArgs}
    {body : State → Run (Logged H) Outcome} {s' : State} {l' : Logged H} (hsc : sc.mod = env.mod)
    (htype : args.type? sc.mod = some (ps, rs)) (hfits : s.Fits sc (ps.reverse ++ ts))
    (hs' : construct env args s body l = (.ok (.next s'), l'))
    (hbody : ∀ s', State.Fits sc ps.reverse s' →
      Meets (fun _ : Logged H => True) (fun _ => True) (Outcome.Fits sc (rs :: types) rs.reverse)
        (body s')) :
    s'.Fits sc (rs.reverse ++ ts) :=
  (construct_meets (P := fun _ => True) hsc htype hfits hbody).of_ok trivial hs'

/-- **The operations that are emitted for typed code do what the code means**,
as far as nothing runs again. -/
theorem exec_mirrors {code : Nested} (hsim : Simulates env bodies c n) (hlinked : env.Linked)
    (hb : env.mod.Bodies bodies) (hc : Renders env.mod bodies c) (hscope : Scoped env.mod sc b)
    (henc : b.Encloses types labels height) (hheight : under.length = height)
    (hemits : b.Emits sc top types labels height code ts us ops)
    (hh : Holding b sc top fp under ts s l a) :
    Mirrors (Lands b labels fp under a.slots) Alike (fun j => runSeq env c j fp ops a) (n + 1)
      (exec env bodies (Structured.invoke env bodies n) (run env bodies n) code s l) := by
  have hcontract := hlinked.contract
  have hback := back_run hcontract hb n
  have hsc := hscope.scope
  have hlocals := hscope.locals
  induction hemits generalizing under s l a with
  | done =>
    exact (nil_mirrors hh.lands n).mono fun _ _ _ _ h => h.2
  | op hop hemit htop _ ih =>
    subst hheight
    refine seq_mirrors (plain_mirrors hsim hlinked hb hc hscope henc hop hemit htop hh)
      fun s' l' a' hs' hland => ?_
    have hfits := (plain_meets hcontract hb hback hsc hop hh.fits).of_ok trivial hs' _ fun _ h =>
      (Option.some.inj h).symm
    exact ih henc rfl (hland.holding hfits hh.room)
  | nothing hop hemit _ ih =>
    subst hheight
    obtain ⟨s', hs', hh'⟩ := nothing_holding hop hscope hemit hh (Structured.invoke env bodies n)
      (run env bodies n)
    rw [exec, Run.bind_ok hs']
    exact ih henc rfl hh'
  | last hop hemit =>
    subst hheight
    refine seq_mirrors (last_mirrors hscope henc hop hemit hh _ _) fun s' l' a' hs' _ => ?_
    exact absurd hs' (last_ne_next hop _ _ s s' l l')
  | @brTable types labels height targets default next ts us hd =>
    subst hheight
    obtain ⟨locals, r, vs, rfl, hlen, hrest, hget⟩ := hh.pop hlocals
    -- the branch that is taken is one of the table or the default
    have htarget : ∃ ls rest, types[targets[r.low.toNat]?.getD default]? = some ls ∧
        ts = ls.reverse ++ rest := by
      refine hd _ ?_
      cases htarget : targets[r.low.toNat]? with
      | none => simp
      | some d => simp [List.mem_of_getElem? htarget]
    obtain ⟨ls, rest, hls, rfl⟩ := htarget
    rw [← hlen]
    refine seq_mirrors (x := Pure.pure (.branch (targets[r.low.toNat]?.getD default) ⟨locals, vs⟩))
      (op_mirrors ?_) (k := fun s => Pure.pure (.next s)) ?_
    · simp only [dispatch, Run.bind_ok hget, List.getElem?_map, Option.getD_map]
      exact Mirrors.const (jump_lands henc hlocals hls hrest) n
    · rintro s' l' a' ⟨⟩
  | @block types labels height args body next ps rs ts us ops rest htype htop hinner
    hbehind ihinner ihnext =>
    subst hheight
    refine seq_mirrors (op_mirrors ?_) fun s' l' a' hs' hland => ?_
    · refine construct_mirrors hscope henc htype hh fun {under' s'} hunder hh' => ?_
      exact (ihinner (.construct henc (Nat.le_add_right _ _) rfl) hunder hh').of_le
        (rising_runSeq fp ops a) (Nat.le_succ n)
    · refine ihnext henc rfl
        (hland.holding (construct_fits types hsc htype hh.fits hs' fun s'' hs'' => ?_) hh.room)
      exact exec_meets hcontract hb hback hsc hinner.typed hs''
  | @loop types labels height args body next ps rs ts us ops rest htype htop hinner
    hbehind ihinner ihnext =>
    subst hheight
    have hbody := fun {s'} => exec_meets (s := s') hcontract hb hback hsc hinner.typed
    have hmeets := (hbody hh.fits.split.1).bind fun o ho => orRestart_meets hback hsc htype
      hinner.typed ho hh.fits.split.2
    simp only [exec, arity_eq (hsc ▸ htype), Run.pure_bind, split_eq hh.fits]
    rw [← Run.bind_assoc]
    refine seq_mirrors
      (loop_mirrors hsim hscope henc htype hinner hh ?_ fun {under' s'} hunder hh' => ?_)
      fun s' l' a' hs' hland => ?_
    · exact fun hs' ho => (hbody hs').of_ok trivial ho
    · exact ihinner (.construct henc (Nat.le_add_right _ _) rfl) hunder hh'
    · exact ihnext henc rfl (hland.holding (hmeets.of_ok trivial hs') hh.room)
  | @cond types labels height args body next ps ts us ops rest htype htop hinner
    hbehind ihinner ihnext =>
    subst hheight
    obtain ⟨locals, r, vs, rfl, hlen, hrest, hget⟩ := hh.pop hlocals
    rw [List.length_append, List.length_reverse] at hlen
    rw [← hlen]
    simp only [exec, Structured.pop, Run.pure_bind]
    by_cases hr : r.isTrue
    · simp only [hr, if_true]
      refine seq_mirrors (cond_mirrors hget ?_) fun s' l' a' hs' hland => ?_
      · simp only [hr, if_true]
        refine construct_mirrors hscope henc htype hrest fun {under' s'} hunder hh' => ?_
        exact (ihinner (.construct henc (Nat.le_add_right _ _) rfl) hunder hh').of_le
          (rising_runSeq fp ops a) (Nat.le_succ n)
      · refine ihnext henc rfl
          (hland.holding (construct_fits types hsc htype hrest.fits hs' fun s'' hs'' => ?_) hh.room)
        exact exec_meets hcontract hb hback hsc hinner.typed hs''
    · simp only [hr]
      refine seq_mirrors (x := Pure.pure (.next ⟨locals, vs⟩)) (cond_mirrors hget ?_)
        fun s' l' a' hs' hland => ?_
      · rw [if_neg hr]
        have hland : Lands b labels fp under a.slots (.next ⟨locals, vs⟩) l .next a := hrest.lands
        refine ((nil_mirrors hland n).of_le (rising_runSeq fp [] a) (Nat.le_succ n)).map_right ?_
        rintro o l' flow a' ⟨rfl, h⟩
        exact h
      · cases hs'
        exact ihnext henc rfl (hland.holding hrest.fits hh.room)
  | @condElse types labels height args body alt next ps rs ts us yes no rest htype htop hinner
    hother hbehind ihyes ihno ihnext =>
    subst hheight
    obtain ⟨locals, r, vs, rfl, hlen, hrest, hget⟩ := hh.pop hlocals
    rw [List.length_append, List.length_reverse] at hlen
    rw [← hlen]
    simp only [exec, Structured.pop, Run.pure_bind]
    refine seq_mirrors (cond_mirrors hget ?_) fun s' l' a' hs' hland => ?_
    · refine construct_mirrors hscope henc htype hrest fun {under' s'} hunder hh' => ?_
      have hlabel := Body.Encloses.construct henc (Nat.le_add_right under.length ts.length)
        (rfl : rs.length = rs.length)
      split
      · exact (ihyes hlabel hunder hh').of_le (rising_runSeq fp yes a) (Nat.le_succ n)
      · exact (ihno hlabel hunder hh').of_le (rising_runSeq fp no a) (Nat.le_succ n)
    · refine ihnext henc rfl
        (hland.holding (construct_fits types hsc htype hrest.fits hs' fun s'' hs'' => ?_) hh.room)
      split
      · exact exec_meets hcontract hb hback hsc hinner.typed hs''
      · exact exec_meets hcontract hb hback hsc hother.typed hs''

/-! ### Functions -/

/-- The results of a function that start a row of slots. -/
theorem zipWith_of_row {slots : Array Raw} {values : List Raw} {types : List ValType}
    (h : Row slots 0 values) (hlen : values.length = types.length) :
    List.zipWith Value.ofRaw types slots.toList = List.zipWith Value.ofRaw types values := by
  refine List.ext_getElem? fun k => ?_
  rw [List.getElem?_zipWith, List.getElem?_zipWith]
  by_cases hk : k < values.length
  · have hslot : slots.toList[k]? =
      values[k]? := by rw [Array.getElem?_toList, ← h k hk, Nat.zero_add]
    rw [hslot]
  · have hnone : types[k]? = none := List.getElem?_eq_none (by omega)
    rw [hnone]

/-- What is made of a function that ran in a frame of its own: its results, or
its error. -/
def invoked (func : Nat) (t : FuncType) : Except Halt Unit × Activation H →
    Except Halt (List Value) × World H
  | (.ok (), a) =>
    if a.slots.size < t.results.length then (.error (.error (.fault (.lostResults func))), a.world)
    else (.ok (List.zipWith Value.ofRaw t.results a.slots.toList), a.world)
  | (.error h, a) => (.error h, a.world)

theorem settled_of_invoked (h : Settled (invoked func t r)) : Settled r := by
  obtain ⟨e | _, a⟩ := r
  · exact fun he => h (congrArg Except.error (Except.error.inj he))
  · exact settled_ok _ _

theorem invoked_matches {x : Except Halt (List Raw) × Logged H}
    (h : Matches (fun rs l' (_ : Unit) a' => a'.world = l'.world ∧ Kept 0 start a'.slots ∧
      Row a'.slots 0 rs.reverse) Alike x r)
    (hcount : ∀ rs, x.1 = .ok rs → rs.length = t.results.length) :
    Matches (fun rs w rs' w' => rs = rs' ∧ w = w') Eq
      (x.1.map fun rs => List.zipWith Value.ofRaw t.results rs.reverse, x.2.world)
        (invoked func t r) := by
  obtain ⟨e | rs, l⟩ := x <;> obtain ⟨e' | _, a⟩ := r
  · exact ⟨h.1, h.2.symm⟩
  · exact h.elim
  · exact h.elim
  · obtain ⟨hw, -, hrow⟩ := h
    have hlen : rs.reverse.length = t.results.length := by rw [List.length_reverse, hcount rs rfl]
    have hsize := hrow.add_length_le (Nat.zero_le _)
    rw [invoked, if_neg (by omega)]
    exact ⟨(zipWith_of_row hrow hlen).symm, hw.symm⟩

theorem invoke_eq (hc : Renders env.mod bodies c) (hf : ¬func < env.imported)
    (ht : env.mod.funcType? func = some t) (args : List Value) (j : Nat) :
    Compiled.invoke env c (j + 1) func args = World.enter >>= fun _ w => invoked func t
      ((execute env c j func 0).leaving (fun a => { a with world := a.world.exits 1 })
        ⟨(args.map Value.toRaw).toArray, w⟩) := by
  have hf' : ¬func < c.imported := hc.imported ▸ hf
  simp only [Compiled.invoke, hf', if_false, hc.types, ht, need_some, Run.pure_bind]
  refine congrArg _ (funext fun _ => funext fun w => ?_)
  rw [Run.leaving]
  rcases execute env c j func 0 ⟨(args.map Value.toRaw).toArray, w⟩ with ⟨_ | _, a⟩ <;> rfl

/-- A function of the module that is called from outside. -/
theorem invoke_tracks_succ {args : List Value} (hsim : Simulates env bodies c n)
    (hlinked : env.Linked) (hb : env.mod.Bodies bodies) (hc : Renders env.mod bodies c)
    (hf : ¬func < env.imported) (ht : env.mod.funcType? func = some t)
    (hargs : args.map Value.type = t.params) :
    Tracks (fun j => Compiled.invoke env c j func args) (n + 1)
      (Structured.invoke env bodies (n + 1) func args) := by
  obtain ⟨f, hfunc, htype, hdef⟩ := Env.exists_defined hf ht
  have hlen : (args.map Value.toRaw).length = t.params.length := by
    rw [List.length_map, ← hargs, List.length_map]
  refine Tracks.succ (invoke_eq hc hf ht args) ?_
  simp only [Structured.invoke, hf, if_false, hdef, need_some, Run.pure_bind, enter,
    Logged.apart_onWorld_bind, Run.bind_assoc]
  refine Tracks.bind (fun _ => Below.refl _) (fun _ j w => ?_) (Tracks.const _ n) fun _ =>
    Tracks.of_mirrors fun w => ?_
  · intro hsettled
    have hbelow :=
      ((rises env c j).execute func 0).leaving (fun a => { a with world := a.world.exits 1 })
    exact congrArg (invoked func t) (hbelow _ (settled_of_invoked hsettled))
  · have hfinish :=
      (finish_mirrors (l := ⟨w, []⟩) (a := ⟨(args.map Value.toRaw).toArray, w⟩)
        hsim hc hf hfunc htype
      row_toArray hlen (Nat.zero_le _) rfl).of_le (fun j => ((rises env c j).execute func 0).leaving
        _ _) (Nat.le_succ n)
    generalize hlocals : (args.map Value.toRaw ++ List.replicate _ (0 : Raw)).toArray =
      locals at hfinish ⊢
    have hsize : locals.size = t.params.length + f.locals.length := by
      rw [← hlocals, List.size_toArray, List.length_append, List.length_replicate]
      omega
    have hcount :
      ∀ rs, (finish (run env bodies n) t.results.length (bodies (func - env.imported)) locals
        ⟨w, []⟩).1 = .ok rs →
        rs.length = t.results.length := fun rs hrs =>
      (finish_meets hb (back_run hlinked.contract hb n) hfunc htype hsize).of_ok trivial
        (Prod.ext hrs rfl)
    rw [Logged.apart_bind_pure_apply]
    refine ⟨fun hn => invoked_matches (hfinish.upper (settled_of_invoked hn)) hcount, fun hx => ?_⟩
    obtain ⟨j, hj⟩ := hfinish.lower fun he => hx (by rw [he]; rfl)
    exact ⟨j, invoked_matches hj hcount⟩

/-- **Compiled functions do what the reference semantics does**, whatever the
bound. -/
theorem simulates (hlinked : env.Linked) (hb : env.mod.Bodies bodies)
    (hc : Renders env.mod bodies c) (n : Nat) : Simulates env bodies c n := by
  induction n with
  | zero =>
    refine ⟨fun _ _ _ _ => Mirrors.exhausted ?_, fun _ _ _ _ _ => Mirrors.exhausted
      ?_, fun _ _ => ?_⟩
    · simp [runSeq]
    · simp [runOp]
    · refine ⟨?_, fun w hw => absurd hw (not_settled_exhausted w)⟩
      rw [Compiled.invoke]
      exact below_of_exhausted _
  | succ n ih =>
    refine ⟨fun hscope henc hemits hh => exec_mirrors ih hlinked hb hc hscope henc rfl hemits hh,
      fun {b sc top types labels args body ps rs ts ops fp under s l a} hscope henc
        htype hinner hh => ?_,
      fun {func t args} ht hargs => ?_⟩
    · have hcontract := hlinked.contract
      have hback := back_run hcontract hb n
      simp only [run, exec, arity_eq (hscope.scope ▸ htype), Run.pure_bind, split_eq hh.fits,
        Outcome.bind_andThen_next]
      refine loop_mirrors ih hscope henc htype hinner hh ?_ fun {under' s'} hunder hh' => ?_
      · exact fun hs' ho =>
          (exec_meets hcontract hb hback hscope.scope hinner.typed hs').of_ok trivial ho
      · exact exec_mirrors ih hlinked hb hc hscope (.construct henc (Nat.le_add_right _ _) rfl)
          hunder hinner hh'
    · by_cases hf : func < env.imported
      · have hf' : func < c.imported := hc.imported ▸ hf
        simp only [Structured.invoke, hf, if_true]
        refine Tracks.succ (fun j => by simp only [Compiled.invoke, hf', if_true]; rfl)
          (env.callHost_tracks (fun name args j => ?_) (fun name args => ?_) func args)
        · exact env.callExport_below (rises env c j).invoke name args
        · exact env.callExport_tracks
            (fun func t args ht hargs => ih.invoke ht (FuncType.types_of_checkArguments hargs))
            name args
      · exact invoke_tracks_succ ih hlinked hb hc hf ht hargs

end

end Compiled

end WasmEngine
