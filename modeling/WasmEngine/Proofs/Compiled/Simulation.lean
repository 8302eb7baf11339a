import WasmEngine.Proofs.Compiled.Chain
import WasmEngine.Proofs.Compiled.Frames

/-!
# Compiled code mirrors the reference semantics

What compiled code has to do in order to mirror the reference semantics, up to a
bound (`WasmEngine.Compiled.Simulates`), and what follows from that for the
parts of code that run other code: sequences, the bodies of constructs, and
calls of host functions and of functions of the module. The slots hold the
state where code starts (`WasmEngine.Compiled.Holding`) and are left as the
outcome says where it ends (`WasmEngine.Compiled.Lands`).
-/

namespace WasmEngine

open Run Structured

variable {H : Type}

namespace Compiled

open Activation

/-- A function that is compiled, and the scope of its types. -/
structure Scoped (m : Module) (sc : CodeScope) (b : Body) : Prop where
  /-- The module of the scope. -/
  scope : sc.mod = m
  /-- The module of the function. -/
  mod : b.mod = m
  /-- The parameters and locals. -/
  locals : b.locals = sc.locals.length
  /-- The results. -/
  results : sc.results.length = b.results

/-- The same world, whatever the slots. -/
def Alike (l : Logged H) (a : Activation H) : Prop := a.world = l.world

/-- **Where code starts**: the slots hold a state of the right types, and there
is room for all operands to come. -/
structure Holding (b : Body) (sc : CodeScope) (top fp : Nat) (under : List Raw)
    (ts : List ValType) (s : State) (l : Logged H) (a : Activation H) : Prop where
  /-- The state is of the types given. -/
  fits : s.Fits sc ts
  /-- The same world. -/
  world : a.world = l.world
  /-- The slots hold the state. -/
  holds : Holds fp under s a.slots
  /-- There is room up to the greatest height. -/
  room : fp + b.slot top ≤ a.slots.size

/-- **Where code ends**: the slots are left as the outcome says, in the same
world, with what belongs to callers as it was. -/
structure Lands (b : Body) (labels : List Label) (fp : Nat) (under : List Raw)
    (start : Array Raw) (o : Outcome) (l : Logged H) (flow : Flow) (a : Activation H) : Prop where
  /-- The same world. -/
  world : a.world = l.world
  /-- What belongs to callers. -/
  kept : Kept fp start a.slots
  /-- The slots. -/
  leaves : Leaves b labels fp under a.slots o flow

/-- **Compiled code mirrors the reference semantics**, as far as the bound `n`
goes. -/
structure Simulates (env : Env H) (bodies : Nat → Nested) (c : Compiled) (n : Nat) : Prop where
  /-- Sequences. -/
  code : ∀ {b sc top types labels code ts us ops fp under s l a}, Scoped env.mod sc b →
    b.Encloses types labels under.length → b.Emits sc top types labels under.length code ts us ops →
    Holding b sc top fp under ts s l a →
    Mirrors (Lands b labels fp under a.slots) Alike (fun j => runSeq env c j fp ops a) n
      (run env bodies n code s l)
  /-- Loops that start over. -/
  loop : ∀ {b sc top types labels args body ps rs ts ops fp under s l a}, Scoped env.mod sc b →
    b.Encloses types labels under.length → args.type? sc.mod = some (ps, rs) →
    b.Emits sc top (ps :: types) (⟨under.length + ts.length, ps.length⟩ :: labels)
      (under.length + ts.length) body ps.reverse rs.reverse ops →
    Holding b sc top fp under (ps.reverse ++ ts) s l a →
    Mirrors (Lands b labels fp under a.slots) Alike (fun j => runOp env c j fp (.loop ops) a) n
      (run env bodies n (.loop args body .done) s l)
  /-- Functions. -/
  invoke : ∀ {func t args}, env.mod.funcType? func = some t → args.map Value.type = t.params →
    Tracks (fun j => Compiled.invoke env c j func args) n (Structured.invoke env bodies n func args)

section

variable {env : Env H} {bodies : Nat → Nested} {c : Compiled} {n N : Nat} {b : Body}
  {sc : CodeScope} {top fp : Nat} {types : List (List ValType)} {labels : List Label}
  {under : List Raw} {ts us ps rs : List ValType} {s : State} {l : Logged H} {a : Activation H}
  {ops : List Code} {op : Code}

variable {x : Run (Logged H) Outcome} {t : FuncType} {func : Nat}

theorem rising_runSeq (fp : Nat) (ops : List Code) (a : Activation H) :
    Rising fun j => runSeq env c j fp ops a :=
  (chain_runSeq env c fp ops).rising a

theorem rising_runOp (fp : Nat) (op : Code) (a : Activation H) :
    Rising fun j => runOp env c j fp op a :=
  fun j => (rises env c j).runOp fp op a

/-! ### Sequences -/

/-- An operation and what stands behind it. -/
theorem seq_mirrors {k : State → Run (Logged H) Outcome}
    (hx : Mirrors (Lands b labels fp under a.slots) Alike (fun j => runOp env c j fp op a) N (x l))
    (hk : ∀ s' l' a', x l = (.ok (.next s'), l') → Lands b labels fp under a.slots
      (.next s') l' .next a' →
      Mirrors (Lands b labels fp under a'.slots) Alike
        (fun j => runSeq env c j fp ops a') N (k s' l')) :
    Mirrors (Lands b labels fp under a.slots) Alike (fun j => runSeq env c j fp (op :: ops) a) N
      ((x >>= fun o => o.andThen k) l) := by
  refine Mirrors.of_le (Mirrors.succ (n := N) ?_ fun j => congrFun (runSeq_cons env c j fp op ops)
    a) (rising_runSeq fp _ a) (Nat.le_succ N)
  refine hx.bind (rising_runOp fp op a) (fun flow a' => ?_) fun o l' flow a' ho hland => ?_
  · cases flow with
    | next => exact rising_runSeq fp ops a'
    | branch | ret => exact fun _ _ => rfl
  · cases hland.leaves with
    | next h =>
      exact (hk _ l' a' ho hland).mono fun _ _ _ _ h' =>
        ⟨h'.world, hland.kept.trans h'.kept, h'.leaves⟩
    | branch | leave | ret => exact Mirrors.const (Matches.pure hland) N

theorem op_mirrors {α : Type} {R : α → Logged H → Flow → Activation H → Prop}
    {x : Except Halt α × Logged H}
    (h : Mirrors R Alike (fun j => dispatch env c (runSeq env c j fp) (fun _ => runOp env c j fp op)
      (callAt env c j) fp op a) n x) : Mirrors R Alike (fun j => runOp env c j fp op a) (n + 1) x :=
  h.succ fun j => congrFun (runOp_succ env c j fp op) a

/-! ### Constructs -/

/-- Where the body of a construct starts. -/
theorem Holding.split (hh : Holding b sc top fp under (ps.reverse ++ ts) s l a) :
    Holding b sc top fp (s.operands.drop ps.length ++ under) ps.reverse
      { s with operands := s.operands.take ps.length } l a ∧
      (s.operands.drop ps.length ++ under).length = under.length + ts.length := by
  refine ⟨⟨hh.fits.split.1, hh.world, ?_, hh.room⟩, ?_⟩
  · have h := hh.holds
    rwa [Holds, ← List.take_append_drop ps.length s.operands, List.append_assoc] at h
  · rw [List.length_append, hh.fits.split.2, Nat.add_comm]

/-- The body of a construct that does not start over. -/
theorem leave_mirrors {below : List Raw} {base arity : Nat}
    (henc : b.Encloses types labels under.length) (hbase : (below ++ under).length = base)
    (hx : Mirrors (Lands b (⟨base, arity⟩ :: labels) fp (below ++ under) a.slots) Alike
      (fun j => runSeq env c j fp ops a) N (x l)) :
    Mirrors (Lands b labels fp under a.slots) Alike
      (fun j => (runSeq env c j fp ops >>= fun flow => Pure.pure flow.leaveBlock) a) N
      ((x >>= fun o => Pure.pure (o.leave arity below)) l) := by
  subst hbase
  refine hx.bind (rising_runSeq fp ops a) (fun _ _ _ _ => rfl) fun o l' flow a' _ hland => ?_
  exact Mirrors.const (Matches.pure ⟨hland.world, hland.kept, hland.leaves.leaveBlock henc⟩) N

theorem construct_mirrors {args : BlockArgs} {body : State → Run (Logged H) Outcome}
    (hscope : Scoped env.mod sc b) (henc : b.Encloses types labels under.length)
    (htype : args.type? sc.mod = some (ps, rs))
    (hh : Holding b sc top fp under (ps.reverse ++ ts) s l a)
    (hbody : ∀ {under' s'}, under'.length = under.length + ts.length →
      Holding b sc top fp under' ps.reverse s' l a →
      Mirrors (Lands b (⟨under.length + ts.length, rs.length⟩ :: labels) fp under' a.slots) Alike
        (fun j => runSeq env c j fp ops a) N (body s' l)) :
    Mirrors (Lands b labels fp under a.slots) Alike
      (fun j => (runSeq env c j fp ops >>= fun flow => Pure.pure flow.leaveBlock) a) N
        (construct env args s body l) := by
  obtain ⟨hinner, hbase⟩ := hh.split
  simp only [construct, arity_eq (hscope.scope ▸ htype), Run.pure_bind, split_eq hh.fits]
  exact leave_mirrors henc hbase (hbody hbase hinner)

/-- A loop: its body, and the loop again if the body branches to it. -/
theorem loop_mirrors {args : BlockArgs} {body : Nested} {x : State → Run (Logged H) Outcome}
    (hsim : Simulates env bodies c n) (hscope : Scoped env.mod sc b)
    (henc : b.Encloses types labels under.length) (htype : args.type? sc.mod = some (ps, rs))
    (hinner : b.Emits sc top (ps :: types) (⟨under.length + ts.length, ps.length⟩ :: labels)
      (under.length + ts.length) body ps.reverse rs.reverse ops)
    (hh : Holding b sc top fp under (ps.reverse ++ ts) s l a)
    (hfits : ∀ {s' l' o}, s'.Fits sc ps.reverse → x s' l = (.ok o, l') →
      o.Fits sc (ps :: types) rs.reverse)
    (hbody : ∀ {under' s'}, under'.length = under.length + ts.length →
      Holding b sc top fp under' ps.reverse s' l a →
      Mirrors (Lands b (⟨under.length + ts.length, ps.length⟩ :: labels) fp under' a.slots) Alike
        (fun j => runSeq env c j fp ops a) (n + 1) (x s' l)) :
    Mirrors (Lands b labels fp under a.slots) Alike
      (fun j => runOp env c j fp (.loop ops) a) (n + 1)
      ((x { s with operands := s.operands.take ps.length } >>= fun o =>
        o.orRestart ps.length rs.length (s.operands.drop ps.length)
          (run env bodies n (.loop args body .done))) l) := by
  obtain ⟨hinside, hbase⟩ := hh.split
  refine op_mirrors
    (Mirrors.bind ((hbody hbase hinside).of_le (rising_runSeq fp ops a) (Nat.le_succ n))
    (rising_runSeq fp ops a) (fun flow a' => ?_) fun o l' flow a' ho hland => ?_)
  · match flow with
    | .branch 0 => exact rising_runOp fp (.loop ops) a'
    | .branch (d + 1) => exact fun _ _ => rfl
    | .next => exact fun _ _ => rfl
    | .ret => exact fun _ _ => rfl
  · have hleave := (hbase ▸ hland.leaves : Leaves b _ fp _ a'.slots o flow).leaveBlock henc
    match o, flow, hland.leaves, ho, hleave with
    | .branch 0 s', .branch 0, _, ho, .next hholds =>
      -- The operands are those that the loop started with last time, as far as types go.
      obtain ⟨hl, ls, hls, hlen⟩ := hfits hinside.fits ho
      obtain rfl : ps = ls := Option.some.inj hls
      have hfits' : State.Fits sc (ps.reverse ++ ts)
          ⟨s'.locals, s'.operands.take ps.length ++ s.operands.drop ps.length⟩ :=
        ⟨hl, by simp [hh.fits.split.2, hlen]⟩
      have hagain := hsim.loop hscope henc htype hinner
        ⟨hfits', hland.world, hholds, Nat.le_trans hh.room hland.kept.size⟩
      exact hagain.mono fun _ _ _ _ h => ⟨h.world, hland.kept.trans h.kept, h.leaves⟩
    | .next s', .next, _, _, hleave =>
      exact Mirrors.const (Matches.pure ⟨hland.world, hland.kept, hleave⟩) n
    | .branch (d + 1) s', .branch _, .branch _ _, _, hleave =>
      exact Mirrors.const (Matches.pure ⟨hland.world, hland.kept, hleave⟩) n
    | .branch (d + 1) s', .ret, _, _, hleave =>
      exact Mirrors.const (Matches.pure ⟨hland.world, hland.kept, hleave⟩) n
    | .ret s', .ret, _, _, hleave =>
      exact Mirrors.const (Matches.pure ⟨hland.world, hland.kept, hleave⟩) n

/-! ### Calls -/

theorem onWorld_mirrors {α : Type} {y : Nat → Run (World H) α} {x : Run (World H) α}
    (h : Tracks y n x) (hw : a.world = l.world) :
    Mirrors (fun r l' r' a' => r = r' ∧ a' = ⟨a.slots, l'.world⟩) Alike (fun j => onWorld (y j) a) n
      (Logged.onWorld x l) := by
  have key : ∀ {x' : Run (World H) α}, x' l.world = x l.world →
      Matches (fun r l' r' a' => r = r' ∧ a' = ⟨a.slots, l'.world⟩) Alike (Logged.onWorld x l)
        (onWorld x' a) := by
    intro x' hx'
    simp only [Logged.onWorld, onWorld, hw, hx']
    rcases x l.world with ⟨_ | r, w⟩
    · exact ⟨rfl, rfl⟩
    · exact ⟨rfl, rfl⟩
  refine ⟨fun hn => key ?_, fun hx => ?_⟩
  · refine (h.upper l.world ?_).symm
    simp only [onWorld, hw] at hn
    exact hn
  · obtain ⟨j, hj⟩ := h.lower l.world hx
    exact ⟨j, key hj⟩

theorem host_mirrors (hsim : Simulates env bodies c n) (func : Nat) (args : List Value)
    (hw : a.world = l.world) : Mirrors (fun r l' r' a' => r = r' ∧ a' = ⟨a.slots, l'.world⟩) Alike
      (fun j => onWorld (env.callHost (env.callExport (Compiled.invoke env c j)) func args) a) n
      (Logged.onWorld (env.callHost (env.callExport (Structured.invoke env bodies n))
        func args) l) := by
  refine onWorld_mirrors
    (env.callHost_tracks (fun name args j => ?_) (fun name args => ?_) func args) hw
  · exact env.callExport_below (rises env c j).invoke name args
  · exact env.callExport_tracks
      (fun func t args ht hargs => hsim.invoke ht (FuncType.types_of_checkArguments hargs)) name
      args

/-- The slots that a call leaves hold the state after the call. -/
abbrev Returned (fp : Nat) (under : List Raw) (start : Array Raw) (s : State) (l : Logged H)
    (_ : Unit) (a : Activation H) : Prop :=
  Shows fp under start s l.world a

/-- What a body leaves behind that returns at its end: the results of the
function, where its frame starts. -/
theorem Leaves.results {slots : Array Raw} {o : Outcome} {flow : Flow}
    (h : Leaves b [] fp under slots o.returned flow) :
    Row slots fp (o.results b.results).reverse := by
  cases o with
  | next s | ret s =>
    cases h with
    | ret h => exact h
  | branch depth s =>
    cases h with
    | branch hl _ => simp at hl
    | leave _ h => exact h

section

variable {f : Func} {args : List Raw} (hsim : Simulates env bodies c n)
  (hc : Renders env.mod bodies c) (hf : ¬func < env.imported)
  (hfunc : env.mod.funcs[func - env.imported]? = some f) (ht : env.mod.types[f.type]? = some t)
  (hrow : Row a.slots fp args) (hargs : args.length = t.params.length) (hfp : fp ≤ a.slots.size)
  (hw : a.world = l.world)
include hsim hc hf hfunc ht hrow hargs hfp hw

/-- **A function runs in the frame that is put over its arguments**, and leaves
its results there. -/
theorem execute_mirrors :
    Mirrors (fun o l' (_ : Unit) a' => a'.world = l'.world ∧ Kept fp a.slots a'.slots ∧
        Row a'.slots fp (o.results t.results.length).reverse) Alike
        (fun j => execute env c j func fp a) (n + 1)
      (run env bodies n (bodies (func - env.imported))
        ⟨(args ++ List.replicate (t.params.length + f.locals.length - args.length) 0).toArray,
          []⟩ l) := by
  obtain ⟨cf, hcf, hof⟩ := hc.funcs hfunc ht
  obtain ⟨top, hframe, hemits⟩ := hof.body
  obtain ⟨slots, hopen, hkept, hroom, hrow'⟩ := openFrame_row hrow (hargs.trans hof.params.symm)
    (by rw [hof.params, hof.locals]; omega) (by omega) hfp
  have hstep : ∀ j, execute env c (j + 1) func fp a =
      (runSeq env c j fp cf.body >>= fun _ => Pure.pure ()) ⟨slots, a.world⟩ := by
    intro j
    simp only [execute, show c.imported = env.imported from hc.imported, hf, if_false, hcf,
      need_some, Run.pure_bind]
    rw [Run.bind_ok hopen]
  refine Mirrors.succ (n := n) ?_ hstep
  have hcount : t.params.length + f.locals.length - args.length = cf.locals - cf.params := by
    rw [hof.locals, hof.params, hargs]
  have hlen : (args ++ List.replicate (cf.locals - cf.params) (0 : Raw)).length =
      (t.params ++ f.locals).length := by
    simp [hof.locals, hof.params, hargs]
  rw [hcount]
  have hholding : Holding ⟨env.mod, f.code, cf.locals, t.results.length⟩
    ⟨env.mod, t.params ++ f.locals, t.results⟩ top fp []
      [] ⟨(args ++ List.replicate (cf.locals - cf.params) 0).toArray, []⟩ l ⟨slots, a.world⟩ :=
    ⟨⟨by simpa using hlen, rfl⟩, hw, by simpa [Holds] using hrow', by simp only [Body.slot]; omega⟩
  have hcode := hsim.code ⟨rfl, rfl, by rw [hof.locals, List.length_append], rfl⟩
    (.function rfl) hemits hholding
  rw [run_thenRet] at hcode
  exact (Mirrors.map_iff.1 hcode).map_right fun o l' flow a' hland =>
    ⟨hland.world, hkept.trans hland.kept, hland.leaves.results⟩

/-- An active function runs to its end and returns its unit of call depth. -/
theorem finish_mirrors :
    Mirrors (fun rs l' (_ : Unit) a' => a'.world = l'.world ∧ Kept fp a.slots a'.slots ∧
      Row a'.slots fp rs.reverse) Alike
      (fun j => (execute env c j func fp).leaving (fun a => { a with world := a.world.exits 1 }) a)
      (n + 1) (finish (run env bodies n) t.results.length (bodies (func - env.imported))
        (args ++ List.replicate (t.params.length + f.locals.length - args.length) 0).toArray
        l) := by
  refine Mirrors.map_iff.2 (Mirrors.leaving ?_)
  refine ((execute_mirrors hsim hc hf hfunc ht hrow hargs hfp hw).mono ?_).alike ?_
  · rintro o l' _ a' ⟨hw', hkept, hrow'⟩
    exact ⟨congrArg (World.exits 1) hw', hkept, hrow'⟩
  · exact fun l' a' h => congrArg (World.exits 1) h

end

section

variable (hsim : Simulates env bodies c n) (hc : Renders env.mod bodies c)
  (hlocals : b.locals = sc.locals.length) (ht : env.mod.funcType? func = some t)
  (hh : Holding b sc top fp under (t.params.reverse ++ ts) s l a)
include hlocals hh

/-- The arguments of a call are on top of the operands, in a row that
starts where the frame will. -/
theorem Holding.arguments : above fp under s.locals (s.operands.drop t.params.length) =
    fp + b.slot (under.length + ts.length) ∧
    Holds fp under { s with operands := s.operands.drop t.params.length } a.slots ∧
    Row a.slots (fp + b.slot (under.length + ts.length)) (s.operands.take t.params.length).reverse ∧
    (s.operands.take t.params.length).reverse.length = t.params.length := by
  have habove : above fp under s.locals (s.operands.drop t.params.length) =
      fp + b.slot (under.length + ts.length) := by
    rw [above, hh.fits.split.2, hh.fits.1, Body.slot, hlocals]
  obtain ⟨hrest, hargs⟩ :=
    Holds.append_iff.1 ((List.take_append_drop t.params.length s.operands).symm ▸ hh.holds :
    Holds fp under ⟨s.locals, s.operands.take t.params.length ++ s.operands.drop
      t.params.length⟩ a.slots)
  exact ⟨habove, hrest, habove ▸ hargs, by simp [hh.fits.2]⟩

include hsim hc ht

theorem callHost_mirrors (hlinked : env.Linked) (hb : env.mod.Bodies bodies)
    (hf : func < env.imported) (htop : under.length + (t.results.reverse ++ ts).length ≤ top) :
    Mirrors (Returned fp under a.slots) Alike
      (fun j => callAt env c j func (fp + b.slot (under.length + ts.length)) a) n
      (Structured.call env bodies (Structured.invoke env bodies n)
        (run env bodies n) func s l) := by
  have hf' : func < c.imported := hc.imported ▸ hf
  obtain ⟨habove, hrest, hargs, hlen⟩ := hh.arguments hlocals
  have hslot : fp ≤ fp + b.slot (under.length + ts.length) := Nat.le_add_right ..
  have hroom : fp + b.slot (under.length + ts.length) + t.results.length ≤ a.slots.size := by
    have hroom := hh.room
    simp only [List.length_append, List.length_reverse, Body.slot] at htop hroom ⊢
    omega
  generalize fp + b.slot (under.length + ts.length) = slot at *
  have hstep : ∀ j, callAt env c (j + 1) func slot a =
      (onWorld (env.callHost (env.callExport (Compiled.invoke env c j)) func
        (List.zipWith Value.ofRaw t.params (s.operands.take t.params.length).reverse)) >>=
        setResults slot) a := by
    intro j
    simp only [callAt, hf', if_true, hc.types, ht, need_some, Run.pure_bind]
    rw [Run.bind_ok (arguments_eq hargs hlen)]
  refine Mirrors.of_le (Mirrors.succ (n := n) ?_ hstep)
    (fun j => (rises env c j).callAt func slot a) (Nat.le_succ n)
  have hcontract := hlinked.contract
  have hexport := hcontract.callExport_meets (back_run hcontract hb n).invoke
  simp only [Structured.call, hf, if_true, ht, need_some, Run.pure_bind, split_eq hh.fits]
  rw [Run.bind_ok (show Logged.note _ l = (.ok (), _) from rfl)]
  refine Mirrors.bind (host_mirrors hsim func _ hh.world) (fun j => ?_) (fun _ _ _ _ => rfl) ?_
  · exact onWorld_below (env.callHost_below (env.callExport_below (rises env c j).invoke) func _) a
  · rintro results l' _ _ hresults ⟨rfl, rfl⟩
    have hcount : results.length = t.results.length := by
      have htypes :=
        (onWorld_meets (P := fun _ => True) (hcontract.host hf ht hexport _)).of_ok trivial hresults
      simpa using congrArg List.length htypes
    refine Mirrors.const ?_ n
    rw [setResults_eq (a := ⟨a.slots, l'.world⟩) (hcount ▸ hroom)]
    have hrow : Row (writeSlots a.slots slot (results.map Value.toRaw)) slot
        (results.map Value.toRaw).reverse.reverse := by
      rw [List.reverse_reverse]
      exact row_writeSlots (by rwa [List.length_map, hcount])
    refine ⟨rfl, Kept.writeSlots _ _ hslot, ?_⟩
    subst habove
    exact hrest.replace (Kept.writeSlots _ _ (Nat.le_refl _)) hrow

theorem callFunc_mirrors (hf : ¬func < env.imported) (htop : under.length + ts.length ≤ top) :
    Mirrors (Returned fp under a.slots) Alike
      (fun j => callAt env c j func (fp + b.slot (under.length + ts.length)) a) n
      (Structured.call env bodies (Structured.invoke env bodies n)
        (run env bodies n) func s l) := by
  obtain ⟨f, hfunc, htype, hdef⟩ := Env.exists_defined hf ht
  have hf' : ¬func < c.imported := hc.imported ▸ hf
  obtain ⟨habove, hrest, hargs, hlen⟩ := hh.arguments hlocals
  have hslot : fp ≤ fp + b.slot (under.length + ts.length) := Nat.le_add_right ..
  have hfp : fp + b.slot (under.length + ts.length) ≤ a.slots.size := by
    have hroom := hh.room
    simp only [Body.slot] at hroom ⊢
    omega
  generalize fp + b.slot (under.length + ts.length) = slot at *
  have hstep : ∀ j, callAt env c (j + 1) func slot a =
      (onWorld World.enter >>= fun _ => (execute env c j func slot).leaving fun a =>
        { a with world := a.world.exits 1 }) a := by
    intro j
    simp only [callAt, hf', if_false]
  refine Mirrors.of_le (Mirrors.succ (n := n) ?_ hstep)
    (fun j => (rises env c j).callAt func slot a) (Nat.le_succ n)
  simp only [Structured.call, hf, if_false, hdef, need_some, Run.pure_bind, split_eq hh.fits]
  rw [Run.bind_ok (show Logged.note _ l = (.ok (), _) from rfl)]
  simp only [enter, Run.bind_assoc]
  refine Mirrors.bind (onWorld_mirrors (Tracks.const World.enter n) hh.world) (fun _ _ => rfl)
    (fun _ a' j => ?_) ?_
  · exact ((rises env c j).execute func slot).leaving _ a'
  · rintro _ l' _ _ - ⟨rfl, rfl⟩
    have hfinish := finish_mirrors (l := l') (a := ⟨a.slots, l'.world⟩) hsim hc hf hfunc htype
      hargs hlen hfp rfl
    refine Mirrors.map_iff.2 ((hfinish.of_le (fun j => ?_) (Nat.le_succ n)).mono ?_)
    · exact ((rises env c j).execute func slot).leaving _ _
    · rintro results l'' _ a' ⟨hw, hkept, hrow⟩
      subst habove
      exact ⟨hw, hkept.mono hslot, hrest.replace hkept hrow⟩

/-- **A call of a function whose arguments are on top.** -/
theorem call_mirrors (hlinked : env.Linked) (hb : env.mod.Bodies bodies)
    (htop : under.length + (t.results.reverse ++ ts).length ≤ top) :
    Mirrors (Returned fp under a.slots) Alike
      (fun j => callAt env c j func
        (fp + b.slot (under.length + s.operands.length - t.params.length)) a) n
      (Structured.call env bodies (Structured.invoke env bodies n)
        (run env bodies n) func s l) := by
  have hheight : under.length + s.operands.length - t.params.length = under.length + ts.length := by
    have hlen := hh.fits.2
    simp only [List.length_append, List.length_reverse] at hlen
    omega
  rw [hheight]
  by_cases hf : func < env.imported
  · exact callHost_mirrors hsim hc hlocals ht hh hlinked hb hf htop
  · refine callFunc_mirrors hsim hc hlocals ht hh hf ?_
    rw [List.length_append] at htop
    omega

end

end

end Compiled

end WasmEngine
