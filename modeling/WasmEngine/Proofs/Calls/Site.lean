import Mathlib.Logic.Relation
import WasmEngine.Instance
import WasmEngine.Proofs.Interpreter.Until
import WasmEngine.Proofs.Typing.Position
import WasmEngine.Proofs.Values

/-!
# The states that a call goes through

A call is followed through all of its states, whether it comes to an end or not.
A **site** (`WasmEngine.Site`) is what the engine is at: a function that is
about to be called, a host function in its course, the machine of the
interpreter between two steps, or compiled code between two operations. There is
a rule for each way to get from one to the next (`WasmEngine.Site.Next`). They
follow the runs themselves: an operation is gone over with what its run returns,
and gone into as the run of its parts starts.

Words say nothing about types. What the type of a word is depends on the
function it belongs to and on where that function is in its code. The
interpreter has the position but not the number of the function, and compiled
code has neither; so a site keeps what is missing. It has no influence on where
the rules lead.
-/

namespace WasmEngine

variable {H : Type}

/-- Where a compiled function is: its number, where its frame starts, and its
position in the flat code. -/
structure Spot where
  /-- The number of the function. -/
  func : Nat
  /-- Where its frame starts. -/
  fp : Nat
  /-- The position in its flat code. -/
  pos : Nat

/-- Whether nothing is compiled for an instruction. -/
def Instr.isSilent : Instr → Bool
  | .plain .nop | .plain .drop => true
  | _ => false

/-- How far it is from an instruction to the end of the construct that it starts. -/
def Instr.extent : Instr → Nat
  | .block _ stop | .loop _ stop | .cond _ _ stop => stop
  | _ => 0

/-- The code of a function that a module defines. -/
def Module.codeOf (m : Module) (func : Nat) : Array Instr :=
  match m.funcs[func - m.importedCount]? with
  | some f => f.code
  | none => #[]

theorem Module.Owns.codeOf_eq {m : Module} {bodies : Nat → Nested} {func : Nat}
    {sc : CodeScope} {root : Nested} (h : m.Owns bodies func sc root) (hb : m.Bodies bodies) :
    m.codeOf func = root.flatten.toArray := by
  cases h with
  | mk hf ht =>
    rw [Module.codeOf, hf, Nested.flatten_thenRet]
    exact hb.code hf

namespace Spot

variable (m : Module) (s : Spot)

/-- At the instruction that the next operation was compiled from. -/
def skip : Spot :=
  { s with pos := s.pos + (((m.codeOf s.func).toList.drop s.pos).takeWhile Instr.isSilent).length }

section Skip

variable {m s} {i : Instr} (hi : (m.codeOf s.func)[s.pos]? = some i)
include hi

theorem skip_of_silent (hsilent : i.isSilent = true) :
    s.skip m = skip m { s with pos := s.pos + 1 } := by
  obtain ⟨hlt, rfl⟩ := Array.getElem?_eq_some_iff.1 hi
  have hdrop : (m.codeOf s.func).toList.drop s.pos =
      (m.codeOf s.func)[s.pos] :: (m.codeOf s.func).toList.drop (s.pos + 1) :=
    List.drop_eq_getElem_cons (by simpa using hlt)
  simp only [skip, hdrop, List.takeWhile_cons, hsilent, if_true, List.length_cons]
  rw [Nat.add_assoc, Nat.add_comm 1]

theorem skip_of_not_silent (hsilent : i.isSilent = false) : s.skip m = s := by
  obtain ⟨hlt, rfl⟩ := Array.getElem?_eq_some_iff.1 hi
  have hdrop : (m.codeOf s.func).toList.drop s.pos =
      (m.codeOf s.func)[s.pos] :: (m.codeOf s.func).toList.drop (s.pos + 1) :=
    List.drop_eq_getElem_cons (by simpa using hlt)
  simp [skip, hdrop, hsilent]

end Skip

/-- The instruction that the next operation was compiled from. -/
def instr? : Option Instr := (m.codeOf s.func)[(s.skip m).pos]?

/-- At the start of the body of the construct that comes next. -/
def inside : Spot := { s with pos := (s.skip m).pos + 1 }

/-- Behind what comes next, a construct or a plain instruction. -/
def behind : Spot := { s with pos := (s.skip m).pos + (s.instr? m).elim 0 Instr.extent + 1 }

/-- At the start of the alternative of the conditional that comes next; behind
it, if there is none. -/
def otherwise : Spot :=
  match s.instr? m with
  | some (.cond _ alt stop) =>
    { s with pos := (s.skip m).pos + (if alt = 0 then stop else alt) + 1 }
  | _ => s

theorem otherwise_func : (s.otherwise m).func = s.func := by
  rw [otherwise]
  split <;> rfl

theorem otherwise_fp : (s.otherwise m).fp = s.fp := by
  rw [otherwise]
  split <;> rfl

end Spot

/-- The functions of the frames of a machine after a step: one more if the step
calls a function, one less if it returns from one. -/
def Machine.functions (env : Env H) (m : Machine) (w : World H) (m' : Machine)
    (funcs : List Nat) : List Nat :=
  if m.callers.length < m'.callers.length then ((m.nextCall? env w).map Call.func).toList ++ funcs
  else if m'.callers.length < m.callers.length then funcs.tail
  else funcs

/-- An operation calls a function with its arguments from a slot on. -/
inductive Compiled.Calls (c : Compiled) (fp : Nat) (a : Activation H) :
    Code → (func slot : Nat) → Prop
  /-- By its number. -/
  | direct {func args} : Calls c fp a (.call func args) func (fp + args)
  /-- By an entry of a table, which has the type that is asked for. -/
  | indirect {type table slot args func r} : Activation.get (fp + slot) a = (.ok r, a) →
      World.tableFunc table r a.world = (.ok func, a.world) → c.types[func]? = some type →
      Calls c fp a (.callIndirect type table slot args) func (fp + args)

/-- **What the engine is at.** -/
inductive Site (H : Type)
  /-- A function is about to be called. -/
  | call (func : Nat) (args : List Value) (w : World H)
  /-- A host function is in its course. -/
  | host (p : HostProg H) (w : World H)
  /-- The machine is about to take a step; its frames are of these functions,
  the current one first. -/
  | machine (funcs : List Nat) (m : Machine) (w : World H)
  /-- Operations are about to be run in a function; others wait, the innermost
  first. -/
  | code (here : Spot) (outer : List Spot) (ops : List Code) (a : Activation H)

namespace Site

/-- The world at a site. -/
def world : Site H → World H
  | .call _ _ w | .host _ w | .machine _ _ w => w
  | .code _ _ _ a => a.world

open Activation Compiled in
/-- **From one site to the next.** -/
inductive Next (env : Env H) : Runtime → Site H → Site H → Prop
  /-- A host function looks at the world. -/
  | look {r next w} : Next env r (.host (.look next) w) (.host (next w) w)
  /-- It changes its own state. -/
  | setHost {r h next w} : Next env r (.host (.setHost h next) w) (.host next { w with host := h })
  /-- It operates on the memory. -/
  | memory {r op next w x w'} (h : Run.catching (World.onMemory fun m => m.apply op)
    w = (.ok x, w')) : Next env r (.host (.memory op next) w) (.host (next x) w')
  /-- It calls an export. -/
  | reenter {r name args next w func t} (hfunc : env.mod.exportedFunc? name = some func)
    (ht : env.mod.funcType? func = some t)
    (hargs : t.checkArguments args = .ok ()) :
    Next env r (.host (.call name args next) w) (.call func args w)
  /-- The call of the export has ended. -/
  | resume {r name args next w n x w'} (h : Run.catching (env.callExport (r.invoke env n) name args)
    w = (.ok x, w')) : Next env r (.host (.call name args next) w) (.host (next x) w')
  /-- A host function is called. -/
  | host {r func args w f w'} (hfunc : func < env.imported) (hf : env.hosts[func]? = some f)
    (hw : World.enter w = (.ok (), w')) : Next env r (.call func args w) (.host (f.run args) w')
  /-- A function of the module is called, and interpreted. -/
  | start {func args w f t w'} (hf : env.defined? func = some (f, t))
    (hw : World.enter w = (.ok (), w')) :
    Next env .interpreter (.call func args w) (.machine [func] (Machine.start f t args) w')
  /-- The machine takes a step. -/
  | step {funcs m w n m' w'} (h : m.step env (Interpreter.invoke env n) w =
    (.ok (.running m'), w')) :
    Next env .interpreter (.machine funcs m w) (.machine (m.functions env w m' funcs) m' w')
  /-- The machine calls a host function. -/
  | foreign {funcs m w func rs t} (hcall : m.nextCall? env w = some ⟨func, rs⟩)
    (hfunc : func < env.imported) (ht : env.mod.funcType? func = some t) :
    Next env .interpreter (.machine funcs m w) (.call func (List.zipWith Value.ofRaw t.params rs) w)
  /-- A function of the module is called, and compiled. -/
  | launch {c func args w f w'} (hfunc : ¬func < c.imported)
    (hf : c.funcs[func - c.imported]? = some f) (hw : World.enter w = (.ok (), w')) :
    Next env (.compiled c) (.call func args w)
      (.code ⟨func, 0, 0⟩ [] f.body (openFrame f 0 ⟨(args.map Value.toRaw).toArray, w'⟩).2)
  /-- An operation has been run to its end. -/
  | behind {c here outer op ops a n a'} (h : runOp env c n here.fp op a = (.ok .next, a')) :
    Next env (.compiled c) (.code here outer (op :: ops) a)
      (.code (here.behind env.mod) outer ops a')
  /-- The body of a block starts. -/
  | block {c here outer body ops a} :
    Next env (.compiled c) (.code here outer (.block body :: ops) a)
      (.code (here.inside env.mod) outer body a)
  /-- The body of a loop starts. -/
  | loop {c here outer body ops a} :
    Next env (.compiled c) (.code here outer (.loop body :: ops) a)
      (.code (here.inside env.mod) outer body a)
  /-- The body of a loop has branched to the loop. -/
  | again {c here outer body ops a n a'} (h : runSeq env c n here.fp body a =
    (.ok (.branch 0), a')) :
    Next env (.compiled c) (.code here outer (.loop body :: ops) a)
      (.code (here.skip env.mod) outer (.loop body :: ops) a')
  /-- The first arm of a conditional starts. -/
  | yes {c here outer slot yes no ops a r} (hr : get (here.fp + slot) a = (.ok r, a))
    (h : r.isTrue = true) :
    Next env (.compiled c) (.code here outer (.cond slot yes no :: ops) a)
      (.code (here.inside env.mod) outer yes a)
  /-- The other arm of a conditional starts. -/
  | no {c here outer slot yes no ops a r} (hr : get (here.fp + slot) a = (.ok r, a))
    (h : r.isTrue = false) :
    Next env (.compiled c) (.code here outer (.cond slot yes no :: ops) a)
      (.code (here.otherwise env.mod) outer no a)
  /-- An operation calls a function of the module. -/
  | enter {c here outer op ops a func slot f a'} (hcall : c.Calls here.fp a op func slot)
    (hfunc : ¬func < c.imported)
    (hf : c.funcs[func - c.imported]? = some f) (hw : onWorld World.enter a = (.ok (), a')) :
    Next env (.compiled c) (.code here outer (op :: ops) a)
      (.code ⟨func, slot, 0⟩ (here.behind env.mod :: outer) f.body (openFrame f slot a').2)
  /-- An operation calls a host function. -/
  | leave {c here outer op ops a func slot t args} (hcall : c.Calls here.fp a op func slot)
    (hfunc : func < c.imported)
    (ht : c.types[func]? = some t) (hargs : arguments slot t.params a = (.ok args, a)) :
    Next env (.compiled c) (.code here outer (op :: ops) a) (.call func args a.world)

/-- The sites that are reached from a site. -/
def Reaches (env : Env H) (r : Runtime) : Site H → Site H → Prop :=
  Relation.ReflTransGen (Next env r)

end Site

/-! ### What words are like -/

/-- What belongs to a function that is active: its number and position, how many
results of a callee it waits for, and its words. -/
structure Active where
  /-- The number of the function. -/
  func : Nat
  /-- The position in its flat code. -/
  pos : Nat
  /-- The number of results that it waits for, which are counted as operands
  already. -/
  waits : Nat
  /-- Its parameters and locals. -/
  locals : List Raw
  /-- Its operands, the top first. -/
  operands : List Raw

section Carries

variable (V : ValType → Raw → Prop) (m : Module) (bodies : Nat → Nested)

/-- The words of a function meet a condition on the types that they have in its
body. -/
def Active.Carries (x : Active) : Prop :=
  ∃ sc root ts, m.Owns bodies x.func sc root ∧ root.operandsAt? sc [] x.pos = some ts ∧
    List.Forall₂ V sc.locals x.locals ∧ List.Forall₂ V (ts.drop x.waits) x.operands

/-- The active functions of frames that have these operands, where the innermost
waits for so many results. -/
def Frame.actives : (waits : Nat) → (funcs : List Nat) → List Frame → List Raw → List Active
  | waits, func :: funcs, frame :: frames, vs =>
    ⟨func, frame.pc, waits, frame.locals.toList, vs.take (vs.length - frame.valueBase)⟩ ::
      actives frame.results funcs frames (vs.drop (vs.length - frame.valueBase))
  | _, _, _, _ => []

/-- The words in slots meet a condition on the types that they have in the
bodies of functions, where the frame of the innermost ends below a limit and it
waits for so many results. Each frame ends where the next one starts, or
before. -/
def Spot.Carry (slots : Array Raw) : (limit waits : Nat) → List Spot → Prop
  | _, _, [] => True
  | limit, waits, s :: outer =>
    (∃ locals operands, Row slots s.fp (locals ++ operands.reverse) ∧
      s.fp + (locals ++ operands).length ≤ limit ∧
      Active.Carries V m bodies ⟨s.func, s.pos, waits, locals, operands⟩) ∧
    ∃ t, m.funcType? s.func = some t ∧ Carry slots s.fp t.results.length outer

/-- **The words at a site meet a condition on their types**: the globals, and
the locals and operands of all functions that are active. -/
def Site.Carries : Site H → Prop
  | .call _ _ w | .host _ w => w.store.Carries V m
  | .machine funcs x w => w.store.Carries V m ∧ funcs.length = x.callers.length + 1 ∧
    ∀ active ∈ Frame.actives 0 funcs (x.frame :: x.callers) x.values, active.Carries V m bodies
  | .code here outer _ a =>
    a.world.store.Carries V m ∧ Spot.Carry V m bodies a.slots a.slots.size 0 (here :: outer)

end Carries

end WasmEngine
