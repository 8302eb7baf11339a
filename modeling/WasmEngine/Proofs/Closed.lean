import WasmEngine.Compiled
import WasmEngine.Interpreter
import WasmEngine.Proofs.Bounded

/-!
# What instructions are made of

Some things are true of two runs as soon as they are true of their parts: that
one shows the other, or that one is below the other. Others are true of a single
run: that it leaves something alone, or that it cannot be exhausted. For a
relation of runs that is **closed** in this sense (`WasmEngine.Run.Closed`) and
contains what instructions do to the world, every instruction without calls is
related to itself, those of the interpreter (`WasmEngine.Machine.ample_operate`)
and those of compiled code (`WasmEngine.Activation.ample_operate`). A kind of
single runs is taken for a relation that looks at the first run only
(`WasmEngine.Run.Only`).

An operation of compiled code gets at slots only where it names them
(`WasmEngine.Code.slots`), so it is enough if the relation contains what is done
to these.
-/

namespace WasmEngine

variable {σ τ : Type}

namespace Run

/-- **A relation of runs that is closed**: runs that end at once are related to
themselves, and runs after others are if both parts are. -/
structure Closed (R : ∀ {α : Type}, Run σ α → Run τ α → Prop) : Prop where
  pure : ∀ {α : Type} (a : α), R (Pure.pure a) (Pure.pure a)
  fail : ∀ {α : Type} (e : Error), R (Run.fail e : Run σ α) (Run.fail e)
  bind : ∀ {α β : Type} {x : Run σ α} {y : Run τ α} {f : α → Run σ β} {g : α → Run τ β},
    R x y → (∀ a, R (f a) (g a)) → R (x >>= f) (y >>= g)

/-- A kind of runs, taken for a relation that looks at the first run only. -/
abbrev Only (K : ∀ {α : Type}, Run σ α → Prop) {α : Type} (x _ : Run σ α) : Prop := K x

namespace Closed

variable {R : ∀ {α : Type}, Run σ α → Run τ α → Prop} (hR : Closed R) {α : Type}
include hR

theorem need (e : Fault) (x : Option α) : R (Run.need e x) (Run.need e x) := by
  cases x with
  | none => exact hR.fail _
  | some a => exact hR.pure a

theorem ofExcept (x : Except Error α) : R (Run.ofExcept x) (Run.ofExcept x) := by
  cases x with
  | error e => exact hR.fail e
  | ok a => exact hR.pure a

theorem ofTrap (x : Except Trap α) : R (Run.ofTrap x) (Run.ofTrap x) := by
  cases x with
  | error t => exact hR.fail _
  | ok a => exact hR.pure a

omit hR in
theorem ite {c : Prop} [Decidable c] {x x' : Run σ α} {y y' : Run τ α}
    (hx : R x y) (hx' : R x' y') : R (if c then x else x') (if c then y else y') := by
  split
  · exact hx
  · exact hx'

end Closed

end Run

open Run

variable {G H : Type}

/-- A closed relation of runs that contains what instructions do to the world. -/
structure World.Ample (R : ∀ {α : Type}, Run (World G) α → Run (World H) α → Prop) :
    Prop extends Closed R where
  see : ∀ {α : Type} (g : Store → Except Error α), R (seeStore g) (seeStore g)
  setGlobal : ∀ i r, R (setGlobal i r) (setGlobal i r)
  storeValue : ∀ op arg base value, R (storeValue op arg base value) (storeValue op arg base value)
  memoryGrow : ∀ delta, R (memoryGrow delta) (memoryGrow delta)
  memoryCopy : ∀ dst src len, R (memoryCopy dst src len) (memoryCopy dst src len)
  memoryFill : ∀ dst value len, R (memoryFill dst value len) (memoryFill dst value len)

/-- Environments that differ in their host functions at most. -/
structure Env.Alike (env : Env G) (env' : Env H) : Prop where
  /-- The modules are the same. -/
  mod : env.mod = env'.mod
  /-- The float policies are the same. -/
  policy : env.policy = env'.policy

theorem Env.Alike.refl (env : Env H) : env.Alike env := ⟨rfl, rfl⟩

/-! ### The interpreter -/

namespace Machine

variable {R : ∀ {α : Type}, Run (World G) α → Run (World H) α → Prop} {env : Env G}
  {env' : Env H} (m : Machine)

section Closed

variable (hR : Closed R)
include hR

theorem closed_pop (vs : List Raw) : R (pop vs) (pop vs) := by
  cases vs with
  | nil => exact hR.fail _
  | cons v vs => exact hR.pure _

theorem closed_popMany (n : Nat) (vs : List Raw) : R (popMany n vs) (popMany n vs) := by
  rw [popMany, popMany]
  exact Closed.ite (hR.fail _) (hR.pure _)

theorem closed_tableLabel (default count : Nat) :
    R (tableLabel m default count) (tableLabel m default count) := by
  refine Closed.ite (hR.fail _) (hR.bind (closed_pop hR _) fun p => Closed.ite ?_ (hR.pure _))
  split
  · exact hR.pure _
  · exact hR.fail _

variable (henv : env.Alike env')
include henv

theorem closed_enterBlock (args : BlockArgs) (start stop : Nat) (isLoop : Bool) :
    R (enterBlock env m args start stop isLoop) (enterBlock env' m args start stop isLoop) := by
  refine hR.bind ?_ fun p => hR.need _ _
  cases args with
  | empty | value => exact hR.pure _
  | func i =>
    rw [arity, arity, henv.mod]
    exact hR.bind (hR.need _ _) fun _ => hR.pure _

theorem closed_enterCond (args : BlockArgs) (alt stop : Nat) :
    R (enterCond env m args alt stop) (enterCond env' m args alt stop) := by
  refine hR.bind (closed_pop hR _) fun p => Closed.ite (closed_enterBlock _ hR henv _ _ _ _) ?_
  exact Closed.ite (hR.pure _) (closed_enterBlock _ hR henv _ _ _ _)

end Closed

/-- **Plain instructions of the interpreter** that are neither calls nor
branches. -/
theorem ample_operate (hR : World.Ample R) (henv : env.Alike env') (op : Plain) :
    R (operate env m op) (operate env' m op) := by
  have hpop {α : Type} {vs : List Raw} {f : Raw × List Raw → Run (World G) α}
    {g : Raw × List Raw → Run (World H) α}
      (h : ∀ p, R (f p) (g p)) : R (pop vs >>= f) (pop vs >>= g) :=
      hR.bind (closed_pop hR.toClosed vs) h
  have hput {α β : Type} {x : Run (World G) α} {y : Run (World H) α} {f : α → β} (h : R x y) :
      R (x >>= fun a => Pure.pure (f a)) (y >>= fun a => Pure.pure (f a)) :=
      hR.bind h fun _ => hR.pure _
  cases op with
  | unreachable => exact hR.fail _
  | drop => exact hpop fun _ => hR.pure _
  | select => exact hpop fun _ => hpop fun _ => Closed.ite (hR.pure _) (hpop fun _ => hR.pure _)
  | localGet i => exact hput (hR.need _ _)
  | localSet | localTee => exact hpop fun _ => Closed.ite (hR.pure _) (hR.fail _)
  | globalGet i => exact hput (hR.see _)
  | globalSet i => exact hpop fun _ => hput (hR.setGlobal i _)
  | load op arg => exact hpop fun _ => hput (hR.see _)
  | store op arg => exact hpop fun _ => hpop fun _ => hput (hR.storeValue op arg _ _)
  | memorySize => exact hput (hR.see _)
  | memoryGrow => exact hpop fun _ => hput (hR.memoryGrow _)
  | memoryCopy => exact hpop fun _ => hpop fun _ => hpop fun _ => hput (hR.memoryCopy _ _ _)
  | memoryFill => exact hpop fun _ => hpop fun _ => hpop fun _ => hput (hR.memoryFill _ _ _)
  | const v => exact hR.pure _
  | unary op =>
    rw [operate, operate, henv.policy]
    exact hpop fun _ => hput (hR.ofTrap _)
  | binary op =>
    rw [operate, operate, henv.policy]
    exact hpop fun _ => hpop fun _ => hput (hR.ofTrap _)
  | _ => exact hR.pure _

end Machine

/-! ### Compiled code -/

/-- The slots between which a branch moves values. -/
def Jump.slots (j : Jump) : List Nat := List.range' j.src j.len ++ List.range' j.dst j.len

/-- The slots in which a function finds its arguments and leaves its results. -/
def FuncType.slots (t : FuncType) (args : Nat) : List Nat :=
  List.range' args (max t.params.length t.results.length)

/-- **The slots that an operation reads or writes**, its parts not counted. -/
def Code.slots (types : Array FuncType) : Code → List Nat
  | .unreachable | .block _ | .loop _ => []
  | .cond slot _ _ => [slot]
  | .jump j => j.slots
  | .jumpIf slot j => slot :: j.slots
  | .jumpTable slot targets default => slot :: (default :: targets).flatMap Jump.slots
  | .call func args => types[func]?.elim [] fun t => t.slots args
  | .callIndirect t _ slot args => slot :: t.slots args
  | .select chooser other dst => [chooser, other, dst]
  | .copy src dst => [src, dst]
  | .globalGet _ slot | .globalSet _ slot | .const _ slot | .load _ _ slot | .memorySize slot
  | .memoryGrow slot | .unary _ slot => [slot]
  | .store _ _ base => [base, base + 1]
  | .memoryCopy base | .memoryFill base => [base, base + 1, base + 2]
  | .binary _ lhs rhs => [lhs, rhs]

/-- A closed relation of runs that contains what operations do to some of the
slots, and to the world. -/
structure Activation.Ample (S : Nat → Prop)
    (R : ∀ {α : Type}, Run (World G) α → Run (World H) α → Prop)
    (L : ∀ {α : Type}, Run (Activation G) α → Run (Activation H) α → Prop) :
    Prop extends Closed L where
  get : ∀ {i}, S i → L (get i) (get i)
  set : ∀ {i} r, S i → L (set i r) (set i r)
  move : ∀ {src dst len}, (∀ k < len, S (src + k) ∧ S (dst + k)) →
    L (move src dst len) (move src dst len)
  world : ∀ {α : Type} {x : Run (World G) α} {y : Run (World H) α}, R x y →
    L (onWorld x) (onWorld y)

namespace Activation

variable {S : Nat → Prop} {R : ∀ {α : Type}, Run (World G) α → Run (World H) α → Prop}
  {L : ∀ {α : Type}, Run (Activation G) α → Run (Activation H) α → Prop}
    (hL : Activation.Ample S R L) {fp : Nat}
include hL

theorem ample_take {j : Jump} (hj : ∀ i ∈ j.slots, S (fp + i)) : L (take fp j) (take fp j) := by
  refine hL.bind (hL.move fun k hk => ?_) fun _ => hL.pure _
  rw [Nat.add_assoc, Nat.add_assoc]
  exact ⟨hj _ (by simp [Jump.slots, hk]), hj _ (by simp [Jump.slots, hk])⟩

theorem ample_arguments {i : Nat} {ts : List ValType} (h : ∀ k < ts.length, S (i + k)) :
    L (arguments i ts) (arguments i ts) := by
  induction ts generalizing i with
  | nil => exact hL.pure _
  | cons t ts ih =>
    refine hL.bind (hL.get (h 0 (Nat.succ_pos _))) fun _ => hL.bind (ih fun k hk => ?_)
      fun _ => hL.pure _
    rw [Nat.add_right_comm]
    exact h (k + 1) (Nat.succ_lt_succ hk)

theorem ample_setResults {i : Nat} {vs : List Value} (h : ∀ k < vs.length, S (i + k)) :
    L (setResults i vs) (setResults i vs) := by
  induction vs generalizing i with
  | nil => exact hL.pure _
  | cons v vs ih =>
    refine hL.bind (hL.set _ (h 0 (Nat.succ_pos _))) fun _ => ih fun k hk => ?_
    rw [Nat.add_right_comm]
    exact h (k + 1) (Nat.succ_lt_succ hk)

variable (hR : World.Ample R) {op : Code}
include hR

/-- **Compiled operations without parts.** -/
theorem ample_operate {types : Array FuncType} (hop : ∀ i ∈ op.slots types, S (fp + i))
    (policy : FloatPolicy) : L (Compiled.operate policy fp op) (Compiled.operate policy fp op) := by
  have hget {α : Type} {i : Nat} {f : Raw → Run (Activation G) α} {g : Raw → Run (Activation H) α}
    (hi : S i) (h : ∀ r, L (f r) (g r)) :
      L (Activation.get i >>= f) (Activation.get i >>= g) := hL.bind (hL.get hi) h
  have hset {i : Nat} {x : Run (Activation G) Raw} {y : Run (Activation H) Raw}
    (hi : S i) (h : L x y) :
      L (x >>= fun r => Activation.set i r) (y >>= fun r => Activation.set i r) :=
      hL.bind h fun _ => hL.set _ hi
  cases op with
  | unreachable => exact hL.fail _
  | select cond other dst =>
    simp only [Code.slots, List.forall_mem_cons] at hop
    obtain ⟨hcond, hother, hdst, -⟩ := hop
    exact hget hcond fun _ => Closed.ite (hL.pure _) (hset hdst (hL.get hother))
  | copy src dst =>
    simp only [Code.slots, List.forall_mem_cons] at hop
    obtain ⟨hsrc, hdst, -⟩ := hop
    exact hset hdst (hL.get hsrc)
  | globalGet _ slot | memorySize slot =>
    exact hset (hop slot List.mem_cons_self) (hL.world (hR.see _))
  | globalSet i slot =>
    exact hget (hop slot List.mem_cons_self) fun _ => hL.world (hR.setGlobal i _)
  | const r slot => exact hL.set _ (hop slot List.mem_cons_self)
  | load op arg slot =>
    have hslot := hop slot List.mem_cons_self
    exact hget hslot fun _ => hset hslot (hL.world (hR.see _))
  | store op arg base =>
    simp only [Code.slots, List.forall_mem_cons] at hop
    obtain ⟨haddr, hvalue, -⟩ := hop
    exact hget haddr fun _ => hget hvalue fun _ => hL.world (hR.storeValue op arg _ _)
  | memoryGrow slot =>
    have hslot := hop slot List.mem_cons_self
    exact hget hslot fun _ => hset hslot (hL.world (hR.memoryGrow _))
  | memoryCopy base =>
    simp only [Code.slots, List.forall_mem_cons] at hop
    obtain ⟨hdst, hsrc, hlen, -⟩ := hop
    exact hget hdst fun _ => hget hsrc fun _ => hget hlen fun _ => hL.world (hR.memoryCopy _ _ _)
  | memoryFill base =>
    simp only [Code.slots, List.forall_mem_cons] at hop
    obtain ⟨hdst, hvalue, hlen, -⟩ := hop
    exact hget hdst fun _ => hget hvalue fun _ => hget hlen fun _ => hL.world (hR.memoryFill _ _ _)
  | unary op slot =>
    have hslot := hop slot List.mem_cons_self
    exact hget hslot fun _ => hset hslot (hL.ofTrap _)
  | binary op lhs rhs =>
    simp only [Code.slots, List.forall_mem_cons] at hop
    obtain ⟨hlhs, hrhs, -⟩ := hop
    exact hget hlhs fun _ => hget hrhs fun _ => hset hlhs (hL.ofTrap _)
  | _ => exact hL.pure _

variable {env : Env G} {env' : Env H} {c : Compiled} {seq : List Code → Run (Activation G) Flow}
  (seq' : List Code → Run (Activation H) Flow) {again : Unit → Run (Activation G) Flow}
    (again' : Unit → Run (Activation H) Flow)
  {call : Nat → Nat → Run (Activation G) Unit} (call' : Nat → Nat → Run (Activation H) Unit)

/-- **Compiled operations, if their parts are related.** -/
theorem ample_dispatch (henv : env.Alike env') (hop : ∀ i ∈ op.slots c.types, S (fp + i))
    (hseq : ∀ ops, L (seq ops) (seq' ops)) (hagain : L (again ()) (again' ()))
    (hcall : ∀ func args, L (call func (fp + args)) (call' func (fp + args))) :
    L (Compiled.dispatch env c seq again call fp op)
      (Compiled.dispatch env' c seq' again' call' fp op) := by
  have hoperate : L (Compiled.operate env.policy fp op >>= fun _ => Pure.pure Flow.next)
      (Compiled.operate env'.policy fp op >>= fun _ => Pure.pure Flow.next) := by
    rw [henv.policy]
    exact hL.bind (ample_operate hL hR hop env'.policy) fun _ => hL.pure _
  have hleave {ops : List Code} : L (seq ops >>= fun flow => Pure.pure flow.leaveBlock)
      (seq' ops >>= fun flow => Pure.pure flow.leaveBlock) := hL.bind (hseq ops) fun _ => hL.pure _
  cases op with
  | block body => exact hleave
  | loop body =>
    refine hL.bind (hseq body) fun flow => ?_
    rcases flow with _ | _ | _
    · exact hL.pure _
    · next depth =>
      cases depth with
      | zero => exact hagain
      | succ => exact hL.pure _
    · exact hL.pure _
  | cond slot yes no => exact hL.bind (hL.get (hop slot List.mem_cons_self)) fun _ => hleave
  | jump j => exact ample_take hL hop
  | jumpIf slot j =>
    obtain ⟨hslot, hj⟩ := List.forall_mem_cons.1 hop
    exact hL.bind (hL.get hslot) fun _ => Closed.ite (ample_take hL hj) (hL.pure _)
  | jumpTable slot targets default =>
    obtain ⟨hslot, htargets⟩ := List.forall_mem_cons.1 hop
    refine hL.bind (hL.get hslot) fun r => ample_take hL fun i hi => htargets i
      (List.mem_flatMap.2 ⟨_, ?_, hi⟩)
    -- The branch that is taken is one of the table, or the default.
    cases htarget : targets[r.low.toNat]? with
    | none => exact List.mem_cons_self
    | some j => exact List.mem_cons_of_mem _ (List.mem_of_getElem? htarget)
  | call func args => exact hL.bind (hcall func _) fun _ => hL.pure _
  | callIndirect expected table slot args =>
    refine hL.bind (hL.get (hop slot List.mem_cons_self)) fun _ =>
      hL.bind (hL.world (hR.see _)) fun func => ?_
    exact hL.bind (hL.need _ _) fun _ => Closed.ite
      (hL.bind (hcall func _) fun _ => hL.pure _) (hL.fail _)
  | _ => exact hoperate

end Activation

end WasmEngine
