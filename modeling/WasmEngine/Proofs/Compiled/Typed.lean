import WasmEngine.Proofs.Calls.Site
import WasmEngine.Proofs.Compiled.Code

/-!
# Compiled code of typed bodies

What compiled code leaves in its slots meets a condition on values, at each
operation and not only at the end. Where operations are about to be run, they
were emitted for typed code at a position of the body of a function
(`WasmEngine.Compiled.Stands`), and the slots of the function hold words of the
types at that position. This is kept from one operation to the next
(`WasmEngine.Compiled.Stands.behind`), into the parts of a construct and into
the functions that are called.

An operation is gone over by what the reference semantics says of the code that
it was emitted for: the slots that it leaves hold the state that the code
leaves, and typed code leaves values that meet the condition.
-/

namespace WasmEngine

open Run Structured

variable {H : Type}

namespace Compiled

open Activation

/-- **Operations stand at typed code**: they were emitted for code at a position
of the body of a function, and the slots hold words of the types that are
expected there. -/
structure At (V : ValType → Raw → Prop) (m : Module) (bodies : Nat → Nested) (slots : Array Raw)
    (here : Spot) (sc : CodeScope) (root : Nested) (b : Body) (top : Nat)
    (types : List (List ValType)) (labels : List Label) (under : List Raw) (below : List ValType)
    (code : Nested) (ts us : List ValType) (ops : List Code) (s : State) : Prop where
  /-- The function. -/
  owns : m.Owns bodies here.func sc root
  /-- Its scope. -/
  scope : Scoped m sc b
  /-- The constructs around the code. -/
  encloses : b.Encloses types labels under.length
  /-- The operations. -/
  emits : b.Emits sc top types labels under.length code ts us ops
  /-- The position. -/
  located : Nested.Located sc root below code ts here.pos
  /-- The locals and the operands of the construct at hand. -/
  carries : s.Carries V sc ts
  /-- The operands under it. -/
  beneath : List.Forall₂ V below under
  /-- The slots hold them. -/
  holds : Holds here.fp under s slots
  /-- There is room up to the greatest height. -/
  room : here.fp + b.slot top ≤ slots.size

/-- **Operations stand at typed code**, whatever the constructs around it. -/
def Stands (V : ValType → Raw → Prop) (m : Module) (bodies : Nat → Nested) (slots : Array Raw)
    (here : Spot) (ops : List Code) : Prop :=
  ∃ sc root b top types labels under below code ts us s,
    At V m bodies slots here sc root b top types labels under below code ts us ops s

section

variable {env : Env H} {V : ValType → Raw → Prop} {P : Store → Prop} {E : Error → Prop} {m : Module}
  {bodies : Nat → Nested} {c : Compiled} {n : Nat} {slots : Array Raw} {here : Spot}
  {sc : CodeScope} {root code : Nested} {b : Body} {top : Nat} {types : List (List ValType)}
  {labels : List Label} {under : List Raw} {below ts ts' us : List ValType} {op : Code}
  {ops : List Code} {s : State} {a a' : Activation H}

/-! ### Instructions without operations -/

/-- Code that starts with something that operations were emitted for. -/
def Loud : Nested → Prop
  | .plain op _ => op ≠ .nop ∧ op ≠ .drop
  | _ => True

/-- Where code starts with something that operations were emitted for, nothing
is gone over. -/
theorem At.skip_eq (hb : m.Bodies bodies) (hloud : Loud code)
    (h : At V m bodies slots here sc root b top types labels under below code ts us (op :: ops) s) :
    here.skip m = here := by
  have hat {i : Instr} (hi : root.flatten.toArray[here.pos]? = some i)
      (hsilent : i.isSilent = false) : here.skip m = here := by
    rw [← h.owns.codeOf_eq hb] at hi
    exact Spot.skip_of_not_silent hi hsilent
  have hemits := h.emits
  have hrow := h.located.row
  cases code with
  | done => cases hemits
  | plain op next =>
    refine hat (row_cons.1 hrow).1 ?_
    cases op <;> simp_all [Loud, Instr.isSilent]
  | brTable | block | loop | cond | condElse => exact hat (row_cons.1 hrow).1 rfl

theorem At.skip_loud (hb : m.Bodies bodies)
    (h : At V m bodies slots here sc root b top types labels under below code ts us (op :: ops) s)
    (hloud : Loud code) : ∃ code' ts' s', Loud code' ∧
      At V m bodies slots (here.skip m) sc root b top types labels under below code' ts' us
        (op :: ops) s' := by
  rw [h.skip_eq hb hloud]
  exact ⟨code, ts, s, hloud, h⟩

/-- **The instructions that nothing was emitted for can be gone over.** -/
theorem At.skip (hb : m.Bodies bodies)
    (h : At V m bodies slots here sc root b top types labels under below code ts us (op :: ops) s) :
    ∃ code' ts' s', Loud code' ∧
      At V m bodies slots (here.skip m) sc root b top types labels under below code' ts' us
        (op :: ops) s' := by
  induction code generalizing here ts s with
  | plain op' next ih =>
    by_cases hloud : Loud (.plain op' next)
    · exact h.skip_loud hb hloud
    have hsilent : op' = .nop ∨ op' = .drop := by
      simp only [Loud] at hloud
      tauto
    have hcode : (m.codeOf here.func)[here.pos]? = some (.plain op') := by
      rw [h.owns.codeOf_eq hb]
      exact (row_cons.1 h.located.row).1
    rw [Spot.skip_of_silent hcode (by rcases hsilent with rfl | rfl <;> rfl)]
    cases h.emits with
    | op hop hemit _ _ => rcases hsilent with rfl | rfl <;> simp [Body.emit] at hemit
    | last hop hemit => rcases hsilent with rfl | rfl <;> simp [Body.emit] at hemit
    | @nothing _ _ _ _ _ _ ts' _ _ hop hemit hrest =>
      have hnext := h.located.plain hop
      obtain ⟨locals, vs⟩ := s
      rcases nothing_cases hop h.scope hemit with ⟨rfl, rfl⟩ | ⟨rfl, t, rfl⟩
      · exact ih (s := ⟨locals, vs⟩) ⟨h.owns, h.scope, h.encloses, hrest, hnext, h.carries,
          h.beneath, h.holds, h.room⟩
      · obtain ⟨hlocals, _ | @⟨_, v, _, vs, -, hvs⟩⟩ := h.carries
        exact ih (s := ⟨locals, vs⟩) ⟨h.owns, h.scope, h.encloses, hrest, hnext, ⟨hlocals, hvs⟩,
          h.beneath, h.holds.pop.2, h.room⟩
  | done | brTable | block | loop | cond | condElse => exact h.skip_loud hb trivial

theorem Stands.skip (hb : m.Bodies bodies) (h : Stands V m bodies slots here (op :: ops)) :
    ∃ sc root b top types labels under below code ts us s,
      Loud code ∧ At V m bodies slots (here.skip m) sc root b top types labels under below code ts
        us (op :: ops) s := by
  obtain ⟨sc, root, b, top, types, labels, under, below, _, _, us, _, h⟩ := h
  obtain ⟨code, ts, s, h⟩ := h.skip hb
  exact ⟨sc, root, b, top, types, labels, under, below, code, ts, us, s, h⟩

theorem Loud.emits {op : Plain} {next : Nested} {height : Nat} (hloud : Loud (.plain op next))
    (hop : op.Typed sc types ts (some ts')) (hscope : Scoped m sc b)
    (hemit : b.emit labels height op = .nothing) : False := by
  rcases nothing_cases hop hscope hemit with ⟨rfl, -⟩ | ⟨rfl, -⟩
  · exact hloud.1 rfl
  · exact hloud.2 rfl

/-- The instruction that the next operation was compiled from. -/
theorem At.instr?_eq (hb : m.Bodies bodies)
    (h : At V m bodies slots (here.skip m) sc root b top types labels under below code ts
      us (op :: ops) s) : here.instr? m = code.flatten.head? := by
  have hcode : m.codeOf here.func = root.flatten.toArray := h.owns.codeOf_eq hb
  have hrow := h.located.row
  rw [Spot.instr?, hcode]
  cases hflat : code.flatten with
  | nil =>
    have hemits := h.emits
    cases code with
    | done => cases hemits
    | _ => simp [Nested.flatten] at hflat
  | cons i is =>
    rw [hflat] at hrow
    exact (row_cons.1 hrow).1

/-! ### Operations that go on -/

section

variable (hc : Contract env V P E) (hlinked : env.Linked) (hb : env.mod.Bodies bodies)
  (hrenders : Renders env.mod bodies c)
include hc hlinked hb hrenders

/-- What an operation leaves that goes on: the state that the code leaves that
it was emitted for. -/
theorem At.goes_on
    (h : At V env.mod bodies a.slots here sc root b top types labels under below code ts us
      (op :: ops) s) {head : Nested}
    (hhead : b.Emits sc top types labels under.length head ts ts' [op]) (hw : P a.world.store)
    (hrun : runOp env c n here.fp op a = (.ok .next, a')) :
    P a'.world.store ∧ Kept here.fp a.slots a'.slots ∧
      ∃ s', (∀ us, head.Typed sc types ts us → s'.Carries V sc us) ∧
      Holds here.fp under s' a'.slots := by
  have hseq : runSeq env c (n + 2) here.fp [op] a = (.ok .next, a') := by
    have hrising : Rising fun j => runOp env c j here.fp op a := rising_runOp here.fp op a
    have hsucc := hrising.eq_of_le (Nat.le_succ n) (by simp [hrun])
    rw [runSeq_cons, Run.bind_ok (hsucc.trans hrun), runSeq_nil]
    rfl
  have hholding : Holding b sc top here.fp under ts s (⟨a.world, []⟩ : Logged H) a :=
    ⟨h.carries.fits, rfl, h.holds, h.room⟩
  have hmirrors := (simulates hlinked hb hrenders (n + 2)).code h.scope h.encloses hhead hholding
  have hmatches := hmirrors.upper (by simp [hseq])
  rw [hseq] at hmatches
  have hmeets {us : List ValType} (hus : head.Typed sc types ts us) :=
    (back_run hc hb (n + 2)).again h.scope.scope hus h.carries
  rcases hx : run env bodies (n + 2) head s ⟨a.world, []⟩ with ⟨e | o, l⟩
  · rw [hx] at hmatches
    exact hmatches.elim
  · rw [hx] at hmatches
    have hland : Lands b labels here.fp under a.slots o l .next a' := hmatches
    have hP : P l.world.store := (hmeets hhead.typed).keeps_of_ok hw hx
    refine ⟨hland.world ▸ hP, hland.kept, ?_⟩
    cases hland.leaves with
    | next hholds => exact ⟨_, fun us hus => (hmeets hus).of_ok hw hx, hholds⟩

/-- **From an operation to the next.** -/
theorem Stands.behind (h : Stands V env.mod bodies a.slots here (op :: ops)) (hw : P a.world.store)
    (hrun : runOp env c n here.fp op a = (.ok .next, a')) :
    P a'.world.store ∧ Kept here.fp a.slots a'.slots ∧ Stands V env.mod bodies a'.slots
      (here.behind env.mod) ops := by
  obtain ⟨sc, root, b, top, types, labels, under, below, code, ts, us, s, hloud, h⟩ := h.skip hb
  -- where the operation was emitted for code that goes on, and where for code that does not
  have step {head next : Nested} {ts' : List ValType} {pos : Nat}
    (hhead : b.Emits sc top types labels under.length head ts ts' [op])
      (hnext : b.Emits sc top types labels under.length next ts' us ops)
        (hloc : Nested.Located sc root below next ts' pos)
      (hbehind : here.behind env.mod = ⟨here.func, here.fp, pos⟩) :
      P a'.world.store ∧ Kept here.fp a.slots a'.slots ∧ Stands V env.mod bodies a'.slots
        (here.behind env.mod) ops := by
    obtain ⟨hP, hkept, s', hs', hholds⟩ := h.goes_on hc hlinked hb hrenders hhead hw hrun
    rw [hbehind]
    exact ⟨hP, hkept, sc, root, b, top, types, labels, under, below, next, ts', us, s', h.owns,
      h.scope, h.encloses, hnext, hloc, hs' _ hhead.typed, h.beneath, hholds,
      Nat.le_trans h.room hkept.size⟩
  have stop (hhead : b.Emits sc top types labels under.length code ts us [op])
      (hany : ∀ us, code.Typed sc types ts us) : False := by
    obtain ⟨-, -, s', hs', -⟩ := h.goes_on hc hlinked hb hrenders hhead hw hrun
    have hnone := (hs' [] (hany _)).2.length_eq
    have hone := (hs' [.i32] (hany _)).2.length_eq
    simp [← hnone] at hone
  have hinstr := h.instr?_eq hb
  cases h.emits with
  | nothing hop hemit => exact (hloud.emits hop h.scope hemit).elim
  | op hop hemit htop hnext =>
    refine step (.op hop hemit htop .done) hnext (h.located.plain hop) ?_
    simp [Spot.behind, hinstr, Nested.flatten, Instr.extent]
  | last hop hemit => exact (stop (.last hop hemit) fun _ => .last hop).elim
  | brTable htargets => exact (stop (.brTable htargets) fun _ => .brTable htargets).elim
  | block htype htop hinner hbehind =>
    refine step (.block htype htop hinner .done) hbehind (h.located.block htype).behind ?_
    simp [Spot.behind, hinstr, Nested.flatten, Instr.extent, Nested.length_flatten]
    omega
  | loop htype htop hinner hbehind =>
    refine step (.loop htype htop hinner .done) hbehind (h.located.loop htype).behind ?_
    simp [Spot.behind, hinstr, Nested.flatten, Instr.extent, Nested.length_flatten]
    omega
  | cond htype htop hinner hbehind =>
    refine step (.cond htype htop hinner .done) hbehind (h.located.cond htype).behind ?_
    simp [Spot.behind, hinstr, Nested.flatten, Instr.extent, Nested.length_flatten]
    omega
  | condElse htype htop hyes hno hbehind =>
    refine step (.condElse htype htop hyes hno .done) hbehind (h.located.condElse htype).behind ?_
    simp [Spot.behind, hinstr, Nested.flatten, Instr.extent, Nested.length_flatten]
    omega

/-- **A loop that starts over** holds what its label carries. -/
theorem Stands.again {part : List Code}
    (h : Stands V env.mod bodies a.slots here (.loop part :: ops)) (hw : P a.world.store)
    (hrun : runSeq env c n here.fp part a = (.ok (.branch 0), a')) :
    P a'.world.store ∧ Kept here.fp a.slots a'.slots ∧ Stands V env.mod bodies a'.slots
      (here.skip env.mod) (.loop part :: ops) := by
  obtain ⟨sc, root, b, top, types, labels, under, below, code, ts, us, s, hloud, h⟩ := h.skip hb
  cases h.emits with
  | nothing hop hemit => exact (hloud.emits hop h.scope hemit).elim
  | op hop hemit => cases Body.isConstruct_of_emit (.inl hemit)
  | last hop hemit => cases Body.isConstruct_of_emit (.inr hemit)
  | @loop _ _ _ args body next ps rs ts _ _ _ htype htop hinner hbehind =>
    have hholding :
        Holding b sc top here.fp under (ps.reverse ++ ts) s (⟨a.world, []⟩ : Logged H) a :=
      ⟨h.carries.fits, rfl, h.holds, h.room⟩
    obtain ⟨hinside, hbase⟩ := hholding.split
    obtain ⟨hs, hrest⟩ := h.carries.split
    have hemits := hinner
    rw [← hbase] at hemits
    have hinclosed : b.Encloses (ps :: types) _ (s.operands.drop ps.length ++ under).length :=
      .construct h.encloses (by simp) rfl
    have hmatches :=
      ((simulates hlinked hb hrenders n).code h.scope hinclosed hemits hinside).upper
      (by simp [hrun])
    rw [hrun] at hmatches
    have hmeets := (back_run hc hb n).again h.scope.scope hinner.typed hs
    rcases hx : run env bodies n body { s with operands := s.operands.take ps.length }
      ⟨a.world, []⟩ with ⟨e | o, l⟩
    · rw [hx] at hmatches
      exact hmatches.elim
    rw [hx] at hmatches
    have hland : Lands b _ here.fp _ a.slots o l (.branch 0) a' := hmatches
    have hP : P l.world.store := hmeets.keeps_of_ok hw hx
    have ho := hmeets.of_ok hw hx
    have hleave := hland.leaves.leaveBlock h.encloses
    refine ⟨hland.world ▸ hP, hland.kept, ?_⟩
    cases hland.leaves with
    | @branch _ s' _ _ _ =>
      obtain ⟨ls, rest, hls, hs'⟩ := ho
      obtain rfl : ps = ls := Option.some.inj hls
      have hstart :
          State.Carries V sc (ps.reverse ++ ts)
          ⟨s'.locals, s'.operands.take ps.length ++ s.operands.drop ps.length⟩ :=
        ⟨hs'.1, List.rel_append hs'.split.1.2 hrest⟩
      cases hleave with
      | next hholds =>
        exact ⟨sc, root, b, top, types, labels, under, below, _, _, us, _, h.owns, h.scope,
          h.encloses, h.emits, h.located, hstart, h.beneath, hholds,
          Nat.le_trans h.room hland.kept.size⟩

end

/-! ### The parts of constructs -/

section Constructs

variable {ps rs ls ts₀ : List ValType} {body : Nested} {part : List Code} {pos : Nat} {s' : State}

/-- The start of the body of a construct. -/
theorem At.inside
    (h : At V m bodies slots here sc root b top types labels under below code ts us ops s)
    (hs : s'.Carries V sc (ps.reverse ++ ts₀)) (hholds : Holds here.fp under s' slots)
    (hinner : b.Emits sc top (ls :: types) (⟨under.length + ts₀.length, ls.length⟩ :: labels)
      (under.length + ts₀.length) body
      ps.reverse rs.reverse part)
      (hloc : Nested.Located sc root (ts₀ ++ below) body ps.reverse pos) :
    Stands V m bodies slots { here with pos } part := by
  obtain ⟨hs, hrest⟩ := hs.split
  have hbase : (s'.operands.drop ps.length ++ under).length = under.length + ts₀.length := by
    rw [List.length_append, ← hrest.length_eq, Nat.add_comm]
  rw [← hbase] at hinner
  refine ⟨sc, root, b, top, _, _, s'.operands.drop ps.length ++ under, ts₀ ++ below, body,
    ps.reverse, rs.reverse, _, ⟨h.owns, h.scope, .construct h.encloses ?_ rfl, hinner, hloc, hs,
      List.rel_append hrest h.beneath, ?_, h.room⟩⟩
  · rw [List.length_append]
    exact Nat.le_add_left _ _
  · rwa [Holds, ← List.take_append_drop ps.length s'.operands, List.append_assoc] at hholds

theorem At.pop {t : ValType}
    (h : At V m bodies slots here sc root b top types labels under below code (t :: ts) us ops s) :
    ∃ s', s'.Carries V sc ts ∧ Holds here.fp under s' slots := by
  obtain ⟨locals, vs⟩ := s
  have hholds := h.holds
  obtain ⟨hlocals, _ | @⟨_, _, _, vs, -, hvs⟩⟩ := h.carries
  exact ⟨⟨locals, vs⟩, ⟨hlocals, hvs⟩, hholds.pop.2⟩

/-- The parts of an operation stand at typed code: the body of a block or loop,
and the arms of a conditional, where the second is the end of the construct if
there is none. -/
def PartsStand (V : ValType → Raw → Prop) (m : Module) (bodies : Nat → Nested) (slots : Array Raw)
    (here : Spot) : Code → Prop
  | .block part | .loop part => Stands V m bodies slots (here.inside m) part
  | .cond _ yes no =>
    Stands V m bodies slots (here.inside m) yes ∧ Stands V m bodies slots (here.otherwise m) no
  | _ => True

theorem partsStand_of_not_construct (h : op.isConstruct = false) :
    PartsStand V m bodies slots here op := by
  cases op with
  | block | loop | cond => cases h
  | _ => trivial

/-- **From an operation into its parts.** -/
theorem Stands.parts (hb : m.Bodies bodies) (h : Stands V m bodies slots here (op :: ops)) :
    PartsStand V m bodies slots here op := by
  obtain ⟨sc, root, b, top, types, labels, under, below, code, ts, us, s, hloud, h⟩ := h.skip hb
  have hinstr := h.instr?_eq hb
  cases h.emits with
  | nothing hop hemit => exact (hloud.emits hop h.scope hemit).elim
  | op hop hemit => exact partsStand_of_not_construct (Body.isConstruct_of_emit (.inl hemit))
  | last hop hemit => exact partsStand_of_not_construct (Body.isConstruct_of_emit (.inr hemit))
  | brTable => trivial
  | block htype htop hinner hbehind =>
    exact h.inside h.carries h.holds hinner (h.located.block htype).inner
  | loop htype htop hinner hbehind =>
    exact h.inside h.carries h.holds hinner (h.located.loop htype).inner
  | @cond _ _ _ args body next ps ts _ _ _ htype htop hinner hbehind =>
    obtain ⟨s', hs', hholds⟩ := h.pop
    have hpos : here.otherwise m = { here with pos := (here.skip m).pos + body.size + 2 } := by
      simp only [Spot.otherwise, hinstr, Nested.flatten, List.head?_cons, if_true,
        Nested.length_flatten]
      rfl
    refine ⟨h.inside hs' hholds hinner (h.located.cond htype).inner, ?_⟩
    rw [hpos]
    exact ⟨sc, root, b, top, types, labels, under, below, .done, _, _, s', h.owns, h.scope,
      h.encloses, .done, (h.located.cond htype).behind.done, hs', h.beneath, hholds, h.room⟩
  | @condElse _ _ _ args body alt next ps rs ts _ _ _ _ htype htop hyes hno hbehind =>
    obtain ⟨s', hs', hholds⟩ := h.pop
    have hpos : here.otherwise m = { here with pos := (here.skip m).pos + body.size + 2 } := by
      simp only [Spot.otherwise, hinstr, Nested.flatten, List.head?_cons, Nat.add_one_ne_zero,
        if_false, Nested.length_flatten]
      rfl
    refine ⟨h.inside hs' hholds hyes (h.located.condElse htype).yes, ?_⟩
    rw [hpos]
    exact h.inside hs' hholds hno (h.located.condElse htype).no

end Constructs

/-! ### Calls -/

section Calls

variable {func slot : Nat} {t : FuncType}

/-- The arguments of a call are on top of the operands. -/
theorem At.calls {op' : Plain} (hrenders : Renders m bodies c)
    (h : At V m bodies a.slots here sc root b top types labels under below code ts us ops s)
    (hop : op'.Typed sc types ts (some ts'))
    (hemit : b.emit labels (under.length + ts.length) op' = .op op)
    (hcall : c.Calls here.fp a op func slot) :
    ∃ t ts₀ s', m.funcType? func = some t ∧ ts' = t.results.reverse ++ ts₀ ∧
    s'.Carries V sc (t.params.reverse ++ ts₀) ∧
      Holds here.fp under s' a.slots ∧ slot = here.fp + b.slot (under.length + ts₀.length) := by
  cases hcall with
  | @direct _ args =>
    cases op' with
    | call func' =>
      cases hop with
      | @sig _ ps rs ts₀ hsig =>
        simp only [Plain.signature?, h.scope.scope, Option.map_eq_some_iff, Prod.mk.injEq] at hsig
        obtain ⟨t, ht, rfl, rfl⟩ := hsig
        simp only [Body.emit, h.scope.mod, ht, Emit.op.injEq, Code.call.injEq] at hemit
        obtain ⟨rfl, rfl⟩ := hemit
        refine ⟨t, ts₀, s, ht, rfl, h.carries, h.holds, ?_⟩
        rw [List.length_append, List.length_reverse]
        congr 2
        omega
    | callIndirect =>
      simp only [Body.emit] at hemit
      split at hemit <;> cases hemit
    | _ => cases hemit
  | @indirect type table index args _ r hget htable htype =>
    cases op' with
    | callIndirect i table' =>
      cases hop with
      | @sig _ ps rs ts₀ hsig =>
        simp only [Plain.signature?, h.scope.scope, Option.ite_none_right_eq_some,
          Option.map_eq_some_iff, Prod.mk.injEq] at hsig
        obtain ⟨-, t, ht, rfl, rfl⟩ := hsig
        simp only [Body.emit, h.scope.mod, ht, Emit.op.injEq, Code.callIndirect.injEq] at hemit
        obtain ⟨rfl, rfl, rfl, rfl⟩ := hemit
        simp only [List.reverse_append, List.reverse_singleton, List.cons_append] at h
        obtain ⟨s', hs', hholds⟩ := h.pop
        refine ⟨t, ts₀, s', hrenders.types func ▸ htype, rfl, hs', hholds, ?_⟩
        simp only [List.length_append, List.length_reverse, List.length_singleton]
        congr 2
        omega
    | call =>
      simp only [Body.emit] at hemit
      split at hemit <;> cases hemit
    | _ => cases hemit

/-- **A function that is called**: its arguments are in a row of slots, and the
caller waits behind the call for its results. -/
theorem Stands.calls (hb : m.Bodies bodies) (hrenders : Renders m bodies c)
    (h : Stands V m bodies a.slots here (op :: ops)) (hcall : c.Calls here.fp a op func slot) :
    ∃ t args, m.funcType? func = some t ∧ List.Forall₂ V t.params args ∧ Row a.slots slot args ∧
    slot ≤ a.slots.size ∧
      here.fp ≤ slot ∧ ∃ locals operands, Row a.slots here.fp (locals ++ operands.reverse) ∧
        here.fp + (locals ++ operands).length ≤ slot ∧
        Active.Carries V m bodies ⟨here.func, (here.behind m).pos, t.results.length,
          locals, operands⟩ := by
  obtain ⟨sc, root, b, top, types, labels, under, below, code, ts, us, s, hloud, h⟩ := h.skip hb
  have hinstr := h.instr?_eq hb
  cases h.emits with
  | nothing hop hemit => exact (hloud.emits hop h.scope hemit).elim
  | last hop hemit => rcases Body.of_emit_last hemit with rfl | ⟨j, rfl⟩ <;> cases hcall
  | block | loop | cond | condElse | brTable => cases hcall
  | op hop hemit htop hnext =>
    obtain ⟨t, ts₀, ⟨locals, vs⟩, ht, rfl, hs, hholds, hslot⟩ := h.calls hrenders hop hemit hcall
    have hfits := hs.fits
    obtain ⟨⟨hlocals, hargs⟩, hrest⟩ := hs.split
    have habove : slot = above here.fp under locals (vs.drop t.params.length) := by
      rw [hslot, Body.slot, above, h.scope.locals, ← hfits.1, hrest.length_eq]
      rfl
    obtain ⟨hbelow, hrow⟩ :=
      Holds.append_iff.1 ((List.take_append_drop t.params.length vs).symm ▸ hholds :
      Holds here.fp under ⟨locals, vs.take t.params.length ++ vs.drop t.params.length⟩ a.slots)
    rw [← habove] at hrow
    refine ⟨t, (vs.take t.params.length).reverse, ht, ?_, hrow, ?_, ?_, locals.toList,
      vs.drop t.params.length ++ under, hbelow, ?_, sc, root, t.results.reverse ++ ts₀ ++ below,
      h.owns, ?_, hlocals, ?_⟩
    · have hforward := List.rel_reverse hargs
      rwa [List.reverse_reverse] at hforward
    · refine Nat.le_trans ?_ h.room
      rw [hslot]
      refine Nat.add_le_add_left (Nat.add_le_add_left (Nat.le_trans ?_ htop) _) _
      rw [List.length_append]
      omega
    · exact habove ▸ Nat.le_add_right _ _
    · simp only [habove, above, List.length_append, Array.length_toList]
      omega
    · have hpos : (here.behind m).pos = (here.skip m).pos + 1 := by
        simp only [Spot.behind, hinstr, Nested.flatten, List.head?_cons, Option.elim_some,
          Instr.extent, Nat.add_zero]
      rw [hpos]
      exact (h.located.plain hop).operandsAt?
    · rw [List.append_assoc, List.drop_left' (by simp)]
      exact List.rel_append hrest h.beneath

/-- **The frame of a function is opened over its arguments.** -/
theorem stands_entry {fp : Nat} {args : List Raw} {cf : CompiledFunc} (hp : env.policy.Upholds V)
    (hb : env.mod.Bodies bodies) (hrenders : Renders env.mod bodies c) (hfunc : ¬func < c.imported)
    (hcf : c.funcs[func - c.imported]? = some cf) (ht : env.mod.funcType? func = some t)
    (hrow : Row a.slots fp args) (hargs : List.Forall₂ V t.params args) (hfp : fp ≤ a.slots.size) :
    ∃ slots, (openFrame cf fp a).2 = ⟨slots, a.world⟩ ∧ Kept fp a.slots slots ∧
      Stands V env.mod bodies slots ⟨func, fp, 0⟩ cf.body := by
  rw [hrenders.imported] at hfunc hcf
  obtain ⟨f, hf, htype, -⟩ := Env.exists_defined hfunc ht
  obtain ⟨cf', hcf', hof⟩ := hrenders.funcs hf htype
  obtain rfl : cf = cf' := Option.some.inj (hcf.symm.trans hcf')
  obtain ⟨top, hframe, hemits⟩ := hof.body
  obtain ⟨slots, hopen, hkept, hroom, hslots⟩ :=
    openFrame_row hrow (hargs.length_eq.symm.trans hof.params.symm)
    (by rw [hof.params, hof.locals]; omega) (by omega) hfp
  refine ⟨slots, by rw [hopen], hkept, ⟨env.mod, t.params ++ f.locals, t.results⟩, _,
    ⟨env.mod, f.code, cf.locals, t.results.length⟩, top, [t.results], [], [], [], _, [],
    t.results.reverse, ⟨(args ++ List.replicate (cf.locals - cf.params) 0).toArray, []⟩,
    .mk hf htype, ⟨rfl, rfl, by rw [hof.locals, List.length_append], rfl⟩, .function rfl, hemits,
    Nested.located_root _ (hb.narrow hf).thenRet, ⟨?_, .nil⟩, .nil, ?_, ?_⟩
  · have hlocals : List.Forall₂ V (t.params ++ f.locals) _ := hp.locals hargs
    rwa [← hof.locals, ← hargs.length_eq, ← hof.params] at hlocals
  · simpa [Holds] using hslots
  · simp only [Body.slot]
    omega

end Calls

/-! ### What the slots are like -/

/-- The words of a function whose operations stand at typed code. -/
theorem Stands.active (h : Stands V m bodies slots here ops) :
    ∃ locals operands, Row slots here.fp (locals ++ operands.reverse) ∧
    here.fp + (locals ++ operands).length ≤ slots.size ∧
      Active.Carries V m bodies ⟨here.func, here.pos, 0, locals, operands⟩ := by
  obtain ⟨sc, root, b, top, types, labels, under, below, code, ts, us, s, h⟩ := h
  have hsize := Row.add_length_le h.holds (Nat.le_trans (Nat.le_add_right _ _) h.room)
  rw [List.length_append, List.length_reverse] at hsize
  exact ⟨s.locals.toList, s.operands ++ under, h.holds, by rwa [List.length_append], sc, root,
    ts ++ below, h.owns, h.located.operandsAt?, h.carries.1, List.rel_append h.carries.2 h.beneath⟩

/-- What lies below a frame is not touched. -/
theorem Kept.carry {slots' : Array Raw} {limit waits : Nat} {spots : List Spot}
    (hkept : Kept limit slots slots') (h : Spot.Carry V m bodies slots limit waits spots) :
    Spot.Carry V m bodies slots' limit waits spots := by
  induction spots generalizing limit waits with
  | nil => trivial
  | cons spot outer ih =>
    obtain ⟨⟨locals, operands, hrow, hlimit, hactive⟩, t, ht, houter⟩ := h
    rw [List.length_append] at hlimit
    refine ⟨⟨locals, operands, hkept.row hrow ?_, by rwa [List.length_append], hactive⟩, t, ht,
      ih (hkept.mono ?_) houter⟩
    · rwa [List.length_append, List.length_reverse]
    · omega

end

end Compiled

end WasmEngine
