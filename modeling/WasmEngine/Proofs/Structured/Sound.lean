import WasmEngine.Proofs.Structured
import WasmEngine.Proofs.Structured.Contract

/-!
# Typed code does what its type says

What typed code leaves behind: at its end operands of the types that its type
says, and at a branch those that the label carries, on top of any others
(`WasmEngine.Structured.Outcome.Carries`). Operands are untyped words, so what
it means to be of a type is a condition on words; the weakest one only counts
them (`WasmEngine.Structured.Outcome.Fits`).

The statement is made once for all conditions and for all that is known about
the store: under a `WasmEngine.Contract` all runs of typed code keep `P`, fail
with `E` only and leave values that meet `V`
(`WasmEngine.Structured.exec_carries`, `WasmEngine.Structured.back_run`).
-/

namespace WasmEngine

open Run

variable {H : Type}

/-- Whether an instruction calls a function. -/
def Plain.isCall : Plain → Bool
  | .call _ | .callIndirect _ _ => true
  | _ => false

/-- The number of operands that an instruction takes off the stack, calls and
branches not counted. -/
def Plain.demand : Plain → Nat
  | .drop | .brIf _ | .localSet _ | .localTee _ | .globalSet _ | .load _ _ | .memoryGrow _
  | .unary _ => 1
  | .store _ _ | .binary _ => 2
  | .select | .memoryCopy _ _ | .memoryFill _ => 3
  | _ => 0

namespace Structured

/-! ### Instructions -/

/-- The locals are those of the function, and there are as many operands as
types. -/
def State.Fits (sc : CodeScope) (ts : List ValType) (s : State) : Prop :=
  s.locals.size = sc.locals.length ∧ s.operands.length = ts.length

/-- **What typed code leaves behind**: operands of the types it ends with, or at
least what the label of its branch carries. -/
def Outcome.Fits (sc : CodeScope) (labels : List (List ValType))
    (us : List ValType) : Outcome → Prop
  | .next s => s.Fits sc us
  | .branch depth s =>
    s.locals.size = sc.locals.length ∧ ∃ ls, labels[depth]? = some ls ∧
      ls.length ≤ s.operands.length
  | .ret s => s.locals.size = sc.locals.length ∧ sc.results.length ≤ s.operands.length

/-- The locals and the operands are of the types given, as far as `V` says what
that is. -/
def State.Carries (V : ValType → Raw → Prop) (sc : CodeScope) (ts : List ValType)
    (s : State) : Prop :=
  List.Forall₂ V sc.locals s.locals.toList ∧ List.Forall₂ V ts s.operands

/-- **What typed code leaves behind**: values of the types it ends with, or on
top those that the label of its branch carries. -/
def Outcome.Carries (V : ValType → Raw → Prop) (sc : CodeScope) (labels : List (List ValType))
    (us : List ValType) : Outcome → Prop
  | .next s => s.Carries V sc us
  | .branch depth s => ∃ ls rest, labels[depth]? = some ls ∧ s.Carries V sc (ls.reverse ++ rest)
  | .ret s => ∃ rest, s.Carries V sc (sc.results.reverse ++ rest)

variable {env : Env H} {V : ValType → Raw → Prop} {P : Store → Prop} {E : Error → Prop}
  {sc : CodeScope} {labels : List (List ValType)} {ps rs ts us : List ValType} {s : State}

theorem State.Carries.fits (hs : s.Carries V sc ts) : s.Fits sc ts :=
  ⟨by simpa using hs.1.length_eq.symm, hs.2.length_eq.symm⟩

/-- Counting is one way to tell what values are like. -/
theorem State.fits_eq (sc : CodeScope) (ts : List ValType) :
    State.Fits sc ts = State.Carries (fun _ _ => True) sc ts := by
  funext s
  refine propext ⟨fun hs => ?_, fun hs => hs.fits⟩
  exact ⟨forall₂_true_iff.2 (by simpa using hs.1.symm), forall₂_true_iff.2 hs.2.symm⟩

theorem Outcome.fits_eq (sc : CodeScope) (labels : List (List ValType)) (us : List ValType) :
    Outcome.Fits sc labels us = Outcome.Carries (fun _ _ => True) sc labels us := by
  -- What lies under the values that a branch carries can be of any types.
  have key (s : State) (ls : List ValType) :
      (∃ rest, s.Carries (fun _ _ => True) sc (ls.reverse ++ rest)) ↔
        s.locals.size = sc.locals.length ∧ ls.length ≤ s.operands.length := by
    simp only [← State.fits_eq]
    constructor
    · rintro ⟨rest, hl, hlen⟩
      exact ⟨hl, by simp [hlen]⟩
    · rintro ⟨hl, hlen⟩
      exact ⟨List.replicate (s.operands.length - ls.length) .i32, hl, by simp [hlen]⟩
  funext o
  cases o with
  | next s => exact congrFun (State.fits_eq sc us) s
  | branch d s =>
    simp only [Outcome.Fits, Outcome.Carries, exists_and_left, key, eq_iff_iff]
    constructor
    · rintro ⟨hl, ls, hls, hlen⟩
      exact ⟨ls, hls, hl, hlen⟩
    · rintro ⟨ls, hls, hl, hlen⟩
      exact ⟨hl, ls, hls, hlen⟩
  | ret s => exact propext (key s sc.results).symm

/-- The operands that a typed instruction takes are there. -/
theorem State.Fits.demand_le {op : Plain} {after : Option (List ValType)} (hs : s.Fits sc ts)
    (hop : op.Typed sc labels ts after) : op.demand ≤ s.operands.length := by
  rw [hs.2]
  cases hop with
  | sig h =>
    cases op with
    | globalSet i =>
      simp only [Plain.signature?, Option.bind_eq_some_iff, Option.ite_none_right_eq_some,
        Option.some.injEq, Prod.mk.injEq] at h
      obtain ⟨g, -, -, rfl, -⟩ := h
      simp [Plain.demand]
    | localSet | localTee =>
      simp only [Plain.signature?, Option.map_eq_some_iff, Prod.mk.injEq] at h
      obtain ⟨t, -, rfl, -⟩ := h
      simp [Plain.demand]
    | load | store | memoryGrow | memoryCopy | memoryFill =>
      simp only [Plain.signature?, Option.ite_none_right_eq_some, Option.some.injEq,
        Prod.mk.injEq] at h
      obtain ⟨-, rfl, -⟩ := h
      simp [Plain.demand]
    | unary | binary =>
      simp only [Plain.signature?, Option.some.injEq, Prod.mk.injEq] at h
      obtain ⟨rfl, -⟩ := h
      simp [Plain.demand]
    | drop | select | brIf => simp [Plain.signature?] at h
    | _ => exact Nat.zero_le _
  | drop | select | brIf | br | ret | unreachable => simp [Plain.demand]

theorem signature_carries (hc : Contract env V P E) (hsc : sc.mod = env.mod) {op : Plain}
    (hop : op.signature? sc = some (ps, rs)) (hcall : op.isCall = false)
    (hs : s.Carries V sc (ps.reverse ++ ts)) :
    Meets (fun w : World H => P w.store) E (State.Carries V sc (rs.reverse ++ ts))
      (operate env op s) := by
  obtain ⟨locals, vs⟩ := s
  obtain ⟨hl, hvs⟩ := hs
  simp only at hl hvs
  cases op with
  | nop =>
    simp only [Plain.signature?, Option.some.injEq, Prod.mk.injEq] at hop
    obtain ⟨rfl, rfl⟩ := hop
    exact Meets.pure ⟨hl, hvs⟩
  | localGet i =>
    simp only [Plain.signature?, Option.map_eq_some_iff, Prod.mk.injEq] at hop
    obtain ⟨t, ht, rfl, rfl⟩ := hop
    obtain ⟨r, hr, hv⟩ := getElem?_of_forall₂ hl ht
    rw [Array.getElem?_toList] at hr
    simp only [operate, hr, need_some, Run.pure_bind]
    exact Meets.pure ⟨hl, .cons hv hvs⟩
  | localSet i | localTee i =>
    -- The two differ only in whether the operand stays.
    simp only [Plain.signature?, Option.map_eq_some_iff, Prod.mk.injEq] at hop
    obtain ⟨t, ht, rfl, rfl⟩ := hop
    obtain _ | ⟨hr, hvs⟩ := hvs
    obtain ⟨hi, hset⟩ := forall₂_setIfInBounds hl ht hr
    simp only [operate, hi, if_true]
    exact Meets.pure ⟨hset, by first | exact hvs | exact .cons hr hvs⟩
  | globalGet i =>
    simp only [Plain.signature?, Option.map_eq_some_iff, Prod.mk.injEq, hsc] at hop
    obtain ⟨g, hg, rfl, rfl⟩ := hop
    exact (hc.global hg).bind fun r hr => Meets.pure ⟨hl, .cons hr hvs⟩
  | globalSet i =>
    simp only [Plain.signature?, Option.bind_eq_some_iff, Option.ite_none_right_eq_some,
      Option.some.injEq, Prod.mk.injEq, hsc] at hop
    obtain ⟨g, hg, -, rfl, rfl⟩ := hop
    obtain _ | ⟨hr, hvs⟩ := hvs
    exact (hc.setGlobal hg hr).bind fun _ _ => Meets.pure ⟨hl, hvs⟩
  | load op arg =>
    simp only [Plain.signature?, Option.ite_none_right_eq_some, Option.some.injEq,
      Prod.mk.injEq] at hop
    obtain ⟨-, rfl, rfl⟩ := hop
    obtain _ | ⟨-, hvs⟩ := hvs
    refine (hc.seeMemory (fun m r hr => hc.values.load hr) fun m e he => ?_).bind fun r hr =>
      Meets.pure ⟨hl, .cons hr hvs⟩
    obtain ⟨t, rfl⟩ := LoadOp.trap_of_run he
    exact hc.trap t
  | store op arg =>
    simp only [Plain.signature?, Option.ite_none_right_eq_some, Option.some.injEq,
      Prod.mk.injEq] at hop
    obtain ⟨-, rfl, rfl⟩ := hop
    obtain _ | ⟨-, _ | ⟨-, hvs⟩⟩ := hvs
    refine (hc.onMemory (Q := fun _ => True) (fun _ _ _ => trivial) fun m e he => ?_).bind
      fun _ _ => Meets.pure ⟨hl, hvs⟩
    obtain ⟨t, rfl⟩ := Memory.trap_of_store he
    exact hc.trap t
  | memorySize mem =>
    simp only [Plain.signature?, Option.ite_none_right_eq_some, Option.some.injEq,
      Prod.mk.injEq] at hop
    obtain ⟨-, rfl, rfl⟩ := hop
    refine (hc.seeMemory (Q := V .i32) (fun m r hr => ?_) (by simp)).bind fun r hr => Meets.pure
      ⟨hl, .cons hr hvs⟩
    exact Except.ok.inj hr ▸ hc.values.pages m.pages
  | memoryGrow mem =>
    simp only [Plain.signature?, Option.ite_none_right_eq_some, Option.some.injEq,
      Prod.mk.injEq] at hop
    obtain ⟨-, rfl, rfl⟩ := hop
    obtain _ | @⟨_, delta, _, vs, -, hvs⟩ := hvs
    refine (hc.onMemory (Q := V .i32) (fun m r hr => ?_) fun m e he => ?_).bind fun r hr =>
      Meets.pure ⟨hl, .cons hr hvs⟩
    · rcases h : m.grow delta.low.toNat with ⟨_ | n, m'⟩
      · simp only [h] at hr
        exact Except.ok.inj hr ▸ hc.values.value (.i32 (-1))
      · simp only [h] at hr
        exact Except.ok.inj hr ▸ hc.values.pages n
    · rcases h : m.grow delta.low.toNat with ⟨_ | n, m'⟩ <;> simp [h] at he
  | memoryCopy | memoryFill =>
    simp only [Plain.signature?, Option.ite_none_right_eq_some, Option.some.injEq,
      Prod.mk.injEq] at hop
    obtain ⟨-, rfl, rfl⟩ := hop
    obtain _ | ⟨-, _ | ⟨-, _ | ⟨-, hvs⟩⟩⟩ := hvs
    refine (hc.onMemory (Q := fun _ => True) (fun _ _ _ => trivial) fun m e he => ?_).bind
      fun _ _ => Meets.pure ⟨hl, hvs⟩
    obtain ⟨t, rfl⟩ : ∃ t,
      e = .trap t := by first | exact Memory.trap_of_copy he | exact Memory.trap_of_fill he
    exact hc.trap t
  | const v =>
    simp only [Plain.signature?, Option.some.injEq, Prod.mk.injEq] at hop
    obtain ⟨rfl, rfl⟩ := hop
    exact Meets.pure ⟨hl, .cons (hc.values.value v) hvs⟩
  | unary op =>
    simp only [Plain.signature?, Option.some.injEq, Prod.mk.injEq] at hop
    obtain ⟨rfl, rfl⟩ := hop
    obtain _ | ⟨ha, hvs⟩ := hvs
    exact (Meets.ofTrap hc.trap fun r => hc.values.unary ha).bind fun r hr => Meets.pure
      ⟨hl, .cons hr hvs⟩
  | binary op =>
    simp only [Plain.signature?, Option.some.injEq, Prod.mk.injEq] at hop
    obtain ⟨rfl, rfl⟩ := hop
    obtain _ | ⟨hb, _ | ⟨ha, hvs⟩⟩ := hvs
    exact (Meets.ofTrap hc.trap fun r => hc.values.binary ha hb).bind fun r hr => Meets.pure
      ⟨hl, .cons hr hvs⟩
  | call | callIndirect => simp [Plain.isCall] at hcall
  | _ => simp [Plain.signature?] at hop

/-- An instruction that goes on and neither branches nor calls. -/
theorem operate_carries (hc : Contract env V P E) (hsc : sc.mod = env.mod) {op : Plain}
    (hop : op.Typed sc labels ts (some us)) (hcall : op.isCall = false)
    (hbranch : ∀ d, op ≠ .brIf d) (hs : s.Carries V sc ts) :
    Meets (fun w : World H => P w.store) E (State.Carries V sc us) (operate env op s) := by
  cases hop with
  | sig h => exact signature_carries hc hsc h hcall hs
  | drop =>
    obtain ⟨locals, vs⟩ := s
    obtain ⟨hl, _ | ⟨-, hvs⟩⟩ := hs
    exact Meets.pure ⟨hl, hvs⟩
  | select =>
    obtain ⟨locals, vs⟩ := s
    obtain ⟨hl, _ | @⟨_, c, _, _, -, _ | ⟨hb, _ | ⟨ha, hvs⟩⟩⟩⟩ := hs
    refine Meets.pure ⟨hl, .cons ?_ hvs⟩
    split
    · exact ha
    · exact hb
  | brIf => exact absurd rfl (hbranch _)

/-! ### Calls -/

section Calls

variable {bodies : Nat → Nested} {invoke : Nat → List Value → Run (World H) (List Value)}
  {again : Nested → State → Run (Logged H) Outcome}

/-- A run of code that keeps `P` of the store, fails with `E` only and ends with
values that meet `Q`. -/
abbrev CodeMeets {α : Type} (P : Store → Prop) (E : Error → Prop) (Q : α → Prop)
    (x : Run (Logged H) α) : Prop :=
  Meets (fun l => P l.world.store) E Q x

theorem onWorld_meets {α : Type} {Q : α → Prop} {x : Run (World H) α}
    (hx : Meets (fun w => P w.store) E Q x) : CodeMeets P E Q (Logged.onWorld x) := by
  intro l hl
  have h := hx l.world hl
  rw [Logged.onWorld]
  generalize x l.world = r at h ⊢
  obtain ⟨(e | _ | _) | a, w⟩ := r
  · exact h
  · exact h
  · trivial
  · exact h

theorem apart_meets {α : Type} {Q : α → Prop} {x : Run (Logged H) α}
    (hx : Meets (fun l => P l.world.store) E Q x) : Meets
    (fun w : World H => P w.store) E Q (Logged.apart x) := by
  intro w hw
  have h := hx ⟨w, []⟩ hw
  rw [Logged.apart]
  generalize x ⟨w, []⟩ = r at h ⊢
  obtain ⟨(e | _ | _) | a, l⟩ := r
  · exact h
  · exact h
  · trivial
  · exact h

theorem note_meets (c : Call) : CodeMeets (H := H) P E (fun _ => True) (Logged.note c) :=
  fun _ hl => ⟨hl, trivial⟩

/-- What is known of the ways back into code: `again` runs typed code as its
type says, and `invoke` takes arguments and returns results of the right
types. -/
structure Back (env : Env H) (V : ValType → Raw → Prop) (P : Store → Prop) (E : Error → Prop)
    (invoke : Nat → List Value → Run (World H) (List Value))
    (again : Nested → State → Run (Logged H) Outcome) : Prop where
  /-- Typed code ends as its type says. -/
  again : ∀ {sc labels code ts us s}, sc.mod = env.mod → Nested.Typed sc labels code ts us →
    State.Carries V sc ts s →
    CodeMeets P E (Outcome.Carries V sc labels us) (again code s)
  /-- Functions return results of their types. -/
  invoke : ∀ {func t args}, env.mod.funcType? func = some t → args.map Value.type = t.params →
    Meets (fun w : World H => P w.store) E (fun rs => rs.map Value.type = t.results)
      (invoke func args)

/-- A typed body leaves the results of its function, however it ends. -/
theorem Outcome.Carries.results {o : Outcome} (h : o.Carries V sc [sc.results] sc.results.reverse) :
    List.Forall₂ V sc.results.reverse (o.results sc.results.length) := by
  have key {s : State} {rest : List ValType} (hs : s.Carries V sc (sc.results.reverse ++ rest)) :
      List.Forall₂ V sc.results.reverse (s.operands.take sc.results.length) := by
    simpa using (forall₂_split hs.2).1
  cases o with
  | next s =>
    have hs : s.Carries V sc (sc.results.reverse ++ []) := by simpa [Outcome.Carries] using h
    exact key hs
  | branch depth s =>
    obtain ⟨ls, rest, hls, hs⟩ := h
    rw [List.getElem?_singleton] at hls
    split at hls
    · obtain rfl := Option.some.inj hls
      exact key hs
    · simp at hls
  | ret s =>
    obtain ⟨rest, hs⟩ := h
    exact key hs

theorem split_eq {σ : Type} (hs : s.Fits sc (ps.reverse ++ ts)) :
    split ps.length s.operands =
    (Pure.pure (s.operands.take ps.length, s.operands.drop ps.length) : Run σ _) := by
  rw [split, if_neg (by simp [hs.2])]

/-- The parameters of a construct are there, and the operands below. -/
theorem State.Fits.split (hs : s.Fits sc (ps.reverse ++ ts)) :
    State.Fits sc ps.reverse { s with operands := s.operands.take ps.length } ∧
      (s.operands.drop ps.length).length = ts.length := by
  refine ⟨⟨hs.1, ?_⟩, ?_⟩ <;> simp [hs.2]

@[inherit_doc State.Fits.split]
theorem State.Carries.split (hs : s.Carries V sc (ps.reverse ++ ts)) :
    State.Carries V sc ps.reverse { s with operands := s.operands.take ps.length } ∧
      List.Forall₂ V ts (s.operands.drop ps.length) := by
  have hsplit := forall₂_split hs.2
  rw [List.length_reverse] at hsplit
  exact ⟨⟨hs.1, hsplit.1⟩, hsplit.2⟩

theorem pop_carries {σ : Type} {P : σ → Prop} {t : ValType} (hs : s.Carries V sc (t :: ts)) :
    Meets P E (fun p => p.2.Carries V sc ts) (pop s : Run σ (Raw × State)) := by
  obtain ⟨locals, vs⟩ := s
  obtain ⟨hl, _ | ⟨-, hvs⟩⟩ := hs
  exact Meets.pure ⟨hl, hvs⟩

section

variable (hc : Contract env V P E) (hb : env.mod.Bodies bodies)
  (hback : Back env V P E invoke again)
include hb hback

theorem finish_carries {i : Nat} {f : Func} {t : FuncType}
    {locals : Array Raw} (hf : env.mod.funcs[i]? = some f) (ht : env.mod.types[f.type]? = some t)
    (hlocals : List.Forall₂ V (t.params ++ f.locals) locals.toList) :
    CodeMeets P E (List.Forall₂ V t.results.reverse)
      (finish again t.results.length (bodies i) locals) := by
  obtain ⟨t', ht', hbody⟩ := hb.typed hf
  obtain rfl : t' = t := Option.some.inj (ht'.symm.trans ht)
  refine Meets.bind (Meets.leaving (hback.again rfl hbody ⟨hlocals, .nil⟩) fun _ hl => hl)
    fun o ho => ?_
  exact Meets.pure ho.results

include hc

theorem enter_carries {func : Nat} {f : Func} {t : FuncType} {args : List Raw}
    (hf : env.mod.funcs[func - env.imported]? = some f) (ht : env.mod.types[f.type]? = some t)
    (hargs : List.Forall₂ V t.params args) :
    CodeMeets P E (List.Forall₂ V t.results.reverse)
      (enter env bodies again func f t args) :=
  (onWorld_meets (World.enter_meets hc.trap)).bind fun _ _ => finish_carries hb hback hf ht
    (hc.values.locals hargs)

theorem call_carries {func : Nat} {t : FuncType} (ht : env.mod.funcType? func = some t)
    (hs : s.Carries V sc (t.params.reverse ++ ts)) :
    CodeMeets P E (State.Carries V sc (t.results.reverse ++ ts))
      (call env bodies invoke again func s) := by
  obtain ⟨hargs, hrest⟩ := hs.split
  rw [call]
  split
  · next hf =>
    simp only [ht, need_some, Run.pure_bind, split_eq hs.fits]
    refine (note_meets _).bind fun _ _ => ?_
    refine (onWorld_meets (hc.host hf ht (hc.callExport_meets hback.invoke) _)).bind
      fun rs hrs => ?_
    have hresults := List.rel_reverse (hc.values.values rs)
    rw [hrs] at hresults
    exact Meets.pure ⟨hs.1, List.rel_append hresults hrest⟩
  · next hf =>
    obtain ⟨f, hfunc, htype, hdef⟩ := Env.exists_defined hf ht
    have hargs := List.rel_reverse hargs.2
    rw [List.reverse_reverse] at hargs
    simp only [hdef, need_some, Run.pure_bind, split_eq hs.fits]
    refine (note_meets _).bind fun _ _ => ?_
    refine (enter_carries hc hb hback hfunc htype hargs).bind fun rs hrs => ?_
    exact Meets.pure ⟨hs.1, List.rel_append hrs hrest⟩

theorem callTable_carries {type table : Nat} {t : FuncType} (htable : table < env.mod.tableCount)
    (ht : env.mod.types[type]? = some t) (hs : s.Carries V sc (.i32 :: (t.params.reverse ++ ts))) :
    CodeMeets P E (State.Carries V sc (t.results.reverse ++ ts))
      (callTable env bodies invoke again type table s) := by
  refine (pop_carries hs).bind fun p hp => (onWorld_meets (hc.table htable p.1)).bind
    fun func hfunc => ?_
  simp only [ht, need_some, Run.pure_bind]
  refine (Meets.need hfunc).bind fun actual hactual => ?_
  split
  · next h => exact call_carries hc hb hback (h ▸ hactual) hp
  · exact Meets.fail (hc.trap _)

/-- A plain instruction ends as its type says. If it does not go on, it may be
followed by anything. -/
theorem plain_carries (hsc : sc.mod = env.mod) {op : Plain} {after : Option (List ValType)}
    (hop : op.Typed sc labels ts after) (hs : s.Carries V sc ts) :
    CodeMeets P E (fun o => ∀ us, (∀ vs, after = some vs → vs = us) → o.Carries V sc labels us)
      (plain env bodies invoke again op s) := by
  have next {us : List ValType} {x : Run (Logged H) State}
      (hx : CodeMeets P E (State.Carries V sc us) x) :
      CodeMeets P E
        (fun o => ∀ us', (∀ vs, some us = some vs → vs = us') → o.Carries V sc labels us')
        (x >>= fun s => Pure.pure (Outcome.next s)) :=
    hx.bind fun s' hs' => Meets.pure fun us' hus => hus _ rfl ▸ hs'
  cases hop with
  | sig h =>
    cases op with
    | call func =>
      simp only [Plain.signature?, hsc, Option.map_eq_some_iff, Prod.mk.injEq] at h
      obtain ⟨t, ht, rfl, rfl⟩ := h
      exact next (call_carries hc hb hback ht hs)
    | callIndirect type table =>
      simp only [Plain.signature?, hsc, Option.ite_none_right_eq_some, Option.map_eq_some_iff,
        Prod.mk.injEq] at h
      obtain ⟨htable, t, ht, rfl, rfl⟩ := h
      exact next (callTable_carries hc hb hback htable ht (by simpa using hs))
    | br | brIf | ret => simp [Plain.signature?] at h
    | _ => exact next (onWorld_meets (signature_carries hc hsc h rfl hs))
  | drop =>
    exact next
      (onWorld_meets (operate_carries hc hsc (@Plain.Typed.drop sc labels _ _) rfl (by simp) hs))
  | select =>
    exact next
      (onWorld_meets (operate_carries hc hsc (@Plain.Typed.select sc labels _ _) rfl (by simp) hs))
  | brIf h =>
    refine (pop_carries hs).bind fun p hp => Meets.pure fun us hus => ?_
    split
    · exact ⟨_, _, h, hp⟩
    · exact hus _ rfl ▸ hp
  | br h => exact Meets.pure fun us _ => ⟨_, _, h, hs⟩
  | ret => exact Meets.pure fun us _ => ⟨_, hs⟩
  | unreachable =>
    exact (onWorld_meets (Q := fun _ => False) (Meets.fail (hc.trap _))).bind fun _ h => h.elim

end

/-! ### Code -/

variable {args : BlockArgs} {o : Outcome}

theorem arity_eq {σ : Type} (h : args.type? env.mod = some (ps, rs)) :
    arity env args = (Pure.pure (ps.length, rs.length) : Run σ (Nat × Nat)) := by
  cases args with
  | empty | value =>
    simp only [BlockArgs.type?, Option.some.injEq, Prod.mk.injEq] at h
    obtain ⟨rfl, rfl⟩ := h
    rfl
  | func i =>
    simp only [BlockArgs.type?, Option.map_eq_some_iff, Prod.mk.injEq] at h
    obtain ⟨t, ht, rfl, rfl⟩ := h
    simp [arity, ht]

theorem Outcome.Carries.leave {below : List Raw} (ho : o.Carries V sc (rs :: labels) rs.reverse)
    (hbelow : List.Forall₂ V ts below) :
    (o.leave rs.length below).Carries V sc labels (rs.reverse ++ ts) := by
  match o, ho with
  | .next s, ho => exact ⟨ho.1, List.rel_append ho.2 hbelow⟩
  | .branch 0 s, ⟨ls, rest, hls, hs⟩ =>
    obtain rfl : rs = ls := by simpa using hls
    exact ⟨hs.1, List.rel_append hs.split.1.2 hbelow⟩
  | .branch (d + 1) s, ho => exact ho
  | .ret s, ho => exact ho

theorem andThen_carries {k : State → Run (Logged H) Outcome} (ho : o.Carries V sc labels ts)
    (hk : ∀ s, State.Carries V sc ts s → CodeMeets P E (Outcome.Carries V sc labels us) (k s)) :
    CodeMeets P E (Outcome.Carries V sc labels us) (o.andThen k) := by
  cases o with
  | next s => exact hk s ho
  | branch d s => exact Meets.pure ho
  | ret s => exact Meets.pure ho

theorem construct_carries (hsc : sc.mod = env.mod) {body : State → Run (Logged H) Outcome}
    (h : args.type? sc.mod = some (ps, rs)) (hs : s.Carries V sc (ps.reverse ++ ts))
    (hbody : ∀ s, State.Carries V sc ps.reverse s →
      CodeMeets P E (Outcome.Carries V sc (rs :: labels) rs.reverse) (body s)) :
    CodeMeets P E (Outcome.Carries V sc labels (rs.reverse ++ ts)) (construct env args s body) := by
  rw [construct, arity_eq (hsc ▸ h), Run.pure_bind]
  simp only [split_eq hs.fits, Run.pure_bind]
  exact (hbody _ hs.split.1).bind fun o ho => Meets.pure (ho.leave hs.split.2)

theorem orRestart_carries (hback : Back env V P E invoke again)
    (hsc : sc.mod = env.mod) {body : Nested} {below : List Raw}
    (h : args.type? sc.mod = some (ps, rs))
    (hinner : body.Typed sc (ps :: labels) ps.reverse rs.reverse)
    (ho : o.Carries V sc (ps :: labels) rs.reverse) (hbelow : List.Forall₂ V ts below) :
    CodeMeets P E (Outcome.Carries V sc labels (rs.reverse ++ ts))
      (o.orRestart ps.length rs.length below (again (.loop args body .done))) := by
  match o, ho with
  | .next s, ho => exact Meets.pure ⟨ho.1, List.rel_append ho.2 hbelow⟩
  | .branch 0 s, ⟨ls, rest, hls, hs⟩ =>
    obtain rfl : ps = ls := by simpa using hls
    exact hback.again hsc (.loop h hinner .done) ⟨hs.1, List.rel_append hs.split.1.2 hbelow⟩
  | .branch (d + 1) s, ho => exact Meets.pure ho
  | .ret s, ho => exact Meets.pure ho

/-- **Typed code does what its type says**, if what runs again does. -/
theorem exec_carries (hc : Contract env V P E) (hb : env.mod.Bodies bodies)
    (hback : Back env V P E invoke again) (hsc : sc.mod = env.mod) {code : Nested}
    (hcode : Nested.Typed sc labels code ts us) (hs : s.Carries V sc ts) :
    CodeMeets P E (Outcome.Carries V sc labels us) (exec env bodies invoke again code s) := by
  induction hcode generalizing s with
  | done => exact Meets.pure hs
  | plain h _ ih =>
    refine (plain_carries hc hb hback hsc h hs).bind fun o ho => ?_
    exact andThen_carries (ho _ fun _ hv => (Option.some.inj hv).symm) fun _ => ih
  | last h =>
    refine (plain_carries hc hb hback hsc h hs).bind fun o ho => ?_
    cases o with
    | next s =>
      -- operands of any types are as many as the types: there are none, so the end was not reached
      have hnone := (ho [] (by simp)).fits.2
      have hone := (ho [.i32] (by simp)).fits.2
      exact absurd (hnone.symm.trans hone) (by simp)
    | branch d s => exact Meets.pure (ho _ (by simp))
    | ret s => exact Meets.pure (ho _ (by simp))
  | @brTable labels targets default next ts us h =>
    refine (pop_carries hs).bind fun p hp => Meets.pure ?_
    have hmem : targets[p.1.low.toNat]?.getD default ∈ default :: targets := by
      cases hd : targets[p.1.low.toNat]? with
      | none => simp
      | some d => simp [List.mem_of_getElem? hd]
    obtain ⟨ls, rest, hls, rfl⟩ := h _ hmem
    exact ⟨ls, rest, hls, hp⟩
  | block h _ _ ihbody ihnext =>
    exact (construct_carries hsc h hs fun _ => ihbody).bind fun o ho => andThen_carries
      ho fun _ => ihnext
  | @loop labels args body next ps rs ts us h hinner hrest ihbody ihnext =>
    rw [exec, arity_eq (hsc ▸ h), Run.pure_bind]
    simp only [split_eq hs.fits, Run.pure_bind]
    refine (ihbody hs.split.1).bind fun o ho => ?_
    exact (orRestart_carries hback hsc h hinner ho hs.split.2).bind fun o ho => andThen_carries
      ho fun _ => ihnext
  | cond h _ _ ihbody ihnext =>
    refine (pop_carries hs).bind fun p hp => ?_
    obtain ⟨c, s⟩ := p
    simp only
    split
    · exact (construct_carries hsc h hp fun _ => ihbody).bind fun o ho => andThen_carries
        ho fun _ => ihnext
    · exact ihnext hp
  | condElse h _ _ _ ihyes ihno ihnext =>
    refine (pop_carries hs).bind fun p hp => ?_
    refine (construct_carries hsc h hp fun s hs => ?_).bind fun o ho => andThen_carries
      ho fun _ => ihnext
    split
    · exact ihyes hs
    · exact ihno hs

end Calls

/-- **Typed code does what its type says**, within any bound, and so do the
functions of a module. -/
theorem back_run (hc : Contract env V P E) {bodies : Nat → Nested}
    (hb : env.mod.Bodies bodies) (n : Nat) :
    Back env V P E (invoke env bodies n) (run env bodies n) := by
  induction n with
  | zero => exact ⟨fun _ _ _ => Meets.exhausted, fun _ _ => Meets.exhausted⟩
  | succ n ih =>
    refine ⟨fun hsc hcode hs => exec_carries hc hb ih hsc hcode hs,
      fun {func t args} ht hargs => ?_⟩
    rw [invoke]
    split
    · next hf => exact hc.host hf ht (hc.callExport_meets ih.invoke) args
    · next hf =>
      obtain ⟨f, hfunc, htype, hdef⟩ := Env.exists_defined hf ht
      simp only [hdef, need_some, Run.pure_bind]
      refine (apart_meets (enter_carries hc hb ih hfunc htype (hargs ▸ hc.values.values args))).bind
        fun rs hrs => Meets.pure ?_
      exact map_type_zipWith (by simpa using hrs.length_eq.symm)

/-! ### The number of operands

What is said of values at large, said of their number. -/

section Counts

variable {bodies : Nat → Nested} {invoke : Nat → List Value → Run (World H) (List Value)}
  {again : Nested → State → Run (Logged H) Outcome}

section

variable (hc : Contract env (fun _ _ => True) P E) (hb : env.mod.Bodies bodies)
  (hback : Back env (fun _ _ => True) P E invoke again)
include hb hback

theorem finish_meets {i : Nat} {f : Func} {t : FuncType} {locals : Array Raw}
    (hf : env.mod.funcs[i]? = some f) (ht : env.mod.types[f.type]? = some t)
    (hlocals : locals.size = t.params.length + f.locals.length) :
    CodeMeets P E (fun rs => rs.length = t.results.length)
      (finish again t.results.length (bodies i) locals) := by
  have hcount : (t.params ++ f.locals).length = locals.toList.length := by simp [hlocals]
  refine (finish_carries hb hback hf ht (forall₂_true_iff.2 hcount)).imp fun rs hrs => ?_
  simpa using hrs.length_eq.symm

include hc

theorem plain_meets (hsc : sc.mod = env.mod) {op : Plain} {after : Option (List ValType)}
    (hop : op.Typed sc labels ts after) (hs : s.Fits sc ts) :
    CodeMeets P E (fun o => ∀ us, (∀ vs, after = some vs → vs = us) → o.Fits sc labels us)
      (plain env bodies invoke again op s) := by
  simp only [State.fits_eq, Outcome.fits_eq] at hs ⊢
  exact plain_carries hc hb hback hsc hop hs

theorem exec_meets (hsc : sc.mod = env.mod) {code : Nested}
    (hcode : Nested.Typed sc labels code ts us) (hs : s.Fits sc ts) :
    CodeMeets P E (Outcome.Fits sc labels us) (exec env bodies invoke again code s) := by
  rw [State.fits_eq] at hs
  rw [Outcome.fits_eq]
  exact exec_carries hc hb hback hsc hcode hs

end

theorem construct_meets (hsc : sc.mod = env.mod) {args : BlockArgs}
    {body : State → Run (Logged H) Outcome} (h : args.type? sc.mod = some (ps, rs))
    (hs : s.Fits sc (ps.reverse ++ ts)) (hbody : ∀ s, State.Fits sc ps.reverse s →
      CodeMeets P E (Outcome.Fits sc (rs :: labels) rs.reverse) (body s)) :
    CodeMeets P E (Outcome.Fits sc labels (rs.reverse ++ ts)) (construct env args s body) := by
  simp only [State.fits_eq, Outcome.fits_eq] at hs hbody ⊢
  exact construct_carries hsc h hs hbody

theorem orRestart_meets (hback : Back env (fun _ _ => True) P E invoke again)
    (hsc : sc.mod = env.mod) {args : BlockArgs} {body : Nested} {below : List Raw} {o : Outcome}
    (h : args.type? sc.mod = some (ps, rs))
    (hinner : body.Typed sc (ps :: labels) ps.reverse rs.reverse)
    (ho : o.Fits sc (ps :: labels) rs.reverse) (hbelow : below.length = ts.length) :
    CodeMeets P E (Outcome.Fits sc labels (rs.reverse ++ ts))
      (o.orRestart ps.length rs.length below (again (.loop args body .done))) := by
  rw [Outcome.fits_eq] at ho ⊢
  exact orRestart_carries hback hsc h hinner ho (forall₂_true_iff.2 hbelow.symm)

/-- What typed code leaves behind is what its type says. -/
theorem fits_of_run (hlinked : env.Linked) (hb : env.mod.Bodies bodies) (hsc : sc.mod = env.mod)
    {code : Nested} {n : Nat} {o : Outcome} {l l' : Logged H} (hcode : code.Typed sc labels ts us)
    (hs : s.Fits sc ts) (hrun : run env bodies n code s l = (.ok o, l')) : o.Fits sc labels us := by
  rw [State.fits_eq] at hs
  rw [Outcome.fits_eq]
  exact ((back_run hlinked.contract hb n).again hsc hcode hs).of_ok trivial hrun

end Counts

end Structured

end WasmEngine
