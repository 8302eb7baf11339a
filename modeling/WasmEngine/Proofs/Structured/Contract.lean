import WasmEngine.Proofs.Meets
import WasmEngine.Proofs.Values

/-!
# What the code of a module relies on

A `WasmEngine.Contract` lists what the parts that code can name are good for:
accesses to the globals, tables and memory of the module keep `P` and fail with
`E` only, host functions do so too, and values meet a condition `V` of their
types, what is read from a global and what may be written to it included. All
that is said about runs of typed code follows from such a contract.

The number of operands is right whatever a store is like; so there is a contract
that asks for nothing (`WasmEngine.Env.Linked.contract`).
-/

namespace WasmEngine

open Run

/-! ### Arguments and results -/

/-- Checked arguments are of the types that are asked for. -/
theorem FuncType.types_of_checkArguments {t : FuncType} {args : List Value}
    (h : t.checkArguments args = .ok ()) : args.map Value.type = t.params := by
  have key : ∀ (i : Nat) (vs : List Value) (ts : List ValType), vs.length = ts.length →
    mismatch? i vs ts = none →
      vs.map Value.type = ts := by
    intro i vs
    induction vs generalizing i with
    | nil =>
      intro ts hl _
      exact (List.length_eq_zero_iff.1 hl.symm).symm
    | cons v vs ih =>
      rintro (_ | ⟨t, ts⟩) hl hm
      · simp at hl
      · rw [mismatch?] at hm
        split at hm
        · next hv => simp [hv, ih (i + 1) ts (by simpa using hl) hm]
        · simp at hm
  rw [checkArguments] at h
  split at h
  · simp at h
  · next hl =>
    split at h
    · simp at h
    · next hm => exact key 0 args t.params (by omega) hm

theorem map_type_zipWith {ts : List ValType} {rs : List Raw} (h : rs.length = ts.length) :
    (List.zipWith Value.ofRaw ts rs).map Value.type = ts := by
  induction ts generalizing rs with
  | nil => rfl
  | cons t ts ih =>
    obtain _ | ⟨r, rs⟩ := rs
    · simp at h
    · simp [ih (by simpa using h)]

/-! ### Accesses to memory only trap -/

namespace Memory

variable {m : Memory} {e : Error}

theorem trap_of_store {addr : Nat} {bs : List UInt8} (h : (m.store addr bs).1 = .error e) :
    ∃ t, e = .trap t := by
  rw [store] at h
  split at h
  · simp at h
  · exact ⟨_, (Except.error.inj h).symm⟩

theorem trap_of_fill {addr len : Nat} {b : UInt8} (h : (m.fill addr len b).1 = .error e) :
    ∃ t, e = .trap t := by
  rw [fill] at h
  split at h
  · simp at h
  · exact ⟨_, (Except.error.inj h).symm⟩

theorem trap_of_copy {dst src len : Nat} (h : (m.copy dst src len).1 = .error e) :
    ∃ t, e = .trap t := by
  rw [copy] at h
  split at h
  · exact ⟨_, (Except.error.inj h).symm⟩
  · split at h
    · exact ⟨_, (Except.error.inj h).symm⟩
    · simp at h

end Memory

theorem LoadOp.trap_of_run {op : LoadOp} {arg : MemArg} {m : Memory} {base : Raw} {e : Error}
    (h : op.run arg m base = .error e) : ∃ t, e = .trap t := by
  rw [run, Memory.load] at h
  split at h
  · simp [Except.map] at h
  · exact ⟨_, (Except.error.inj h).symm⟩

namespace Store

variable {s : Store} {α : Type} {Q : α → Prop}

theorem seeMemory_ok {f : Memory → Except Error α} (hf : ∀ m a, f m = .ok a → Q a) {a : α}
    (h : s.seeMemory f = .ok a) : Q a := by
  rw [seeMemory] at h
  split at h
  · exact hf _ a h
  · cases h

theorem onMemory_ok {f : Memory → Except Error α × Memory}
    (hf : ∀ m a, (f m).1 = .ok a → Q a) {a : α} (h : (s.onMemory f).1 = .ok a) : Q a := by
  obtain ⟨gs, ts, _ | m⟩ := s
  · cases h
  · exact hf m a h

end Store

variable {H : Type}

namespace Env

variable {env : Env H}

/-- A function that has a type and is not imported has a body. -/
theorem exists_defined {func : Nat} {t : FuncType} (hf : ¬func < env.imported)
    (ht : env.mod.funcType? func = some t) :
    ∃ f, env.mod.funcs[func - env.imported]? = some f ∧ env.mod.types[f.type]? = some t ∧
      env.defined? func = some (f, t) := by
  have hf' : ¬func < env.mod.importedCount := hf
  simp only [Module.funcType?, Module.typeIndex?, hf', if_false, Option.bind_eq_bind,
    Option.bind_eq_some_iff, Option.map_eq_some_iff] at ht
  obtain ⟨_, ⟨f, hfunc, rfl⟩, ht⟩ := ht
  exact ⟨f, hfunc, ht, by simp [defined?, imported, hf', hfunc, ht]⟩

theorem of_defined {func : Nat} {f : Func} {t : FuncType} (h : env.defined? func = some (f, t)) :
    env.mod.funcs[func - env.mod.importedCount]? = some f ∧ env.mod.types[f.type]? = some t ∧
    env.mod.funcType? func = some t := by
  by_cases hfunc : func < env.imported
  · simp [defined?, hfunc] at h
  · simp only [defined?, hfunc, if_false, Option.bind_eq_bind, Option.bind_eq_some_iff,
      Option.pure_def, Option.some.injEq, Prod.mk.injEq] at h
    obtain ⟨_, hf, _, ht, rfl, rfl⟩ := h
    have hfunc' : ¬func < env.mod.importedCount := hfunc
    have hf' : env.mod.funcs[func - env.mod.importedCount]? = some _ := hf
    exact ⟨hf, ht, by simp [Module.funcType?, Module.typeIndex?, hfunc', hf', ht]⟩

/-- What a host function can be told when it calls an export: that there is
none, that the arguments do not fit, or what the call came to. -/
def Refuses (env : Env H) (E : Error → Prop) (name : String) (args : List Value)
    (e : Error) : Prop :=
  E e ∨ (env.mod.exportedFunc? name = none ∧ e = .functionNotFound "env" name) ∨
    ∃ func t, env.mod.exportedFunc? name = some func ∧ env.mod.funcType? func = some t ∧
      t.checkArguments args = .error e

end Env

/-! ### Contracts -/

variable {env : Env H} {V : ValType → Raw → Prop} {P : Store → Prop}

/-- **What the code of a module relies on**: that values meet `V`, and that
accesses to what the module has keep `P` and fail with `E` only. -/
structure Contract (env : Env H) (V : ValType → Raw → Prop) (P : Store → Prop)
    (E : Error → Prop) : Prop where
  /-- What computes values upholds the condition on them. -/
  values : env.policy.Upholds V
  /-- Traps are allowed. -/
  trap : ∀ t, E (.trap t)
  /-- Exports have types. -/
  exported : ∀ {name func}, env.mod.exportedFunc? name = some func → env.mod.funcType? func = none →
    E (.fault (.funcWithoutType func))
  /-- Globals can be read. -/
  global : ∀ {i g}, env.mod.globalTypes[i]? = some g →
    Meets (fun w : World H => P w.store) E (V g.type) (World.global i)
  /-- Globals can be written. -/
  setGlobal : ∀ {i g}, env.mod.globalTypes[i]? = some g → ∀ {r}, V g.type r →
    Meets (fun w : World H => P w.store) E (fun _ => True) (World.setGlobal i r)
  /-- Tables hold functions. -/
  table : ∀ {i}, i < env.mod.tableCount → ∀ r,
    Meets (fun w : World H => P w.store) E
      (fun func => env.mod.funcType? func = none → E (.fault (.funcNotFound func)))
        (World.tableFunc i r)
  /-- The memory can be read. -/
  seeMemory : ∀ {α : Type} {Q : α → Prop} {f : Memory → Except Error α},
    (∀ m a, f m = .ok a → Q a) →
    (∀ m e, f m = .error e → E e) → Meets (fun w : World H => P w.store) E Q
      (World.seeStore fun s => s.seeMemory f)
  /-- The memory can be written. -/
  onMemory : ∀ {α : Type} {Q : α → Prop} {f : Memory → Except Error α × Memory},
    (∀ m a, (f m).1 = .ok a → Q a) →
    (∀ m e, (f m).1 = .error e → E e) → Meets (fun w : World H => P w.store) E Q (World.onMemory f)
  /-- Host functions return what their type says, if what they are answered is
  allowed. -/
  host : ∀ {func t reenter}, func < env.imported → env.mod.funcType? func = some t →
    (∀ name args, Meets (fun w : World H => P w.store) (env.Refuses E name args) (fun _ => True)
      (reenter name args)) →
    ∀ args, Meets (fun w : World H => P w.store) E (fun rs => rs.map Value.type = t.results)
      (env.callHost reenter func args)

theorem Contract.callExport_meets {E : Error → Prop} (hc : Contract env V P E)
    {invoke : Nat → List Value → Run (World H) (List Value)}
    (hinvoke : ∀ {func t args}, env.mod.funcType? func = some t → args.map Value.type = t.params →
      Meets (fun w : World H => P w.store) E (fun rs => rs.map Value.type = t.results)
        (invoke func args))
    (name : String) (args : List Value) :
    Meets (fun w : World H => P w.store) (env.Refuses E name args) (fun _ => True)
      (env.callExport invoke name args) := by
  cases hf : env.mod.exportedFunc? name with
  | none =>
    simp only [Env.callExport, hf]
    exact Meets.fail (Or.inr (Or.inl ⟨hf, rfl⟩))
  | some func =>
    simp only [Env.callExport, hf]
    refine (Meets.need fun ht => Or.inl (hc.exported hf ht)).bind fun t ht => ?_
    refine Meets.bind (Q := fun _ => t.checkArguments args = .ok ()) ?_ fun _ hargs => ?_
    · exact Meets.ofExcept (fun _ h => h) fun e he => Or.inr (Or.inr ⟨func, t, hf, ht, he⟩)
    · exact (hinvoke ht (FuncType.types_of_checkArguments hargs)).mono (fun _ => Or.inl)
        fun _ _ => trivial

/-- The host functions behind the imports are there, and of the types that the
module declares. -/
def Env.Linked (env : Env H) : Prop :=
  ∀ {func t}, func < env.imported → env.mod.funcType? func = some t →
    ∃ f, env.hosts[func]? = some f ∧ f.type = t

theorem Env.Linked.callHost_meets {E : Error → Prop} (hlinked : env.Linked)
    {func : Nat} {t : FuncType} {reenter : String → List Value → Run (World H) (List Value)}
    {args : List Value} (hfunc : func < env.imported) (ht : env.mod.funcType? func = some t)
    (htrap : ∀ t, E (.trap t)) (hresults : ∀ rs : List Value, rs.map Value.type ≠ t.results →
      E (.fault (.hostResults func rs t.results)))
    (hrun : ∀ f, env.hosts[func]? = some f → Meets (fun w : World H => P w.store) E (fun _ => True)
      ((f.run args).run reenter)) :
    Meets (fun w : World H => P w.store) E (fun rs => rs.map Value.type = t.results)
      (env.callHost reenter func args) := by
  obtain ⟨f, hf, rfl⟩ := hlinked hfunc ht
  simp only [Env.callHost, hf, need_some, Run.pure_bind]
  refine (World.guarded_meets htrap (hrun f hf)).bind fun rs _ => ?_
  split
  · next h => exact Meets.pure h
  · next h => exact Meets.fail (hresults rs h)

/-- **A store whose globals meet the condition** is all that a contract needs if
every error is allowed. -/
theorem Env.Linked.contract_of (hlinked : env.Linked) (hvalues : env.policy.Upholds V)
    (hglobal : ∀ {s i g r}, P s → env.mod.globalTypes[i]? = some g →
      s.global i = .ok r → V g.type r)
    (hsetGlobal : ∀ {s i g r}, P s → env.mod.globalTypes[i]? = some g → V g.type r →
      P (s.setGlobal i r).2)
    (honMemory : ∀ {s} {α : Type} (f : Memory → Except Error α × Memory), P s →
      P (s.onMemory f).2) : Contract env V P fun _ => True where
  values := hvalues
  trap _ := trivial
  exported _ _ := trivial
  global hg := World.seeStore_meets (P := P) (fun _ _ hs hr => hglobal hs hg hr)
    fun _ _ _ _ => trivial
  setGlobal hg _ hr := World.onStore_meets (P := P) (fun _ hs => hsetGlobal hs hg hr)
    (fun _ _ _ _ => trivial)
    fun _ _ _ _ => trivial
  table _ _ := World.seeStore_meets (P := P) (fun _ _ _ _ _ => trivial) fun _ _ _ _ => trivial
  seeMemory hQ _ := World.seeStore_meets (P := P) (fun _ _ _ ha => Store.seeMemory_ok hQ ha)
    fun _ _ _ _ => trivial
  onMemory hQ _ := World.onStore_meets (P := P) (fun _ hs => honMemory _ hs)
    (fun _ _ _ ha => Store.onMemory_ok hQ ha)
    fun _ _ _ _ => trivial
  host hfunc ht hreenter args := by
    refine hlinked.callHost_meets (P := P) (E := fun _ => True) hfunc ht (fun _ => trivial)
      (fun _ _ => trivial) fun f _ => ?_
    refine HostProg.run_meets (A := fun _ _ _ => True) (B := fun _ _ => True)
      (R := fun _ _ => True) ?_ (fun _ _ hw => hw) (fun op => ?_) (fun name args => ?_) _
    · constructor <;> intros <;> trivial
    · exact World.onStore_meets (P := P) (fun _ hs => honMemory _ hs) (fun _ _ _ _ => trivial)
        fun _ _ _ _ => trivial
    · exact (hreenter name args).mono (fun _ _ => trivial) fun _ _ => trivial

/-- A state whose globals meet a condition is all that code needs in order to
uphold it. -/
theorem Env.Linked.contract_carries (hlinked : env.Linked) (hvalues : env.policy.Upholds V) :
    Contract env V (Store.Carries V env.mod) fun _ => True :=
  hlinked.contract_of hvalues Store.Carries.global Store.Carries.setGlobal Store.Carries.onMemory

/-- Without anything being asked of values or of the store, the number of
results is right. -/
theorem Env.Linked.contract (hlinked : env.Linked) :
    Contract env (fun _ _ => True) (fun _ => True) fun _ => True :=
  hlinked.contract_of (FloatPolicy.upholds_true _) (fun _ _ _ => trivial) (fun _ _ _ => trivial)
    fun _ _ => trivial

end WasmEngine
