import WasmEngine.Proofs.Instance.CallDepth
import WasmEngine.Proofs.Instance.Soundness

/-!
# The life of an instance

Between operations an instance is in one of two conditions, and its history
tells which: it is **ready** exactly if the last set-up succeeded and neither
its memory nor the functions of its host were replaced since
(`WasmEngine.Instance.Stands`). If it is ready, it is complete
(`WasmEngine.Instance.Complete`): nothing of what the module declares is
missing, and nothing is there twice. If it is not, every call is refused.

A set-up passes through both conditions. It takes the instance out of service
first, has five ways to fail before it is put back, and one after that, which is
the start function. So what an operation does to the condition is worked out
first (`WasmEngine.Instance.ready_act`), and histories follow.
-/

namespace WasmEngine

open Run

variable {H : Type}

/-- An imported function of a valid module has a type. -/
theorem Module.Valid.exists_importType {m : Module} (hm : m.Valid) {k : Nat}
    (hk : k < m.importedCount) : ∃ t, m.funcType? k = some t := by
  have htype := hm.imports _ (List.getElem_mem hk)
  simp only [Module.funcType?, Module.typeIndex?, hk, if_true]
  exact ⟨m.types[m.importedTypes[k]], by simp [htype, List.getElem?_eq_getElem hk]⟩

namespace Instance

/-! ### When an instance is ready -/

/-- Whether an operation decides by itself if the instance is ready afterwards. -/
def Operation.Decides : Operation H → Prop
  | .setMemory _ | .setRegistry _ | .setUp _ => True
  | _ => False

/-- **The last set-up stands**: it succeeded, and after it nothing was done that
takes an instance out of service. -/
def Stands (i : Instance H) (past : List (Occasion H)) : Prop :=
  ∃ before o after options, past = before ++ o :: after ∧ o.operation = .setUp options ∧
    (o.outcome (i.through before)).1 = .ok .done ∧ ∀ o' ∈ after, ¬o'.operation.Decides

variable {m : Module} {s : Strategy} {i : Instance H} {h : H}

theorem ready_link (i : Instance H) (h : H) : (link (i, h)).2.1.ready = i.ready := by
  simp only [link]
  split
  · rfl
  · split <;> rfl

theorem ready_prepare (i : Instance H) (h : H) : (prepare (i, h)).2.1.ready = i.ready := by
  simp only [prepare]
  split
  · rfl
  · split <;> rfl

/-- All but the last stage of a set-up leave the instance out of service, and
the last one leaves it so if it fails. -/
theorem ready_build (options : Option Options) (i : Instance H) (h : H) :
    (build options (i, h)).2.1.ready = true ↔ (build options (i, h)).1 = .ok () := by
  have hoptions : (applyOptions options (i, h)).2.1.ready = false := by
    rw [applyOptions]
    split <;> rfl
  simp only [build, bind_apply]
  generalize applyOptions options (i, h) = x at hoptions ⊢
  obtain ⟨e | _, i₁, h₁⟩ := x
  · simpa using hoptions
  have hlink : (link (i₁, h₁)).2.1.ready = false := (ready_link i₁ h₁).trans hoptions
  dsimp only
  generalize link (i₁, h₁) = x at hlink ⊢
  obtain ⟨e | _, i₂, h₂⟩ := x
  · simpa using hlink
  have hprepare : (prepare (i₂, h₂)).2.1.ready = false := (ready_prepare i₂ h₂).trans hlink
  dsimp only
  generalize prepare (i₂, h₂) = x at hprepare ⊢
  obtain ⟨e | _, i₃, h₃⟩ := x
  · simpa using hprepare
  · simp only [instantiate]
    rcases i₃.store.instantiate i₃.mod i₃.options with ⟨e | _, store⟩
    · simpa using hprepare
    · simp

/-- A set-up leaves the instance ready exactly if it succeeds. -/
theorem ready_setUp (bound : Nat) (options : Option Options) (i : Instance H) (h : H) :
    (setUp bound options (i, h)).2.1.ready = true ↔ (setUp bound options (i, h)).1 = .ok () := by
  have hbuild := ready_build options i h
  rw [setUp_eq, bind_apply]
  generalize build options (i, h) = x at hbuild ⊢
  obtain ⟨e | _, i', h'⟩ := x
  · exact hbuild
  · refine ⟨fun hready => ?_, fun hok => ready_start (hbuild.2 rfl) hok⟩
    simp only [start] at hready ⊢
    generalize i'.mod.start = func? at hready ⊢
    obtain _ | func := func?
    · rfl
    · dsimp only at hready ⊢
      generalize run bound func [] (i', h') = y at hready ⊢
      obtain ⟨e | vs, i'', h''⟩ := y
      · cases hready
      · rfl

theorem ready_planCall (i : Instance H) (h : H) (space name : String) (args : List Value)
    (answer : List Value → Except Error Answer) (refuse : Nat → Option Error) (bound : Nat) :
    ((planCall i h space name args answer refuse).run bound).2.1.ready = i.ready := by
  rw [run_planCall]
  rcases i.lookup space name args with e | ⟨func, results⟩
  · rfl
  · dsimp only
    rcases refuse results with _ | e
    · have hrun := ready_run (i := i) (h := h) bound func args
      dsimp only
      generalize run bound func args (i, h) = x at hrun ⊢
      obtain ⟨e | vs, i', h'⟩ := x <;> exact hrun
    · rfl

/-- **What an operation does to the condition of an instance.** A new memory or
new functions take it out of service, a set-up puts it into service if it
succeeds, and nothing else makes a difference. -/
theorem ready_act (op : Operation H) (bound : Nat) (i : Instance H) (h : H) :
    (op.act bound (i, h)).2.1.ready = true ↔
      ((∃ options, op = .setUp options) ∧ (op.act bound (i, h)).1 = .ok .done) ∨
      (¬op.Decides ∧ i.ready = true) := by
  cases op with
  | setMemory | setRegistry => simp [Operation.act, Operation.Decides, setMemory, setRegistry]
  | setUp options =>
    have hsetUp := ready_setUp bound options i h
    simp only [Operation.act, bind_apply, Operation.Decides]
    generalize setUp bound options (i, h) = x at hsetUp ⊢
    obtain ⟨e | _, i', h'⟩ := x
    · simpa using hsetUp
    · simpa using hsetUp
  | invoke | call | callForValue | callTyped =>
    rw [act_eq_plan, Operation.plan, ready_planCall]
    simp [Operation.Decides]
  | memory op =>
    simp only [Operation.act, onMemory, Operation.Decides]
    rcases i.store.onMemory fun mem => mem.apply op with ⟨e | r, store⟩ <;> simp

theorem stands_cons (i : Instance H) (o : Occasion H) (os : List (Occasion H)) :
    Stands i (o :: os) ↔
      (((∃ options, o.operation = .setUp options) ∧ (o.outcome i).1 = .ok .done) ∧
        ∀ o' ∈ os, ¬o'.operation.Decides) ∨
        Stands (o.outcome i).2.1 os := by
  constructor
  · rintro ⟨_ | ⟨o', before⟩, last, after, options, hpast, hop, hok, hafter⟩
    · obtain ⟨rfl, rfl⟩ := List.cons.inj hpast
      exact .inl ⟨⟨⟨options, hop⟩, hok⟩, hafter⟩
    · obtain ⟨rfl, rfl⟩ := List.cons.inj hpast
      exact .inr ⟨before, last, after, options, rfl, hop, hok, hafter⟩
  · rintro (⟨⟨⟨options, hop⟩, hok⟩, hafter⟩ | ⟨before, last, after, options, rfl, hop, hok, hafter⟩)
    · exact ⟨[], o, os, options, rfl, hop, hok, hafter⟩
    · exact ⟨o :: before, last, after, options, rfl, hop, hok, hafter⟩

/-- **The history tells whether an instance is ready**: the last set-up stands,
or it was ready from the start and nothing was done that takes it out of
service. -/
theorem ready_through_iff (past : List (Occasion H)) (i : Instance H) :
    (i.through past).ready = true ↔ Stands i past ∨
    (i.ready = true ∧ ∀ o ∈ past, ¬o.operation.Decides) := by
  induction past generalizing i with
  | nil =>
    constructor
    · exact fun hready => .inr ⟨hready, by simp⟩
    · rintro (⟨before, o, after, options, hpast, -⟩ | ⟨hready, -⟩)
      · simp at hpast
      · exact hready
  | cons o os ih =>
    have hact : (o.outcome i).2.1.ready = true ↔ _ := ready_act o.operation o.bound i o.host
    rw [through, ih, hact, stands_cons]
    constructor
    · rintro (hstands | ⟨hset | ⟨hdecides, hready⟩, hos⟩)
      · exact .inl (.inr hstands)
      · exact .inl (.inl ⟨hset, hos⟩)
      · exact .inr ⟨hready, List.forall_mem_cons.2 ⟨hdecides, hos⟩⟩
    · rintro ((⟨hset, hos⟩ | hstands) | ⟨hready, hall⟩)
      · exact .inr ⟨.inl hset, hos⟩
      · exact .inl hstands
      · obtain ⟨hdecides, hos⟩ := List.forall_mem_cons.1 hall
        exact .inr ⟨.inr ⟨hdecides, hready⟩, hos⟩

/-! ### What is refused -/

/-- What an operation that calls an export calls: the name space for errors, the
name and the arguments. -/
def Operation.export? : Operation H → Option (String × String × List Value)
  | .invoke name args | .callTyped name args _ => some ("env", name, args)
  | .call space name args | .callForValue space name args => some (space, name, args)
  | _ => none

/-- **The errors that a call is rejected with** before anything runs. -/
inductive Operation.Rejected (m : Module) : Operation H → Error → Prop
  /-- There is no such export. -/
  | unknown {op : Operation H} {space name args} (hop : op.export? = some (space, name, args))
    (hfunc : m.exportedFunc? name = none) : Rejected m op (.functionNotFound space name)
  /-- The arguments are too few or too many, or one is not of its type. -/
  | arguments {op : Operation H} {space name args func t e}
    (hop : op.export? = some (space, name, args))
    (hfunc : m.exportedFunc? name = some func) (ht : m.funcType? func = some t)
      (hargs : t.checkArguments args = .error (.arguments e)) : Rejected m op (.arguments e)
  /-- There is more than one result, where at most one is asked for. -/
  | manyResults {space name args func t} (hfunc : m.exportedFunc? name = some func)
    (ht : m.funcType? func = some t)
    (hargs : t.checkArguments args = .ok ()) (hmany : 1 < t.results.length) :
    Rejected m (.callForValue space name args) (.unsupported (.manyResults name t.results.length))

theorem lookup_of_unready (hready : i.ready = false) (space name : String) (args : List Value) :
    i.lookup space name args = .error .notInitialized := by
  simp only [lookup, hready]
  rfl

/-- A call whose look-up fails ends with that error, and changes nothing. -/
theorem act_of_lookup_error {op : Operation H} {space name : String} {args : List Value} {e : Error}
    (hop : op.export? = some (space, name, args)) (hlookup : i.lookup space name args = .error e)
    (bound : Nat) (h : H) : op.act bound (i, h) = (.error (.error e), i, h) := by
  cases op with
  | setMemory | setRegistry | setUp | memory => cases hop
  | invoke | call | callForValue | callTyped =>
    cases hop
    rw [act_eq_plan, Operation.plan, run_planCall, hlookup]

theorem act_of_rejected (hmod : i.mod = m) (hready : i.ready = true) {op : Operation H} {e : Error}
    (he : op.Rejected m e) (bound : Nat) (h : H) :
    op.act bound (i, h) = (.error (.error e), i, h) := by
  subst hmod
  cases he with
  | unknown hop hfunc =>
    refine act_of_lookup_error hop ?_ bound h
    simp only [lookup, hready, hfunc]
    rfl
  | arguments hop hfunc ht hargs =>
    refine act_of_lookup_error hop ?_ bound h
    simp only [lookup, hready, hfunc, ht, hargs]
    rfl
  | @manyResults space name args func t hfunc ht hargs hmany =>
    rw [act_eq_plan, Operation.plan, run_planCall, lookup_eq hready hfunc ht hargs]
    simp only [if_pos hmany]

/-! ### The invariant -/

/-- **An instance with all that its module declares, and nothing else.** -/
structure Complete (m : Module) (i : Instance H) : Prop where
  /-- There is a memory. -/
  memory : i.store.memory.isSome
  /-- The module is prepared. -/
  runtime : ∃ r, i.runtime = some r ∧ Runtime.prepare i.strategy m = .ok r
  /-- The ceiling of call depth is one that is supported. -/
  depth : i.options.maxCallDepth ≤ 512
  /-- There are as many host functions as imported functions. -/
  hosts : i.hosts.size = m.importedCount
  /-- Each is of the type that the module gives to the function of its number. -/
  types : ∀ {k f}, i.hosts[k]? = some f → m.funcType? k = some f.type
  /-- There are as many globals as the module declares. -/
  globals : i.store.globals.size = m.globals.length
  /-- There are as many tables, of the declared sizes. -/
  tables : i.store.tables.map Array.size = (m.tables.map TableType.initial).toArray

theorem Sound.complete (hm : m.Valid) (hi : i.Sound m s) (hready : i.ready = true) :
    i.Complete m := by
  have hserves := hi.ready hready
  obtain ⟨r, hr⟩ := Option.isSome_iff_exists.1 hserves.prepared
  refine ⟨hserves.supplied.memory, ⟨r, hr, hi.strategy ▸ hi.prepared r hr⟩, hserves.depth,
    hserves.hosts, ?_, hserves.sized.globals, hserves.sized.tables⟩
  intro k f hf
  have hk : k < m.importedCount := hserves.hosts ▸ (Array.getElem?_eq_some_iff.1 hf).1
  obtain ⟨t, ht⟩ := hm.exists_importType hk
  obtain ⟨f', hf', rfl⟩ := hserves.linked hk ht
  obtain rfl : f' = f := Option.some.inj (hf'.symm.trans hf)
  exact ht

/-- **The life of an instance** that things have been done to. -/
structure Lives (m : Module) (s : Strategy) (p : FloatPolicy) (o : Options)
    (past : List (Occasion H)) (i : Instance H) : Prop where
  /-- No call is active, with the ceiling of the options. -/
  idle : i.guard = ⟨0, i.options.maxCallDepth⟩
  /-- It is ready exactly if the last set-up stands. -/
  ready_iff : i.ready = true ↔ Stands (fresh m s p o) past
  /-- Then it is complete. -/
  complete : i.ready = true → i.Complete m
  /-- Until then every call is refused, and that changes nothing. -/
  refused : i.ready = false → ∀ (op : Operation H) (bound : Nat) (h : H), op.export?.isSome →
    op.act bound (i, h) = (.error (.error .notInitialized), i, h)
  /-- Nor does a call that is rejected because of its name, its arguments or the
  number of its results. -/
  rejected : i.ready = true → ∀ (op : Operation H) (e : Error) (bound : Nat) (h : H),
    op.Rejected m e → op.act bound (i, h) = (.error (.error e), i, h)

theorem lives_of_valid (hm : m.Valid) (s : Strategy) (p : FloatPolicy) (o : Options)
    (past : List (Occasion H)) : Lives m s p o past ((fresh m s p o).through past) := by
  have hi := sound_through hm (sound_fresh m s p o) past
  refine ⟨through_idle past rfl, ?_, fun hready => hi.complete hm hready, ?_, ?_⟩
  · rw [ready_through_iff]
    refine or_iff_left ?_
    rintro ⟨⟨⟩, -⟩
  · intro hready op bound h hcall
    obtain ⟨⟨space, name, args⟩, hop⟩ := Option.isSome_iff_exists.1 hcall
    exact act_of_lookup_error hop (lookup_of_unready hready space name args) bound h
  · intro hready op e bound h he
    exact act_of_rejected hi.mod hready he bound h

/-- **The life of an instance** of a module that can be decoded, whatever has
been done to it. -/
theorem lifecycle {bs : List UInt8} (hm : Module.decode bs = .ok m) (s : Strategy)
    (p : FloatPolicy) (o : Options) (past : List (Occasion H)) :
    Lives m s p o past ((fresh m s p o).through past) :=
  lives_of_valid (Module.valid_of_decode hm) s p o past

/-- The adder is set up for two nested calls and called, and then set up again
with a ceiling that is too high. So it is out of service, and the ceiling is the
one that it had. -/
theorem adder_lifecycle :
    let past : List (Occasion Unit) :=
      [⟨(), 0, .setMemory 0⟩, ⟨(), 9, .setUp (some { maxCallDepth := 2 })⟩,
      ⟨(), 9, .invoke "go" [.i32 4]⟩, ⟨(), 9, .setUp (some { maxCallDepth := 513 })⟩]
    let i := (fresh adder .compiled .soft {}).through past
    Module.decode adderBytes = .ok adder ∧ i.guard = ⟨0, i.options.maxCallDepth⟩ ∧
    i.options.maxCallDepth = 2 ∧
      ((fresh adder .compiled .soft {}).through (past.take 3)).ready = true ∧
      ((fresh adder .compiled .soft {}).through (past.take 3)).Complete adder ∧
      ¬Stands (fresh adder .compiled .soft {}) past ∧
      (Operation.call "env" "go" [.i32 4]).act 9 (i, ()) =
      (.error (.error .notInitialized), i, ()) := by
  intro past i
  obtain ⟨hguard, hstands, -, hrefused, -⟩ := lifecycle decode_adder .compiled .soft {} past
  have hready : ((fresh adder .compiled .soft {}).through (past.take 3)).ready =
    true := by decide +kernel
  have hnot : i.ready = false := by decide +kernel
  refine ⟨decode_adder, hguard, by decide +kernel, hready,
    (lifecycle decode_adder .compiled .soft {} (past.take 3)).complete hready, ?_,
    hrefused hnot _ 9 () rfl⟩
  intro h
  exact absurd (hnot.symm.trans (hstands.2 h)) (by simp)

end Instance

end WasmEngine
