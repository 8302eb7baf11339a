import WasmEngine.Proofs.Keeps

/-!
# Building the state of an instance

The state that a module declares is built over whatever state there was. Of that
only the byte limit of the memory is left
(`WasmEngine.Store.instantiate_eq_of_limit_eq`): the reset clears the memory,
the globals are replaced before the first is computed, and the tables before the
first entry is written. Between these steps the state is a mixture of old and
new, but nothing reads what is old in it.
-/

namespace WasmEngine.Store

variable {α : Type} {s t : Store}

/-! ### What stays while a state is built -/

/-- What each of several things keeps is kept by all of them in a row. -/
theorem each_preserves {P : Store → Prop} {f : Store → α → Except Error Unit × Store} {as : List α}
    (hf : ∀ s : Store, ∀ a ∈ as, P s → P (f s a).2) (h : P s) : P (s.each f as).2 := by
  induction as generalizing s with
  | nil => exact h
  | cons a as ih =>
    have ha := hf s a List.mem_cons_self h
    rw [Store.each]
    generalize f s a = r at ha ⊢
    obtain ⟨e | _, s₁⟩ := r
    · exact ha
    · exact ih (fun s b hb => hf s b (List.mem_cons_of_mem a hb)) ha

/-- **What every step of building a state keeps holds of what comes of it**, be
it complete or not. -/
theorem instantiate_preserves {P : Store → Prop} {m : Module} {o : Options}
    (hreset : P (s.resetMemory m o).2)
    (hglobals : ∀ s : Store, P s → P (addGlobals { s with globals := #[] } m.globals).2)
    (htables : ∀ (s : Store) ts, P s → P { s with tables := ts })
    (helements : ∀ s : Store, ∀ e ∈ m.elements, P s → P (s.addElement e).2)
    (hdata : ∀ s : Store, ∀ d ∈ m.data, P s → P (s.addData d).2) : P (s.instantiate m o).2 := by
  rw [instantiate]
  generalize s.resetMemory m o = r at hreset ⊢
  obtain ⟨e | _, s₁⟩ := r
  · exact hreset
  have hglobals := hglobals s₁ hreset
  dsimp only
  generalize addGlobals { s₁ with globals := #[] } m.globals = r at hglobals ⊢
  obtain ⟨e | _, s₂⟩ := r
  · exact hglobals
  have helements := each_preserves helements
    (htables s₂ (m.tables.map fun (t : TableType) => Array.replicate t.initial
      none).toArray hglobals)
  dsimp only
  generalize each addElement _ m.elements = r at helements ⊢
  obtain ⟨e | _, s₃⟩ := r
  · exact helements
  · exact each_preserves hdata helements

/-! ### The byte limit -/

theorem limit_resetMemory (s : Store) (m : Module) (o : Options) :
    (s.resetMemory m o).2.limit = s.limit := by
  rw [resetMemory]
  cases m.memories.head? with
  | none =>
    refine limit_onMemory (fun mem => ?_) s
    exact mem.byteLimit_apply (.reset 0 0)
  | some t =>
    refine limit_onMemory (fun mem => ?_) s
    exact mem.byteLimit_apply (.reset t.initial _)

theorem limit_addGlobals (s : Store) (gs : List Global) : (s.addGlobals gs).2.limit = s.limit := by
  induction gs generalizing s with
  | nil => rfl
  | cons g gs ih =>
    rw [addGlobals]
    cases s.constant g.init with
    | error e => rfl
    | ok r => exact ih _

theorem limit_addElement (s : Store) (e : Element) : (s.addElement e).2.limit = s.limit := by
  rw [addElement]
  split
  · split
    · rfl
    · split
      · rfl
      · split <;> rfl
  · rfl

theorem limit_addData (s : Store) (d : Data) : (s.addData d).2.limit = s.limit := by
  rw [addData]
  split
  · split
    · rfl
    · split
      · rfl
      · next off _ =>
        refine limit_onMemory (fun mem => ?_) s
        exact mem.byteLimit_apply (.store off d.bytes)
  · rfl

/-- Whatever comes of it, the memory keeps its byte limit. -/
theorem limit_instantiate (s : Store) (m : Module) (o : Options) :
    (s.instantiate m o).2.limit = s.limit :=
  instantiate_preserves (P := fun s' => s'.limit = s.limit) (s.limit_resetMemory m o)
    (fun _ hs => (limit_addGlobals _ _).trans hs)
    (fun _ _ hs => hs) (fun s' e _ hs => (s'.limit_addElement e).trans hs) fun s' d _ hs =>
    (s'.limit_addData d).trans hs

/-! ### Starting over -/

/-- What a reset of the memory comes to depends on its byte limit only. -/
theorem resetMemory_of_limit_eq (h : s.limit = t.limit) (m : Module) (o : Options) :
    (s.resetMemory m o).1 = (t.resetMemory m o).1 ∧
      ((s.resetMemory m o).1 = .ok () →
        (s.resetMemory m o).2.memory = (t.resetMemory m o).2.memory) := by
  obtain ⟨gs, ts, ms⟩ := s
  obtain ⟨gs', ts', ms'⟩ := t
  -- The reset itself, for any number of pages.
  have key : ∀ initial maximum,
      (onMemory ⟨gs, ts, ms⟩ fun mem => mem.reset initial maximum).1 =
        (onMemory ⟨gs', ts', ms'⟩ fun mem => mem.reset initial maximum).1 ∧
      ((onMemory ⟨gs, ts, ms⟩ fun mem => mem.reset initial maximum).1 = .ok () →
        (onMemory ⟨gs, ts, ms⟩ fun mem => mem.reset initial maximum).2.memory =
          (onMemory ⟨gs', ts', ms'⟩ fun mem => mem.reset initial maximum).2.memory) := by
    intro initial maximum
    rcases ms with _ | mem <;> rcases ms' with _ | mem'
    · exact ⟨rfl, fun _ => rfl⟩
    · cases h
    · cases h
    · have hlimit : mem.byteLimit = mem'.byteLimit := Option.some.inj h
      simp only [onMemory, Memory.reset, hlimit]
      split
      · refine ⟨rfl, ?_⟩
        rintro ⟨⟩
      · split
        · refine ⟨rfl, ?_⟩
          rintro ⟨⟩
        · exact ⟨rfl, fun _ => rfl⟩
  simp only [resetMemory]
  cases m.memories.head? with
  | none => exact key _ _
  | some t => exact key _ _

theorem globals_resetMemory (s : Store) (m : Module) (o : Options) :
    (s.resetMemory m o).2 = { s with memory := (s.resetMemory m o).2.memory } := by
  obtain ⟨gs, ts, _ | mem⟩ := s <;> rw [resetMemory] <;> split <;> rfl

/-- Globals are computed without a look at the tables. -/
theorem addGlobals_tables (s : Store) (ts : Array (Array (Option Nat))) (gs : List Global) :
    addGlobals { s with tables := ts } gs =
    ((s.addGlobals gs).1, { (s.addGlobals gs).2 with tables := ts }) := by
  induction gs generalizing s with
  | nil => rfl
  | cons g gs ih =>
    have hconst : ({ s with tables := ts } : Store).constant g.init = s.constant g.init := by
      cases g.init <;> rfl
    rw [addGlobals, addGlobals, hconst]
    cases s.constant g.init with
    | error e => rfl
    | ok r => exact ih { s with globals := s.globals.push r }

/-- **The state that is built does not depend on the state before**, but for the
byte limit of its memory. -/
theorem instantiate_eq_of_limit_eq (h : s.limit = t.limit) (m : Module) (o : Options) :
    (s.instantiate m o).1 = (t.instantiate m o).1 ∧
      ((s.instantiate m o).1 = .ok () → (s.instantiate m o).2 = (t.instantiate m o).2) := by
  obtain ⟨hreply, hmemory⟩ := resetMemory_of_limit_eq h m o
  have hs := s.globals_resetMemory m o
  have ht := t.globals_resetMemory m o
  simp only [instantiate]
  generalize s.resetMemory m o = r at hreply hmemory hs ⊢
  generalize t.resetMemory m o = r' at hreply hmemory ht ⊢
  obtain ⟨e | _, s₁⟩ := r <;> obtain ⟨e' | _, t₁⟩ := r'
  · refine ⟨hreply, ?_⟩
    rintro ⟨⟩
  · cases hreply
  · cases hreply
  -- The two states differ in their tables, which are next.
  have hst : ({ s₁ with globals := #[] } : Store) =
      { ({ t₁ with globals := #[] } : Store) with tables := s₁.tables } := by
    have := hmemory rfl
    cases s₁
    cases t₁
    simpa using this
  dsimp only
  rw [hst, addGlobals_tables]
  generalize addGlobals { t₁ with globals := #[] } m.globals = r
  obtain ⟨e | _, s₂⟩ := r
  · refine ⟨rfl, ?_⟩
    rintro ⟨⟩
  · exact ⟨rfl, fun _ => rfl⟩

end WasmEngine.Store
