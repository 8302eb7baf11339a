import WasmEngine.Proofs.Store
import WasmEngine.Proofs.Typing.Code

/-!
# States that have what a module needs

A state **supplies** a module (`WasmEngine.Store.Supplies`) if it has the
globals, the tables and the memory that the code of the module may name, and no
table refers to a function without a type. Building the state of a module gives
one that supplies it (`WasmEngine.Store.instantiate_supplies`), provided that
the module imports functions only, which is all that can be linked.

No code can change that: it depends on the **shape** of the state alone
(`WasmEngine.Store.shape`), which is a steady reading.
-/

namespace WasmEngine

open Run

/-- Whether a module imports nothing but functions. -/
def Module.OnlyFunctions (m : Module) : Prop := ∀ i ∈ m.imports, ∃ t, i.kind = .func t

namespace Module.OnlyFunctions

variable {m : Module} (hm : m.OnlyFunctions)
include hm

theorem globalTypes : m.globalTypes = m.globals.map Global.type := by
  rw [Module.globalTypes, List.filterMap_eq_nil_iff.2, List.nil_append]
  intro i hi
  obtain ⟨t, ht⟩ := hm i hi
  rw [ht]

theorem tableCount : m.tableCount = m.tables.length := by
  rw [Module.tableCount, List.countP_eq_zero.2, Nat.zero_add]
  intro i hi
  obtain ⟨t, ht⟩ := hm i hi
  simp [ht]

end Module.OnlyFunctions

namespace Store

/-- **A state that has what a module needs.** -/
structure Supplies (m : Module) (s : Store) : Prop where
  /-- There are all globals. -/
  globals : s.globals.size = m.globalTypes.length
  /-- There are all tables. -/
  tables : s.tables.size = m.tableCount
  /-- The functions in tables have types. -/
  entries : ∀ {table func : Nat} {entries}, s.tables[table]? = some entries → some func ∈ entries →
    ∃ t, m.funcType? func = some t
  /-- There is a memory. -/
  memory : s.memory.isSome

variable {m : Module} {s s' : Store}

/-! ### The shape of a state -/

/-- What code cannot change: the number of globals, the tables, and whether
there is a memory. -/
def shape (s : Store) : Nat × Array (Array (Option Nat)) × Bool :=
  (s.globals.size, s.tables, s.memory.isSome)

theorem Supplies.of_shape (h : s.Supplies m) (hs : s'.shape = s.shape) : s'.Supplies m := by
  simp only [shape, Prod.mk.injEq] at hs
  obtain ⟨hglobals, htables, hmemory⟩ := hs
  exact ⟨hglobals.trans h.globals, htables ▸ h.tables, fun ht hf => h.entries (htables ▸ ht) hf,
    hmemory ▸ h.memory⟩

theorem shape_setGlobal (s : Store) (i : Nat) (r : Raw) : (s.setGlobal i r).2.shape = s.shape := by
  rw [setGlobal]
  split
  · simp [shape]
  · rfl

theorem shape_onMemory {α : Type} (s : Store) (f : Memory → Except Error α × Memory) :
    (s.onMemory f).2.shape = s.shape := by
  obtain ⟨gs, ts, _ | mem⟩ := s <;> rfl

end Store

theorem World.steady_shape {H : Type} : World.Steady fun w : World H => w.store.shape where
  host _ _ := rfl
  setGlobal i r := World.onStore_keeps fun w => w.store.shape_setGlobal i r
  memory g _ := World.onStore_keeps fun w => w.store.shape_onMemory g

namespace Store

variable {m : Module} {s s' : Store}

/-! ### Building a state -/

theorem resetMemory_isSome {o : Options} (h : s.resetMemory m o = (.ok (), s')) :
    s'.memory.isSome := by
  obtain ⟨gs, ts, _ | mem⟩ := s
  · rw [resetMemory] at h
    split at h <;> cases h
  · rw [resetMemory] at h
    split at h
    · obtain rfl := (Prod.mk.inj h).2
      rfl
    · obtain rfl := (Prod.mk.inj h).2
      rfl

theorem addGlobals_ok {gs : List Global} (h : s.addGlobals gs = (.ok (), s')) :
    s'.globals.size = s.globals.size + gs.length ∧ s'.memory = s.memory := by
  induction gs generalizing s with
  | nil =>
    obtain rfl := (Prod.mk.inj h).2
    exact ⟨rfl, rfl⟩
  | cons g gs ih =>
    rw [addGlobals] at h
    rcases hconst : s.constant g.init with e | r
    · rw [hconst] at h
      cases h
    · rw [hconst] at h
      obtain ⟨hsize, hmemory⟩ := ih h
      refine ⟨?_, hmemory⟩
      rw [hsize, Array.size_push, List.length_cons]
      omega

theorem mem_writeEntries {table : Array (Option Nat)} {offset : Nat}
    {items : List (Option Nat)} {x : Option Nat} (h : x ∈ writeEntries table offset items) :
    x ∈ table ∨ x ∈ items := by
  induction items generalizing table offset with
  | nil => exact Or.inl h
  | cons y ys ih =>
    rcases ih h with hx | hx
    · rcases Array.mem_or_eq_of_mem_setIfInBounds hx with hx | rfl
      · exact Or.inl hx
      · exact Or.inr List.mem_cons_self
    · exact Or.inr (List.mem_cons_of_mem y hx)

/-- A segment of typed functions is written without any harm. -/
theorem Supplies.addElement (h : s.Supplies m) {e : Element}
    (he : ∀ func, some func ∈ e.items → ∃ t, m.funcType? func = some t) :
    (s.addElement e).2.Supplies m := by
  rw [Store.addElement]
  split
  · next table offset _ =>
    split
    · exact h
    · next off _ =>
      rcases htable : s.tables[table]? with _ | entries
      · exact h
      · dsimp only
        split
        · refine ⟨h.globals, ?_, ?_, h.memory⟩
          · simpa using h.tables
          · intro k func es hk hfunc
            rw [Array.getElem?_setIfInBounds] at hk
            split at hk
            · split at hk
              · obtain rfl := Option.some.inj hk
                rcases mem_writeEntries hfunc with hmem | hmem
                · exact h.entries htable hmem
                · exact he func hmem
              · cases hk
            · exact h.entries hk hfunc
        · exact h
  · exact h

theorem Supplies.addData (h : s.Supplies m) (d : Data) : (s.addData d).2.Supplies m := by
  rw [Store.addData]
  split
  · split
    · exact h
    · split
      · exact h
      · exact h.of_shape (s.shape_onMemory _)
  · exact h

/-- The tables of a module before anything is written to them. -/
def emptyTables (m : Module) : Array (Array (Option Nat)) :=
  (m.tables.map fun (t : TableType) => Array.replicate t.initial none).toArray

/-- **What holds of the state that is built for a module**: what holds when its
globals are there and its tables are empty, provided that segments keep it. -/
theorem instantiate_induction {P : Store → Prop} {o : Options}
    (h : s.instantiate m o = (.ok (), s'))
    (hnew : ∀ {s₁ s₂ : Store}, s₁.memory.isSome → addGlobals { s₁ with globals := #[] }
      m.globals = (.ok (), s₂) →
      P { s₂ with tables := emptyTables m })
    (helements : ∀ s : Store, ∀ e ∈ m.elements, P s → P (s.addElement e).2)
    (hdata : ∀ s : Store, ∀ d ∈ m.data, P s → P (s.addData d).2) : P s' := by
  rw [instantiate] at h
  rcases hreset : s.resetMemory m o with ⟨e | _, s₁⟩
  · rw [hreset] at h
    cases h
  rw [hreset] at h
  dsimp only at h
  rcases hglobals : addGlobals { s₁ with globals := #[] } m.globals with ⟨e | _, s₂⟩
  · rw [hglobals] at h
    cases h
  rw [hglobals] at h
  dsimp only at h
  have hwritten := each_preserves helements (hnew (resetMemory_isSome hreset) hglobals)
  simp only [emptyTables] at hwritten
  generalize each Store.addElement _ m.elements = r at h hwritten
  obtain ⟨e | _, s₃⟩ := r
  · cases h
  · have hdata := each_preserves hdata hwritten
    dsimp only at h hdata
    rwa [h] at hdata

/-- **The state that is built for a module supplies it.** -/
theorem instantiate_supplies {o : Options} (hm : m.OnlyFunctions)
    (helements : ∀ e ∈ m.elements, ∀ func, some func ∈ e.items → ∃ t, m.funcType? func = some t)
    (h : s.instantiate m o = (.ok (), s')) : s'.Supplies m := by
  refine instantiate_induction h (fun {s₁ s₂} hmemory hglobals => ?_)
    (fun _ e he hs => hs.addElement (helements e he))
    fun _ d _ hs => hs.addData d
  obtain ⟨hsize, hsame⟩ := addGlobals_ok hglobals
  refine ⟨?_, ?_, ?_, ?_⟩
  · simpa [hm.globalTypes] using hsize
  · simp [emptyTables, hm.tableCount]
  · -- The tables are new, so before the first segment there is nothing in them.
    intro table func entries htable hfunc
    simp only [emptyTables, List.getElem?_toArray, List.getElem?_map,
      Option.map_eq_some_iff] at htable
    obtain ⟨t, -, rfl⟩ := htable
    simp at hfunc
  · simpa [hsame] using hmemory

/-! ### Sizes -/

/-- A state with as many globals as a module declares, and with tables of the
declared sizes. -/
structure Sized (m : Module) (s : Store) : Prop where
  /-- There are as many globals. -/
  globals : s.globals.size = m.globals.length
  /-- There are as many tables, and they have the sizes that they start with. -/
  tables : s.tables.map Array.size = (m.tables.map TableType.initial).toArray

theorem Sized.of_shape (h : s.Sized m) (hs : s'.shape = s.shape) : s'.Sized m := by
  simp only [shape, Prod.mk.injEq] at hs
  obtain ⟨hglobals, htables, -⟩ := hs
  exact ⟨hglobals.trans h.globals, htables ▸ h.tables⟩

@[simp]
theorem size_writeEntries (table : Array (Option Nat)) (offset : Nat) (items : List (Option Nat)) :
    (writeEntries table offset items).size = table.size := by
  induction items generalizing table offset with
  | nil => rfl
  | cons x xs ih => rw [writeEntries, ih, Array.size_setIfInBounds]

theorem Sized.addElement (h : s.Sized m) (e : Element) : (s.addElement e).2.Sized m := by
  rw [Store.addElement]
  split
  · next table offset _ =>
    split
    · exact h
    · next off _ =>
      rcases htable : s.tables[table]? with _ | entries
      · exact h
      · dsimp only
        split
        · refine ⟨h.globals, h.tables ▸ ?_⟩
          refine Array.ext_getElem? fun k => ?_
          simp only [Array.getElem?_map, Array.getElem?_setIfInBounds]
          split
          · next hk =>
            subst hk
            rw [htable, if_pos (Array.getElem?_eq_some_iff.1 htable).1, Option.map_some,
              Option.map_some, size_writeEntries]
          · rfl
        · exact h
  · exact h

theorem Sized.addData (h : s.Sized m) (d : Data) : (s.addData d).2.Sized m := by
  rw [Store.addData]
  split
  · split
    · exact h
    · split
      · exact h
      · exact h.of_shape (s.shape_onMemory _)
  · exact h

/-- **The state that is built for a module has the declared sizes.** -/
theorem instantiate_sized {o : Options} (h : s.instantiate m o = (.ok (), s')) : s'.Sized m := by
  refine instantiate_induction h (fun _ hglobals => ?_) (fun _ e _ hs => hs.addElement e)
    fun _ d _ hs => hs.addData d
  refine ⟨?_, ?_⟩
  · simpa using (addGlobals_ok hglobals).1
  · simp [emptyTables, Function.comp_def]

end Store

end WasmEngine
