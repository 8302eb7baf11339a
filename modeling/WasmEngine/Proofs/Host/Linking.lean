import Mathlib.Data.List.Induction
import WasmEngine.Proofs.Instance.Ready

/-!
# Linking

The imports of a module are matched against what a host has defined. An import
can be satisfied (`WasmEngine.Registry.Satisfies`) if it asks for a function and
one of its type is defined under its name. Linking succeeds if all imports can
be satisfied, and else it complains about the first that cannot be
(`WasmEngine.Registry.Refuses`). Since it does not skip an import of another
kind but refuses it, three numberings fall together once it succeeds: that of
all imports, that of the imported functions, and that of the functions found for
them.

A host defines functions one after another. All that linking sees of this is the
last definition under each name (`WasmEngine.Registry.get?_ofDefinitions`).
-/

namespace WasmEngine

variable {H : Type}

namespace Registry

variable {r : Registry H} {m : Module} {i : Import} {f : HostFunction H} {e : Error}

/-! ### One import -/

/-- **A function satisfies an import** of a module: it is defined under the
name, and its type is the one that is asked for. -/
def Satisfies (r : Registry H) (m : Module) (i : Import) (f : HostFunction H) : Prop :=
  ∃ t, i.kind = .func t ∧ r.get? i.moduleName i.name = some f ∧ m.types[t]? = some f.type

/-- **The complaint about an import** that cannot be satisfied: nothing is
defined under its name, whatever it asks for, or what is defined there does not
satisfy it. -/
def Refuses (r : Registry H) (m : Module) (i : Import) (e : Error) : Prop :=
  match r.get? i.moduleName i.name with
  | none => e = .link (.unknownImport i.moduleName i.name)
  | some f => ¬r.Satisfies m i f ∧ e = .link (.incompatibleType i.moduleName i.name)

theorem resolveImport_eq_ok : r.resolveImport m.types i = .ok f ↔ r.Satisfies m i f := by
  rcases hfound : r.get? i.moduleName i.name with _ | g
  · simp [resolveImport, Satisfies, hfound]
  · cases hkind : i.kind with
    | func t =>
      by_cases htype : m.types[t]? = some g.type
      · have hsame : g = f → g.type = f.type := congrArg HostFunction.type
        simpa [resolveImport, Satisfies, hfound, hkind, htype] using hsame
      · have hother : g = f → m.types[t]? ≠ some f.type := fun h => h ▸ htype
        simpa [resolveImport, Satisfies, hfound, hkind, htype] using hother
    | table | memory | global => simp [resolveImport, Satisfies, hfound, hkind]

theorem resolveImport_eq_error : r.resolveImport m.types i = .error e ↔ r.Refuses m i e := by
  rcases hfound : r.get? i.moduleName i.name with _ | g
  · simp [resolveImport, Refuses, hfound, eq_comm]
  · cases hkind : i.kind with
    | func t =>
      by_cases htype : m.types[t]? = some g.type
      · simp [resolveImport, Refuses, Satisfies, hfound, hkind, htype]
      · simp [resolveImport, Refuses, Satisfies, hfound, hkind, htype, @eq_comm _ e]
    | table | memory | global => simp [resolveImport, Refuses, Satisfies, hfound, hkind, eq_comm]

/-! ### All imports -/

/-- **What linking a module does**, for what has been defined. -/
structure Links (r : Registry H) (m : Module) : Prop where
  /-- It succeeds if all imports can be satisfied. -/
  succeeds : (∃ fs, r.resolve m = .ok fs) ↔ ∀ i ∈ m.imports, ∃ f, r.Satisfies m i f
  /-- Then all imports are functions, and for each of them there is the function
  that is defined under its name, at the place and of the type that it has among
  the functions of the module. -/
  aligned : ∀ {fs}, r.resolve m = .ok fs → fs.length = m.importedCount ∧
    m.imports.length = m.importedCount ∧
    ∀ k < m.importedCount, ∃ i f, m.imports[k]? = some i ∧ fs[k]? = some f ∧
    r.get? i.moduleName i.name = some f ∧
      m.funcType? k = some f.type
  /-- Else it complains about the first import that cannot be satisfied. -/
  complains : ∀ {e}, r.resolve m = .error e ↔ ∃ before i after, m.imports = before ++ i :: after ∧
    (∀ j ∈ before, ∃ f, r.Satisfies m j f) ∧ r.Refuses m i e

theorem length_of_resolve {fs : List (HostFunction H)} (h : r.resolve m = .ok fs) :
    fs.length = m.importedCount ∧ m.imports.length = m.importedCount :=
  have hcount : fs.length = m.importedCount := (types_of_resolve h).length_eq.symm
  ⟨hcount, (length_of_mapM h).symm.trans hcount⟩

theorem links (r : Registry H) (m : Module) : r.Links m where
  succeeds := by
    constructor
    · rintro ⟨fs, h⟩ i hi
      obtain ⟨k, hk⟩ := List.mem_iff_getElem?.1 hi
      obtain ⟨f, -, hf⟩ := getElem?_of_mapM h hk
      exact ⟨f, resolveImport_eq_ok.1 hf⟩
    · intro h
      exact exists_mapM_eq_ok fun i hi => (h i hi).imp fun _ => resolveImport_eq_ok.2
  aligned {fs} h := by
    obtain ⟨hfs, himports⟩ := length_of_resolve h
    refine ⟨hfs, himports, fun k hk => ?_⟩
    -- the import and the type at this place lead to the same function
    obtain ⟨i, hi⟩ : ∃ i, m.imports[k]? = some i := ⟨_, List.getElem?_eq_getElem (himports ▸ hk)⟩
    obtain ⟨t, ht⟩ : ∃ t, m.importedTypes[k]? = some t := ⟨_, List.getElem?_eq_getElem hk⟩
    obtain ⟨f, hf, hresolved⟩ := getElem?_of_mapM h hi
    obtain ⟨f', hf', htype⟩ := getElem?_of_forall₂ (types_of_resolve h) ht
    obtain rfl := Option.some.inj (hf.symm.trans hf')
    obtain ⟨-, -, hfound, -⟩ := resolveImport_eq_ok.1 hresolved
    refine ⟨i, f, hi, hf, hfound, ?_⟩
    rw [Module.funcType?, Module.typeIndex?, if_pos hk, ht]
    exact htype
  complains {e} := by
    simp only [resolve, mapM_eq_error, resolveImport_eq_ok, resolveImport_eq_error]

/-! ### Definitions -/

/-- A function that is defined under a name. -/
structure Definition (H : Type) where
  /-- The module it is offered in. -/
  moduleName : String
  /-- The name there. -/
  name : String
  /-- The function. -/
  func : HostFunction H

/-- What has been defined by definitions one after another. -/
def ofDefinitions (ds : List (Definition H)) : Registry H :=
  ds.foldl (fun r d => r.define d.moduleName d.name d.func) {}

/-- The last of the definitions under a name. -/
def lastDefined (ds : List (Definition H)) (moduleName name : String) : Option (HostFunction H) :=
  (ds.reverse.find? fun d => d.moduleName == moduleName && d.name == name).map Definition.func

theorem lookup_cons (e : (String × String) × HostFunction H)
    (es : List ((String × String) × HostFunction H)) (key : String × String) :
    (e :: es).lookup key = if key = e.1 then some e.2 else es.lookup key := by
  rw [List.lookup_cons]
  split
  · next h => rw [if_pos (eq_of_beq h)]
  · next h => rw [if_neg (ne_of_beq_false h)]

theorem lookup_insert (key key' : String × String) (f : HostFunction H)
    (es : List ((String × String) × HostFunction H)) :
    (insert key f es).lookup key' = if key' = key then some f else es.lookup key' := by
  induction es with
  | nil => exact lookup_cons (key, f) [] key'
  | cons e es ih =>
    rw [insert]
    split
    · exact lookup_cons (key, f) (e :: es) key'
    · split
      · -- what is lost was defined under the same name
        next hkey =>
        rw [lookup_cons, lookup_cons, ← eq_of_beq hkey]
        split <;> rfl
      · next hkey =>
        rw [lookup_cons, lookup_cons, ih]
        by_cases h : key' = e.1
        · have hne : e.1 ≠ key := fun h => hkey (by rw [h, beq_self_eq_true])
          rw [if_pos h, if_neg (h ▸ hne), if_pos h]
        · rw [if_neg h, if_neg h]

theorem get?_define (r : Registry H) (d : Definition H) (moduleName name : String) :
    (r.define d.moduleName d.name d.func).get? moduleName name =
      if d.moduleName == moduleName && d.name == name then some d.func
      else r.get? moduleName name := by
  have hkey : ((moduleName, name) = (d.moduleName, d.name)) ↔
      (d.moduleName == moduleName && d.name == name) = true := by
    rw [Prod.mk.injEq, Bool.and_eq_true, beq_iff_eq, beq_iff_eq, eq_comm, @eq_comm _ name]
  rw [get?, define, lookup_insert]
  simp only [hkey]
  rfl

/-- **What is found under a name is the last definition.** -/
theorem get?_ofDefinitions (ds : List (Definition H)) (moduleName name : String) :
    (ofDefinitions ds).get? moduleName name = lastDefined ds moduleName name := by
  induction ds using List.reverseRecOn with
  | nil => rfl
  | append_singleton ds d ih =>
    rw [ofDefinitions, List.foldl_concat, ← ofDefinitions, get?_define, ih, lastDefined,
      lastDefined, List.reverse_concat, List.find?_cons]
    split <;> simp [*]

theorem resolve_congr {r r' : Registry H}
    (h : ∀ moduleName name, r.get? moduleName name = r'.get? moduleName name) (m : Module) :
    r.resolve m = r'.resolve m := by
  have himport : r.resolveImport m.types = r'.resolveImport m.types := by
    funext i
    rw [resolveImport, resolveImport, h]
  rw [resolve, resolve, himport]

/-- **What linking a module does**, whatever has been defined and in whatever
order. -/
structure Linking (H : Type) (m : Module) : Prop where
  /-- It matches all imports with what has been defined. -/
  links : ∀ r : Registry H, r.Links m
  /-- What has been defined under a name is what the last definition under it
  says. -/
  found : ∀ (ds : List (Definition H)) (moduleName name : String),
    (ofDefinitions ds).get? moduleName name = lastDefined ds moduleName name
  /-- Of the definitions only the last under each name counts. -/
  determined : ∀ ds ds' : List (Definition H),
    (∀ moduleName name, lastDefined ds moduleName name = lastDefined ds' moduleName name) →
    (ofDefinitions ds).resolve m = (ofDefinitions ds').resolve m

/-- **Linking succeeds if all imports can be satisfied**, gives them the numbers
they have among the functions of the module, and else complains about the first
that cannot be. -/
theorem linking_exact (m : Module) : Linking H m where
  links r := r.links m
  found := get?_ofDefinitions
  determined ds ds' h := by
    refine resolve_congr (fun moduleName name => ?_) m
    rw [get?_ofDefinitions, get?_ofDefinitions, h]

end Registry

end WasmEngine
