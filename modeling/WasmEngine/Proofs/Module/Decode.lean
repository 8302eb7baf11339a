import WasmEngine.Module.Decode
import WasmEngine.Proofs.Module.Checked

/-!
# What is known of a decoded module

A binary is decoded section by section, and each section is checked against what
the earlier ones declared. So what holds of a decoded module
(`WasmEngine.Module.Valid`) is what each section keeps: the scope that
expressions are checked in names what the module has by then
(`WasmEngine.Draft.Sound`), and nothing of the module comes from a section that
has not been read (`WasmEngine.Draft.Pending`). The order of sections matters
here. Bodies are checked in a scope that no section behind the code changes.
-/

namespace WasmEngine

/-! ### Lowering of declarations -/

theorem GlobalDecl.of_lower {g : GlobalDecl} {t : GlobalType} (h : g.lower = .ok t) :
    g.type = .num t.type ∧ g.isMutable = t.isMutable := by
  obtain ⟨u, hu, h⟩ := bind_eq_ok.1 h
  obtain rfl := pure_eq_ok.1 h
  exact ⟨AnyType.of_lower hu, rfl⟩

/-- An import of the engine is of the kind that was declared. -/
theorem ImportDesc.of_lower {desc : ImportDesc} {kind : ImportKind} (h : desc.lower = .ok kind) :
    (∃ t, desc = .func t false ∧ kind = .func t) ∨ (∃ t u, desc = .table t ∧ kind = .table u) ∨
      (∃ m u, desc = .memory m ∧ kind = .memory u) ∨
      ∃ g u, desc = .global g ∧ kind = .global u ∧ g.type = .num u.type ∧
      g.isMutable = u.isMutable := by
  cases desc with
  | func t exact =>
    cases exact with
    | false => exact Or.inl ⟨t, rfl, (Except.ok.inj h).symm⟩
    | true => simp [ImportDesc.lower] at h
  | table t =>
    obtain ⟨u, -, h⟩ :=
      bind_eq_ok.1 (h : t.lower >>= (fun u => .ok (ImportKind.table u)) = .ok kind)
    exact Or.inr (Or.inl ⟨t, u, rfl, (Except.ok.inj h).symm⟩)
  | memory m =>
    obtain ⟨u, -, h⟩ :=
      bind_eq_ok.1 (h : m.lower >>= (fun u => .ok (ImportKind.memory u)) = .ok kind)
    exact Or.inr (Or.inr (Or.inl ⟨m, u, rfl, (Except.ok.inj h).symm⟩))
  | global g =>
    obtain ⟨u, hu, h⟩ :=
      bind_eq_ok.1 (h : g.lower >>= (fun u => .ok (ImportKind.global u)) = .ok kind)
    exact Or.inr (Or.inr (Or.inr ⟨g, u, rfl, (Except.ok.inj h).symm, GlobalDecl.of_lower hu⟩))
  | tag => simp [ImportDesc.lower] at h

theorem ElementDef.items_of_lower {e : ElementDef} {e' : Element} (h : e.lower = .ok e') :
    e.items.lower = .ok e'.items := by
  unfold ElementDef.lower at h
  cases hmode : e.mode <;> simp only [hmode, bind_eq_ok, pure_eq_ok] at h
  all_goals grind

/-- The expression of a constant is a single operator. -/
theorem Const.of_operators {ops : List Operator} {c : Const} (h : ofOperators ops = .ok c) :
    ∃ op, ops = [op] ∧ ofOperator op = .ok c := by
  rcases ops with _ | ⟨op, _ | ⟨extra, ops⟩⟩
  · simp [ofOperators, ofOperator] at h
  · exact ⟨op, rfl, h⟩
  · obtain ⟨_, -, h⟩ := bind_eq_ok.1 h
    simp at h

theorem Const.of_refFunc {ops : List Operator} {func : Nat}
    (h : ofOperators ops = .ok (.refFunc func)) : ops = [.simple (.extended (.refFunc func))] := by
  obtain ⟨op, rfl, hop⟩ := of_operators h
  unfold ofOperator at hop
  split at hop <;> cases hop
  rfl

/-- A constant is of a type, if values are and the globals in scope. -/
theorem Const.type_of_isConstant {s : Scope} {t : ValType} {ops : List Operator} {c : Const}
    (hc : ofOperators ops = .ok c) (h : Typing.isConstant s (.num t) ops = true) :
    (∀ v, c = .value v → v.type = t) ∧ ∀ i, c = .globalGet i → ∃ g, s.globals[i]? = some g ∧
    g.type = .num t := by
  obtain ⟨op, rfl, hop⟩ := of_operators hc
  refine ⟨?_, ?_⟩
  · rintro v rfl
    obtain rfl : op = .simple (.plain (.const v)) := by
      unfold ofOperator at hop
      split at hop <;> cases hop
      rfl
    simpa [Typing.isConstant, Typing.constants?, Typing.constant?, TypeSpace.isBelow] using h
  · rintro i rfl
    obtain rfl : op = .simple (.plain (.globalGet i)) := by
      unfold ofOperator at hop
      split at hop <;> cases hop
      rfl
    rcases hg : s.globals[i]? with _ | g
    · simp [Typing.isConstant, Typing.constants?, Typing.constant?, hg] at h
    · refine ⟨g, rfl, ?_⟩
      have hbelow : s.space.isBelow g.type (.num t) = true := by
        cases hmut : g.isMutable <;>
          simp [Typing.isConstant, Typing.constants?, Typing.constant?, hg, hmut] at h
        exact h
      cases htype : g.type with
      | num u => simpa [htype, TypeSpace.isBelow] using hbelow
      | v128 | ref => simp [htype, TypeSpace.isBelow] at hbelow

/-- The initial value of a global is of its type, where the globals are of these
types. -/
def Global.IsInitialised (types : List GlobalType) (g : Global) : Prop :=
  (∀ v, g.init = .value v → v.type = g.type.type) ∧
    ∀ i, g.init = .globalGet i → ∃ t, types[i]? = some t ∧ t.type = g.type.type

/-- The memory that a segment of bytes is written into. -/
def Data.memories (d : Data) : List Nat :=
  match d.kind with
  | .active memory _ => [memory]
  | .passive => []

/-! ### Drafts -/

namespace Draft

/-- A function of the module was lowered from a body that was checked in the
scope. -/
structure FromBody (d : Draft) (b : BodyDef) (i : Nat) (f : Func) : Prop where
  /-- It has the type that was announced. -/
  type : d.defined[i]? = some f.type
  /-- Its body has this type. -/
  body : ∃ t, d.mod.types[f.type]? = some t ∧ Typing.isBody d.scope t b.locals b.ops = true
  /-- It was lowered from this body. -/
  lower : b.lower f.type = .ok f

/-- **The scope names what the module has**, and the parts of the module refer
to what there is. -/
structure Sound (d : Draft) : Prop where
  /-- The declared types. -/
  types : d.scope.types = d.mod.types
  /-- The functions, those without a body yet included. -/
  funcs : d.scope.funcs = d.mod.importedTypes ++ d.defined
  /-- The types of functions are declared. -/
  declared : ∀ t ∈ d.scope.funcs, t < d.mod.types.size
  /-- The globals are of value types. -/
  globals : List.Forall₂ (fun g t => g.type = .num t.type ∧ g.isMutable = t.isMutable)
    d.scope.globals d.mod.globalTypes
  /-- The initial values of globals. -/
  initial : ∀ g ∈ d.mod.globals, g.IsInitialised d.mod.globalTypes
  /-- The number of tables. -/
  tables : d.scope.tables.length = d.mod.tableCount
  /-- The number of memories. -/
  memories : d.scope.memories = d.mod.memoryCount
  /-- A memory of the module itself is the only one. -/
  single : d.mod.memories ≠ [] → d.mod.memoryCount ≤ 1
  /-- Exported functions. -/
  exports : ∀ e ∈ d.mod.exports, e.kind = .func → e.index < d.scope.funcs.length
  /-- The start function. -/
  start : ∀ func, d.mod.start = some func → d.scope.funcType? func = some ⟨[], []⟩
  /-- The entries of tables. -/
  elements : ∀ e ∈ d.mod.elements, ∀ func, some func ∈ e.items → func < d.scope.funcs.length
  /-- The segments of bytes. -/
  data : ∀ i ∈ d.mod.data.flatMap Data.memories, i < d.mod.memoryCount
  /-- The bodies. -/
  bodies : ∃ sources : Nat → BodyDef, ∀ i f, d.mod.funcs[i]? = some f → d.FromBody (sources i) i f

/-- **Sections that have not been read left nothing**; all up to the rank may
have been. -/
structure Pending (d : Draft) (rank : Nat) : Prop where
  /-- The imports. -/
  imports : rank < SectionKind.rank .imports → d.mod.imports = []
  /-- The functions. -/
  functions : rank < SectionKind.rank .functions → d.defined = []
  /-- The tables. -/
  tables : rank < SectionKind.rank .tables → d.mod.tables = []
  /-- The memories. -/
  memories : rank < SectionKind.rank .memories → d.mod.memories = []
  /-- The globals. -/
  globals : rank < SectionKind.rank .globals → d.mod.globals = []
  /-- The exports. -/
  exports : rank < SectionKind.rank .exports → d.mod.exports = []
  /-- The start function. -/
  start : rank < SectionKind.rank .start → d.mod.start = none
  /-- The segments of table entries. -/
  elements : rank < SectionKind.rank .elements → d.mod.elements = []
  /-- The bodies. -/
  code : rank < SectionKind.rank .code → d.mod.funcs = #[]
  /-- The segments of bytes. -/
  data : rank < SectionKind.rank .data → d.mod.data = []

/-- Nothing was read yet. -/
theorem sound_empty : Sound {} := by
  refine ⟨rfl, rfl, ?_, .nil, ?_, rfl, rfl, ?_, ?_, ?_, ?_, ?_, fun _ => ⟨[], []⟩, ?_⟩ <;> simp

theorem pending_empty : Pending {} 0 := by
  constructor <;> intros <;> rfl

/-- A section of a higher rank leaves less to be read. -/
theorem Pending.mono {d : Draft} {rank rank' : Nat} (h : d.Pending rank) (hrank : rank < rank') :
    d.Pending rank' := by
  have hlt {k : Nat} (hk : rank' < k) : rank < k := Nat.lt_trans hrank hk
  exact ⟨fun hk => h.imports (hlt hk), fun hk => h.functions (hlt hk), fun hk => h.tables (hlt hk),
    fun hk => h.memories (hlt hk), fun hk => h.globals (hlt hk), fun hk => h.exports (hlt hk),
    fun hk => h.start (hlt hk), fun hk => h.elements (hlt hk), fun hk => h.code (hlt hk),
    fun hk => h.data (hlt hk)⟩

/-- A section that has been read is not to come. -/
theorem of_read {k : Nat} {P : Prop} (h : k < k) : P := absurd h (Nat.lt_irrefl k)

/-- What a section keeps of what is known, with the rank that it has. -/
structure Keeps (d' : Draft) (rank : Nat) : Prop where
  /-- The scope still names what the module has. -/
  sound : d'.Sound
  /-- All sections of a higher rank are still to come. -/
  pending : d'.Pending rank

variable {d d' : Draft} {rank : Nat} {bs : List UInt8}

theorem Pending.importedTypes (h : d.Pending rank) (hr : rank < SectionKind.rank .imports) :
    d.mod.importedTypes = [] := by
  rw [Module.importedTypes, h.imports hr]
  rfl

/-- Before there are functions nothing refers to one. -/
theorem Sound.no_funcs (hs : d.Sound) (hp : d.Pending rank)
    (hr : rank < SectionKind.rank .imports) : d.scope.funcs = [] := by
  rw [hs.funcs, hp.importedTypes hr, hp.functions (Nat.lt_trans hr (by decide))]
  rfl

/-- What imports add to the scope is what they add to the module. -/
theorem importAll_lowered {decls : List ImportDecl} {imports : List Import}
    (h : List.Forall₂ (fun i j => ImportDecl.lower i = .ok j) decls imports) :
    (importAll {} (decls.map ImportDecl.desc)).funcs = Module.importedTypes { imports } ∧
      List.Forall₂ (fun g t => g.type = .num t.type ∧ g.isMutable = t.isMutable)
        (importAll {} (decls.map ImportDecl.desc)).globals (Module.globalTypes { imports }) ∧
      (importAll {} (decls.map ImportDecl.desc)).tables.length = Module.tableCount { imports } ∧
      (importAll {} (decls.map ImportDecl.desc)).memories = Module.memoryCount { imports } := by
  induction h with
  | nil => exact ⟨rfl, .nil, rfl, rfl⟩
  | @cons i j decls imports hij _ ih =>
    obtain ⟨kind, hkind, h⟩ := bind_eq_ok.1 hij
    obtain rfl := pure_eq_ok.1 h
    obtain ⟨moduleName, name, desc⟩ := i
    simp only [importAll, Module.importedTypes, Module.globalTypes, Module.tableCount,
      Module.memoryCount, List.map_cons, List.map_nil, List.nil_append, List.append_nil,
      List.length_nil, Nat.add_zero, Nat.zero_add] at ih ⊢
    obtain ⟨hfuncs, hglobals, htables, hmemories⟩ := ih
    rcases ImportDesc.of_lower hkind with ⟨t, rfl, rfl⟩ | ⟨t, u, rfl, rfl⟩ | ⟨m, u, rfl,
      rfl⟩ | ⟨g, u, rfl, rfl, hg⟩
    · exact ⟨congrArg (t :: ·) hfuncs, hglobals, htables, hmemories⟩
    · refine ⟨hfuncs, hglobals, ?_, hmemories⟩
      rw [List.countP_cons_of_pos rfl, ← htables]
      rfl
    · refine ⟨hfuncs, hglobals, htables, ?_⟩
      rw [List.countP_cons_of_pos rfl, List.countP_cons_of_pos rfl, hmemories]
    · exact ⟨hfuncs, .cons hg hglobals, htables, hmemories⟩

theorem of_guard {p : Prop} [Decidable p] {u : Unit}
    (h : (guard p : Option Unit) = some u) : p := by
  rw [guard] at h
  split at h
  · assumption
  · simp [failure] at h

theorem of_grow? {sizes : List Nat} (h : d.grow? sizes = some d') :
    ∃ typeSize, d' = { d with typeSize } := by
  simp only [grow?, Option.ite_none_right_eq_some, Option.some.injEq] at h
  exact ⟨_, h.2.symm⟩

/-- Before the code is read no function has a body. -/
theorem Pending.no_bodies (hp : d.Pending rank) (hr : rank < SectionKind.rank .code)
    {P : BodyDef → Nat → Func → Prop} :
    ∃ sources : Nat → BodyDef, ∀ i f, d.mod.funcs[i]? = some f → P (sources i) i f := by
  refine ⟨fun _ => ⟨[], []⟩, fun i f hf => ?_⟩
  simp [hp.code hr] at hf

/-- What globals add to a scope. The initial value of each is checked in the
scope of those before it. -/
theorem scope_of_globals {s s' : Scope} {defs : List GlobalDef}
    (h : defs.foldlM global? s = some s') :
    (∃ referable, s' = { s with globals := s.globals ++ defs.map GlobalDef.type, referable }) ∧
      ∀ g ∈ defs, ∃ s₀ : Scope, s₀.globals <+: s'.globals ∧ Typing.isConstant s₀ g.type.type
        g.init = true := by
  induction defs generalizing s with
  | nil =>
    obtain rfl : s = s' := by simpa using h
    exact ⟨⟨s.referable, by simp⟩, by simp⟩
  | cons g defs ih =>
    rw [List.foldlM_cons, Option.bind_eq_bind, Option.bind_eq_some_iff] at h
    obtain ⟨s₁, hg, h⟩ := h
    simp only [global?, Option.ite_none_right_eq_some, Option.some.injEq, Bool.and_eq_true] at hg
    obtain ⟨⟨-, hconst⟩, rfl⟩ := hg
    obtain ⟨⟨referable, rfl⟩, hdefs⟩ := ih h
    refine ⟨⟨referable, by simp⟩, List.forall_mem_cons.2 ⟨⟨s, ?_, hconst⟩, hdefs⟩⟩
    exact ⟨g.type :: defs.map GlobalDef.type, by simp⟩

/-- A function in an entry that is checked is in scope. -/
theorem lt_of_elementItem {s : Scope} {type : AnyType} {ops : List Operator} {func : Nat}
    (h : elementItem ops = .ok (some func)) (htype : Typing.isConstant s type ops = true) :
    func < s.funcs.length := by
  obtain ⟨c, hc, h⟩ := bind_eq_ok.1 h
  obtain rfl : c = .refFunc func := by
    cases c <;> simp_all [pure, Except.pure]
  obtain rfl := Const.of_refFunc hc
  rcases hfunc : s.funcs[func]? with _ | t
  · simp [Typing.isConstant, Typing.constants?, Typing.constant?, hfunc] at htype
  · exact (List.getElem?_eq_some_iff.1 hfunc).1

/-- A segment that was checked is written into a memory in scope. -/
theorem memories_of_isData {e : DataDef} {e' : Data} (hvalid : d.isData e = true)
    (h : e.lower = .ok e') : ∀ i ∈ e'.memories, i < d.scope.memories := by
  cases hmode : e.mode with
  | passive | declared =>
    simp only [DataDef.lower, hmode, bind_eq_ok, pure_eq_ok] at h
    obtain ⟨_, rfl, rfl⟩ := h
    simp [Data.memories]
  | active memory offset =>
    simp only [DataDef.lower, hmode, bind_eq_ok, pure_eq_ok] at h
    obtain ⟨c, -, _, rfl, rfl⟩ := h
    simp only [isData, hmode, Bool.and_eq_true, Scope.hasMemory, decide_eq_true_eq] at hvalid
    simpa [Data.memories] using hvalid.1

/-! ### What each section keeps -/

section Keeps

variable (hs : d.Sound) (hp : d.Pending rank)
include hs hp

theorem types_keeps (hr : rank < SectionKind.rank .types) (h : d.types bs = some (.ok d')) :
    d'.Keeps (SectionKind.rank .types) := by
  have hp' := hp.mono hr
  simp only [Draft.types, Option.bind_eq_bind, Option.bind_eq_some_iff, Option.pure_def,
    Option.some.injEq] at h
  obtain ⟨groups, -, space, -, h⟩ := h
  obtain ⟨types, -, h⟩ := bind_eq_ok.1 h
  obtain rfl := pure_eq_ok.1 h
  refine ⟨{ hs with
    types := rfl, declared := ?_, start := ?_, bodies := hp'.no_bodies (by decide) },
    { hp' with }⟩
  · simp [hs.no_funcs hp (Nat.lt_trans hr (by decide))]
  · simp [hp'.start (by decide)]

theorem imports_keeps (hr : rank < SectionKind.rank .imports) (h : d.imports bs = some (.ok d')) :
    d'.Keeps (SectionKind.rank .imports) := by
  have hp' := hp.mono hr
  have hfuncs := hs.no_funcs hp hr
  simp only [Draft.imports, Option.bind_eq_bind, Option.bind_eq_some_iff, Option.pure_def,
    Option.some.injEq] at h
  obtain ⟨groups, -, _, hguard, d₁, hgrow, h⟩ := h
  obtain ⟨typeSize, rfl⟩ := of_grow? hgrow
  obtain ⟨imports, himports, h⟩ := bind_eq_ok.1 h
  obtain rfl := pure_eq_ok.1 h
  obtain ⟨hlfuncs, hlglobals, hltables, hlmemories⟩ := importAll_lowered (mapM_eq_ok.1 himports)
  -- nothing is in scope yet, and the module has no more than its imports
  have hmglobals := hp'.globals (by decide)
  have hmtables := hp'.tables (by decide)
  have hmmemories := hp'.memories (by decide)
  have hglobals : d.scope.globals = [] := by
    have hnone := hs.globals
    rw [Module.globalTypes, hp.imports hr, hmglobals] at hnone
    exact List.forall₂_nil_right_iff.1 hnone
  have htables : d.scope.tables = [] := by
    have hnone := hs.tables
    rw [Module.tableCount, hp.imports hr, hmtables] at hnone
    exact List.length_eq_zero_iff.1 hnone
  have hmemories : d.scope.memories = 0 := by
    have hnone := hs.memories
    rwa [Module.memoryCount, hp.imports hr, hmmemories] at hnone
  refine ⟨⟨hs.types, ?_, ?_, ?_, ?_, ?_, ?_, fun h => absurd hmmemories h, ?_, ?_, ?_, ?_,
    hp'.no_bodies (by decide)⟩, { hp' with imports := of_read }⟩
  · change d.scope.funcs ++ _ = _ ++ d.defined
    rw [hfuncs, hp'.functions (by decide), List.append_nil]
    exact hlfuncs
  · intro t ht
    change t ∈ d.scope.funcs ++ _ at ht
    rw [hfuncs, List.nil_append] at ht
    obtain ⟨desc, hdesc, hfunc⟩ := List.mem_filterMap.1 ht
    obtain ⟨decl, hdecl, rfl⟩ := List.mem_map.1 hdesc
    have hvalid := List.all_eq_true.1 (Bool.and_eq_true_iff.1 (of_guard hguard)).1 decl hdecl
    rw [isImport] at hvalid
    split at hfunc
    · next hfound =>
      obtain rfl := Option.some.inj hfunc
      rw [hfound] at hvalid
      exact hs.types ▸ of_decide_eq_true hvalid
    · simp at hfunc
  · change List.Forall₂ _ (d.scope.globals ++ _) (_ ++ d.mod.globals.map Global.type)
    rw [hglobals, hmglobals]
    exact hlglobals
  · simp [hmglobals]
  · change (d.scope.tables ++ _).length = _ + d.mod.tables.length
    rw [htables, hmtables]
    exact hltables
  · change d.scope.memories + _ = _ + d.mod.memories.length
    rw [hmemories, hmmemories]
    exact hlmemories
  · simp [hp'.exports (by decide)]
  · simp [hp'.start (by decide)]
  · simp [hp'.elements (by decide)]
  · simp [hp'.data (by decide)]

theorem functions_keeps (hr : rank < SectionKind.rank .functions)
    (h : d.functions bs = some (.ok d')) : d'.Keeps (SectionKind.rank .functions) := by
  have hp' := hp.mono hr
  simp only [Draft.functions, Option.bind_eq_bind, Option.bind_eq_some_iff, Option.pure_def,
    Option.some.injEq] at h
  obtain ⟨defined, -, _, hguard, h⟩ := h
  obtain rfl := Except.ok.inj h
  have hold := hs.funcs
  rw [hp.functions hr, List.append_nil] at hold
  refine ⟨{ hs with
      funcs := ?_, declared := ?_, exports := ?_, start := ?_, elements := ?_, bodies :=
        hp'.no_bodies (by decide) },
    { hp' with functions := of_read }⟩
  · change d.scope.funcs ++ defined = _
    rw [hold]
  · intro t ht
    rcases List.mem_append.1 ht with ht | ht
    · exact hs.declared t ht
    · have hlt := List.all_eq_true.1 (Bool.and_eq_true_iff.1 (of_guard hguard)).1 t ht
      exact hs.types ▸ of_decide_eq_true hlt
  · simp [hp'.exports (by decide)]
  · simp [hp'.start (by decide)]
  · simp [hp'.elements (by decide)]

theorem tables_keeps (hr : rank < SectionKind.rank .tables) (h : d.tables bs = some (.ok d')) :
    d'.Keeps (SectionKind.rank .tables) := by
  have hp' := hp.mono hr
  simp only [Draft.tables, Option.bind_eq_bind, Option.bind_eq_some_iff, Option.pure_def,
    Option.some.injEq] at h
  obtain ⟨defs, -, _, -, h⟩ := h
  obtain ⟨tables, htables, h⟩ := bind_eq_ok.1 h
  obtain rfl := pure_eq_ok.1 h
  refine ⟨{ hs with tables := ?_, bodies := hp'.no_bodies (by decide) },
    { hp' with tables := of_read }⟩
  have hold := hs.tables
  rw [Module.tableCount, hp.tables hr, List.length_nil, Nat.add_zero] at hold
  change (d.scope.tables ++ _).length = _ + tables.length
  rw [List.length_append, List.length_map, length_of_mapM htables, hold]

theorem memories_keeps (hr : rank < SectionKind.rank .memories)
    (h : d.memories bs = some (.ok d')) : d'.Keeps (SectionKind.rank .memories) := by
  have hp' := hp.mono hr
  simp only [Draft.memories, Option.bind_eq_bind, Option.bind_eq_some_iff, Option.pure_def,
    Option.some.injEq] at h
  obtain ⟨decls, -, _, -, h⟩ := h
  obtain ⟨memories, hmemories, h⟩ := bind_eq_ok.1 h
  split at h
  · simp at h
  next hsingle =>
  obtain rfl := pure_eq_ok.1 h
  have hcount : d.scope.memories + decls.length = Module.memoryCount { d.mod with memories } := by
    have hold := hs.memories
    rw [Module.memoryCount, hp.memories hr, List.length_nil, Nat.add_zero] at hold
    change _ = _ + memories.length
    rw [length_of_mapM hmemories, hold]
  refine ⟨{ hs with
    memories := hcount, single := fun _ => hcount ▸ Nat.le_of_not_lt hsingle, data := ?_,
    bodies := hp'.no_bodies (by decide) }, { hp' with memories := of_read }⟩
  simp [hp'.data (by decide)]

theorem globals_keeps (hr : rank < SectionKind.rank .globals) (h : d.globals bs = some (.ok d')) :
    d'.Keeps (SectionKind.rank .globals) := by
  have hp' := hp.mono hr
  simp only [Draft.globals, Option.bind_eq_bind, Option.bind_eq_some_iff, Option.pure_def,
    Option.some.injEq] at h
  obtain ⟨defs, -, scope, hscope, _, -, h⟩ := h
  obtain ⟨globals, hglobals, h⟩ := bind_eq_ok.1 h
  obtain rfl := pure_eq_ok.1 h
  obtain ⟨⟨referable, rfl⟩, hinits⟩ := scope_of_globals hscope
  have hlower {g : GlobalDef} {g' : Global} (hg : g.lower = .ok g') :
      (g.type.type = .num g'.type.type ∧ g.type.isMutable = g'.type.isMutable) ∧
      Const.ofOperators g.init = .ok g'.init := by
    obtain ⟨t, ht, h⟩ := bind_eq_ok.1 hg
    obtain ⟨init, hinit, h⟩ := bind_eq_ok.1 h
    obtain rfl := pure_eq_ok.1 h
    exact ⟨GlobalDecl.of_lower ht, hinit⟩
  have htypes : List.Forall₂ (fun g t => g.type = .num t.type ∧ g.isMutable = t.isMutable)
      (d.scope.globals ++ defs.map GlobalDef.type) (Module.globalTypes { d.mod with globals }) := by
    have hold := hs.globals
    rw [Module.globalTypes, hp.globals hr, List.map_nil, List.append_nil] at hold
    refine List.rel_append hold ?_
    rw [List.forall₂_map_left_iff, List.forall₂_map_right_iff]
    exact (mapM_eq_ok.1 hglobals).imp fun g g' hg => (hlower hg).1
  refine ⟨{ hs with
    globals := htypes, initial := fun g' hg' => ?_, bodies := hp'.no_bodies (by decide) },
    { hp' with globals := of_read }⟩
  obtain ⟨g, hg, hgl⟩ := mem_of_mapM hglobals hg'
  obtain ⟨⟨htype, -⟩, hinit⟩ := hlower hgl
  obtain ⟨s₀, ⟨rest, hrest⟩, hconst⟩ := hinits g hg
  rw [htype] at hconst
  obtain ⟨hvalue, hget⟩ := Const.type_of_isConstant hinit hconst
  refine ⟨hvalue, fun i hi => ?_⟩
  obtain ⟨decl, hdecl, hnum⟩ := hget i hi
  rw [← List.getElem?_append_left (List.getElem?_eq_some_iff.1 hdecl).1, hrest] at hdecl
  obtain ⟨t, ht, hdt, -⟩ := getElem?_of_forall₂ htypes hdecl
  exact ⟨t, ht, AnyType.num.inj (hdt.symm.trans hnum)⟩

theorem exports_keeps (hr : rank < SectionKind.rank .exports) (h : d.exports bs = some (.ok d')) :
    d'.Keeps (SectionKind.rank .exports) := by
  have hp' := hp.mono hr
  simp only [Draft.exports, Option.bind_eq_bind, Option.bind_eq_some_iff, Option.pure_def,
    Option.some.injEq] at h
  obtain ⟨exports, -, _, hguard, d₁, hgrow, h⟩ := h
  obtain ⟨typeSize, rfl⟩ := of_grow? hgrow
  obtain rfl := Except.ok.inj h
  refine ⟨{ hs with exports := fun e he hkind => ?_, bodies := hp'.no_bodies (by decide) },
    { hp' with exports := of_read }⟩
  have hexport := List.all_eq_true.1 (Bool.and_eq_true_iff.1 (of_guard hguard)).1 e he
  simp only [isExport, hkind] at hexport
  exact of_decide_eq_true hexport

theorem start_keeps (hr : rank < SectionKind.rank .start) (h : d.start bs = some (.ok d')) :
    d'.Keeps (SectionKind.rank .start) := by
  have hp' := hp.mono hr
  simp only [Draft.start, Option.bind_eq_bind, Option.bind_eq_some_iff, Option.pure_def,
    Option.some.injEq] at h
  obtain ⟨func, -, t, ht, _, hguard, h⟩ := h
  obtain rfl := Except.ok.inj h
  refine ⟨{ hs with start := fun func' hfunc => ?_, bodies := hp'.no_bodies (by decide) },
    { hp' with start := of_read }⟩
  obtain rfl := Option.some.inj hfunc
  rw [← of_guard hguard]
  exact ht

theorem elements_keeps {stop : Nat} (hr : rank < SectionKind.rank .elements)
    (h : d.elements stop bs = some (.ok d')) : d'.Keeps (SectionKind.rank .elements) := by
  have hp' := hp.mono hr
  simp only [Draft.elements, Option.bind_eq_bind, Option.bind_eq_some_iff, Option.pure_def,
    Option.some.injEq] at h
  obtain ⟨defs, -, _, hguard, h⟩ := h
  obtain ⟨elements, helements, h⟩ := bind_eq_ok.1 h
  obtain rfl := pure_eq_ok.1 h
  refine ⟨{ hs with elements := fun e he func hfunc => ?_, bodies := hp'.no_bodies (by decide) },
    { hp' with elements := of_read }⟩
  obtain ⟨defn, hdefn, hlower⟩ := mem_of_mapM helements he
  have hvalid := List.all_eq_true.1 (of_guard hguard) defn hdefn
  have hitems := ElementDef.items_of_lower hlower
  simp only [isElement, Bool.and_eq_true] at hvalid
  cases hdef : defn.items with
  | funcs indices =>
    rw [hdef] at hitems hvalid
    have hmap : indices.map some = e.items := Except.ok.inj hitems
    rw [← hmap] at hfunc
    obtain ⟨index, hindex, rfl⟩ : ∃ index ∈ indices, index = func := by simpa using hfunc
    exact of_decide_eq_true (List.all_eq_true.1 hvalid.2 index hindex)
  | expressions type exprs =>
    rw [hdef] at hitems hvalid
    rw [ElementItems.lower] at hitems
    split at hitems
    · obtain ⟨ops, hops, hitem⟩ := mem_of_mapM hitems hfunc
      exact lt_of_elementItem (s := d.scope) hitem (List.all_eq_true.1 hvalid.2 ops hops)
    · simp at hitems

theorem dataCount_keeps (hr : rank < SectionKind.rank .dataCount)
    (h : d.dataCount bs = some (.ok d')) : d'.Keeps (SectionKind.rank .dataCount) := by
  have hp' := hp.mono hr
  simp only [Draft.dataCount, Option.bind_eq_bind, Option.bind_eq_some_iff, Option.pure_def,
    Option.some.injEq] at h
  obtain ⟨n, -, _, -, h⟩ := h
  obtain rfl := Except.ok.inj h
  exact ⟨{ hs with bodies := hp'.no_bodies (by decide) }, { hp' with }⟩

theorem data_keeps {stop : Nat} (hr : rank < SectionKind.rank .data)
    (h : d.data stop bs = some (.ok d')) : d'.Keeps (SectionKind.rank .data) := by
  simp only [Draft.data, Option.bind_eq_bind, Option.bind_eq_some_iff, Option.pure_def,
    Option.some.injEq] at h
  obtain ⟨defs, -, _, hguard, h⟩ := h
  obtain ⟨data, hdata, h⟩ := bind_eq_ok.1 h
  obtain rfl := pure_eq_ok.1 h
  obtain ⟨sources, hsources⟩ := hs.bodies
  refine ⟨{ hs with
    data := List.forall_mem_flatMap.2 fun e' he' => ?_, bodies := ⟨sources, fun i f hf => ?_⟩ },
    { hp.mono hr with data := of_read }⟩
  · obtain ⟨e, he, hlower⟩ := mem_of_mapM hdata he'
    have hvalid := List.all_eq_true.1 (Bool.and_eq_true_iff.1 (of_guard hguard)).2 e he
    exact hs.memories ▸ memories_of_isData hvalid hlower
  · exact ⟨(hsources i f hf).type, (hsources i f hf).body, (hsources i f hf).lower⟩

end Keeps

/-- **The next body**, of the type that was announced for it. -/
theorem body_sound {type : Nat} (hs : d.Sound) (htype : d.defined[d.mod.funcs.size]? = some type)
    (h : d.body type bs = some (.ok d')) :
    d'.Sound ∧ ∃ f, d' = { d with mod := { d.mod with funcs := d.mod.funcs.push f } } := by
  simp only [Draft.body, Option.bind_eq_bind, Option.bind_eq_some_iff, Option.pure_def,
    Option.some.injEq] at h
  obtain ⟨b, -, t, ht, _, hguard, h⟩ := h
  obtain ⟨f, hf, h⟩ := bind_eq_ok.1 h
  obtain rfl := pure_eq_ok.1 h
  obtain ⟨sources, hsources⟩ := hs.bodies
  refine ⟨{ hs with
    bodies := ⟨fun i => if i = d.mod.funcs.size then b else sources i, fun i f' hf' => ?_⟩ },
    f, rfl⟩
  change (d.mod.funcs.push f)[i]? = some f' at hf'
  rw [Array.getElem?_push] at hf'
  split at hf'
  · next hi =>
    obtain rfl := Option.some.inj hf'
    obtain rfl : f.type = type := by
      obtain ⟨locals, -, hlower⟩ := bind_eq_ok.1 hf
      obtain ⟨code, -, hlower⟩ := bind_eq_ok.1 hlower
      rw [← pure_eq_ok.1 hlower]
    beta_reduce
    rw [if_pos hi]
    exact ⟨hi ▸ htype, ⟨t, hs.types ▸ ht, of_guard hguard⟩, hf⟩
  · next hi =>
    beta_reduce
    rw [if_neg hi]
    have hold := hsources i f' hf'
    exact ⟨hold.type, hold.body, hold.lower⟩

end Draft

/-! ### Sections -/

namespace Decode

variable {d d' : Draft} {bs rest : List UInt8} {stop : Nat}

theorem of_finish {step : Draft.Step} (h : finish stop bs step = .ok d) : step = some (.ok d) := by
  rcases step with _ | r
  · simp [finish, rejected] at h
  · exact congrArg some h

/-- The bodies that are left, each of the type that was announced for it. -/
theorem bodies_sound {types : List Nat} (hs : d.Sound)
    (htypes : d.defined.drop d.mod.funcs.size = types)
    (h : bodies stop types bs d = .ok (d', rest)) :
    d'.Sound ∧ ∃ funcs, d' = { d with mod := { d.mod with funcs } } := by
  induction types generalizing bs d with
  | nil =>
    obtain ⟨rfl, -⟩ := Prod.mk.inj (Except.ok.inj h)
    exact ⟨hs, d.mod.funcs, rfl⟩
  | cons type types ih =>
    obtain ⟨⟨contents, rest'⟩, -, h⟩ := bind_eq_ok.1 h
    obtain ⟨d₁, hbody, h⟩ := bind_eq_ok.1 h
    have htype : d.defined[d.mod.funcs.size]? = some type := by
      rw [← Nat.add_zero d.mod.funcs.size, ← List.getElem?_drop, htypes]
      rfl
    obtain ⟨hs₁, f, rfl⟩ := Draft.body_sound hs htype (of_finish hbody)
    have htypes₁ : d.defined.drop (d.mod.funcs.push f).size = types := by
      rw [Array.size_push, ← List.drop_drop, htypes]
      rfl
    obtain ⟨hs', funcs, rfl⟩ := ih hs₁ htypes₁ h
    exact ⟨hs', funcs, rfl⟩

theorem code_keeps {missing rank : Nat} (hs : d.Sound) (hp : d.Pending rank)
    (hr : rank < SectionKind.rank .code) (h : code stop missing bs d = .ok d') :
    d'.Keeps (SectionKind.rank .code) := by
  obtain ⟨⟨count, rest⟩, -, h⟩ := bind_eq_ok.1 h
  dsimp only at h
  split at h
  · simp [rejected] at h
  obtain ⟨⟨d₁, rest'⟩, hbodies, h⟩ := bind_eq_ok.1 h
  dsimp only at h
  split at h
  · obtain rfl := pure_eq_ok.1 h
    obtain ⟨hs', funcs, rfl⟩ := bodies_sound hs (by rw [hp.code hr]; rfl) hbodies
    exact ⟨hs', { hp.mono hr with code := Draft.of_read }⟩
  · simp [rejected] at h

theorem wholeSection_keeps {kind : SectionKind} {rank : Nat} (hs : d.Sound) (hp : d.Pending rank)
    (hr : rank < kind.rank) (h : wholeSection kind stop bs d = .ok d') : d'.Keeps kind.rank := by
  have h' := of_finish h
  cases kind with
  | types => exact Draft.types_keeps hs hp hr h'
  | imports => exact Draft.imports_keeps hs hp hr h'
  | functions => exact Draft.functions_keeps hs hp hr h'
  | tables => exact Draft.tables_keeps hs hp hr h'
  | memories => exact Draft.memories_keeps hs hp hr h'
  | tags =>
    simp only [Draft.tags, Option.bind_eq_bind, Option.bind_eq_some_iff, Option.pure_def,
      Option.some.injEq] at h'
    obtain ⟨types, -, _, -, h'⟩ := h'
    simp at h'
  | globals => exact Draft.globals_keeps hs hp hr h'
  | exports => exact Draft.exports_keeps hs hp hr h'
  | start => exact Draft.start_keeps hs hp hr h'
  | elements => exact Draft.elements_keeps hs hp hr h'
  | dataCount => exact Draft.dataCount_keeps hs hp hr h'
  | code => simp at h'
  | data => exact Draft.data_keeps hs hp hr h'

/-- **A section keeps what is known.** -/
theorem oneSection_keeps {s s' : State} (hs : s.draft.Keeps s.rank)
    (h : oneSection stop bs s = .ok (s', rest)) : s'.draft.Keeps s'.rank := by
  obtain ⟨⟨⟨id, len⟩, rest₁⟩, -, h⟩ := bind_eq_ok.1 h
  dsimp only at h
  split at h
  · obtain ⟨⟨contents, rest₂⟩, -, h⟩ := bind_eq_ok.1 h
    obtain ⟨_, -, h⟩ := bind_eq_ok.1 h
    obtain ⟨rfl, -⟩ := Prod.mk.inj (pure_eq_ok.1 h)
    exact hs
  · split at h
    · simp [rejected] at h
    · next kind _ =>
      split at h
      · simp [rejected] at h
      next hrank =>
      split at h
      · next hkind =>
        subst hkind
        obtain ⟨d, hcode, h⟩ := bind_eq_ok.1 h
        obtain ⟨rfl, -⟩ := Prod.mk.inj (pure_eq_ok.1 h)
        exact code_keeps hs.sound hs.pending (Nat.lt_of_not_le hrank) hcode
      · obtain ⟨⟨contents, rest₂⟩, -, h⟩ := bind_eq_ok.1 h
        obtain ⟨d, hsection, h⟩ := bind_eq_ok.1 h
        obtain ⟨rfl, -⟩ := Prod.mk.inj (pure_eq_ok.1 h)
        exact wholeSection_keeps hs.sound hs.pending (Nat.lt_of_not_le hrank) hsection

theorem sections_keeps {n : Nat} {s s' : State} (hs : s.draft.Keeps s.rank)
    (h : sections stop n bs s = .ok s') : s'.draft.Keeps s'.rank := by
  induction n generalizing bs s with
  | zero =>
    cases bs with
    | nil => exact Except.ok.inj h ▸ hs
    | cons b bs => simp [sections, rejected] at h
  | succ n ih =>
    cases bs with
    | nil => exact Except.ok.inj h ▸ hs
    | cons b bs =>
      obtain ⟨⟨s₁, rest⟩, hsection, h⟩ := bind_eq_ok.1 h
      exact ih (oneSection_keeps hs hsection) h

end Decode

/-! ### Modules -/

/-- **What is known of a module that was decoded**: its code is typed, and it
refers to nothing that it does not have. -/
structure Module.Valid (m : Module) : Prop where
  /-- Its bodies were checked. -/
  checked : ∃ s sources, m.Checked s sources
  /-- The types of imported functions are declared. -/
  imports : ∀ i ∈ m.importedTypes, i < m.types.size
  /-- The initial values of globals are of their types. -/
  globals : ∀ g ∈ m.globals, g.IsInitialised m.globalTypes
  /-- Exported functions have types. -/
  exports : ∀ {name func}, m.exportedFunc? name = some func → ∃ t, m.funcType? func = some t
  /-- The start function takes and returns nothing. -/
  start : ∀ {func}, m.start = some func → m.funcType? func = some ⟨[], []⟩
  /-- The functions in segments of table entries have types. -/
  elements : ∀ e ∈ m.elements, ∀ func, some func ∈ e.items → ∃ t, m.funcType? func = some t

/-- Once all functions have bodies, the scope describes the module. -/
theorem Draft.Sound.describes {d : Draft} (hs : d.Sound)
    (hsize : d.mod.funcs.size = d.defined.length) : d.scope.Describes d.mod where
  types := hs.types
  funcs func := by
    obtain ⟨sources, hsources⟩ := hs.bodies
    rw [hs.funcs, Module.typeIndex?]
    split
    · next hlt => rw [List.getElem?_append_left hlt]
    · next hlt =>
      rw [List.getElem?_append_right (Nat.le_of_not_lt hlt)]
      change d.defined[func - d.mod.importedCount]? = _
      rcases hf : d.mod.funcs[func - d.mod.importedCount]? with _ | f
      · rw [Array.getElem?_eq_none_iff] at hf
        rw [List.getElem?_eq_none (by omega)]
        rfl
      · exact (hsources _ f hf).type
  globals {i g} hg := by
    obtain ⟨⟨isMutable, t⟩, ht, htype, hmutable⟩ := getElem?_of_forall₂ hs.globals hg
    exact ⟨t, htype, hmutable ▸ ht⟩
  tables := hs.tables
  memories := hs.memories

theorem Draft.Sound.valid {d : Draft} (hs : d.Sound)
    (hsize : d.mod.funcs.size = d.defined.length) : d.mod.Valid := by
  have hdescribes := hs.describes hsize
  have htyped : ∀ func < d.scope.funcs.length, ∃ t, d.mod.funcType? func = some t := by
    intro func hfunc
    have hdeclared := hs.declared _ (List.getElem_mem hfunc)
    refine ⟨d.mod.types[d.scope.funcs[func]], ?_⟩
    rw [Module.funcType?, ← hdescribes.funcs, List.getElem?_eq_getElem hfunc]
    exact Array.getElem?_eq_getElem hdeclared
  obtain ⟨sources, hsources⟩ := hs.bodies
  refine ⟨⟨d.scope, sources, hdescribes, fun {i f} hf => ?_⟩, fun i hi => ?_, hs.initial,
    fun {name func} hexport => ?_,
    fun {func} hstart => ?_, fun e he func hfunc => ?_⟩
  · obtain ⟨t, ht, hbody⟩ := (hsources i f hf).body
    exact ⟨t, ht, hbody, (hsources i f hf).lower⟩
  · exact hs.declared i (hs.funcs ▸ List.mem_append_left _ hi)
  · obtain ⟨e, he, rfl⟩ := Option.map_eq_some_iff.1 hexport
    have hkind : e.kind = .func := by
      have := List.find?_some he
      simp only [Bool.and_eq_true, beq_iff_eq] at this
      exact this.1
    exact htyped _ (hs.exports e (List.mem_of_find?_eq_some he) hkind)
  · rw [← hdescribes.funcType?]
    exact hs.start func hstart
  · exact htyped func (hs.elements e he func hfunc)

/-- A binary that is accepted gives the module of a sound draft, in which all
functions have bodies. -/
theorem Module.sound_of_decode {bs : List UInt8} {m : Module} (h : decode bs = .ok m) :
    ∃ d : Draft, d.Sound ∧ d.mod.funcs.size = d.defined.length ∧ d.mod = m := by
  rw [decode] at h
  split at h
  · obtain ⟨s, hsections, h⟩ := bind_eq_ok.1 h
    have hkeeps := Decode.sections_keeps ⟨Draft.sound_empty, Draft.pending_empty⟩ hsections
    split at h
    · next hend => exact ⟨s.draft, hkeeps.sound, hend.1, pure_eq_ok.1 h⟩
    · simp [Decode.rejected] at h
  · simp [Decode.rejected] at h

/-- **A binary that is accepted gives a valid module.** -/
theorem Module.valid_of_decode {bs : List UInt8} {m : Module}
    (h : decode bs = .ok m) : m.Valid := by
  obtain ⟨d, hs, hsize, rfl⟩ := sound_of_decode h
  exact hs.valid hsize

end WasmEngine
