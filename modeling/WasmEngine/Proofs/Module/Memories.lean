import WasmEngine.Proofs.Instance.Ready
import WasmEngine.Proofs.Module.Decode

/-!
# The memories of a decoded module

The engine has one memory, and it pays no attention to the memory that an
instruction or a segment names. What makes this right is how far decoding keeps
modules to one memory (`WasmEngine.Module.memorySpace_of_decode`). Memories come
from two sections, either of which may be missing, and only that of the module's
own memories counts them. So a module may import several
(`WasmEngine.Module.two_imported_memories_decoded`); that it cannot be linked
then is what leaves the engine with one.

Every memory that is named is in scope. For bodies this is here
(`WasmEngine.Typing.memories_of_tree?`), for segments it is among what
their section keeps (`WasmEngine.Draft.Sound`).
-/

namespace WasmEngine

/-! ### The memories that are named -/

/-- The memories that an instruction names. -/
def Plain.memories : Plain → List Nat
  | .load _ arg | .store _ arg => [arg.memory]
  | .memorySize m | .memoryGrow m | .memoryFill m => [m]
  | .memoryCopy dst src => [dst, src]
  | _ => []

/-- The memories that an instruction names. -/
def Instr.memories : Instr → List Nat
  | .plain op => op.memories
  | _ => []

/-- All memories that a module names in its code and in its segments of bytes. -/
def Module.namedMemories (m : Module) : List Nat :=
  m.funcs.toList.flatMap (fun f => f.code.toList.flatMap Instr.memories) ++
    m.data.flatMap Data.memories

/-- The number of memories that a module imports. -/
def Module.importedMemories (m : Module) : Nat := m.imports.countP fun i => match i.kind with
  | .memory _ => true
  | _ => false

/-! ### Bodies -/

namespace Typing

variable {s : BodyScope} {labels : List (List AnyType)}

theorem memories_of_plain? {op : Plain} {k k' : State} (h : plain? s labels op k = some k') :
    ∀ i ∈ op.memories, i < s.memories := by
  cases op with
  | load op arg | store op arg | memorySize mem | memoryGrow mem | memoryFill mem
  | memoryCopy dst src =>
    simp only [plain?, signature?, Option.bind_eq_bind, Option.bind_eq_some_iff,
      Option.ite_none_right_eq_some, Scope.hasMemory, Bool.and_eq_true, decide_eq_true_eq] at h
    obtain ⟨-, ⟨h, -⟩, -⟩ := h
    simpa [Plain.memories] using h
  | _ => simp [Plain.memories]

/-- A sequence that has been checked names memories that there are, also where
it is never reached. -/
theorem memories_of_tree? {t : Tree} {k k' : State} {code : Nested}
    (h : tree? s labels t k = some k') (hlower : t.lower = .ok code) :
    ∀ instr ∈ code.flatten, ∀ i ∈ instr.memories, i < s.memories := by
  induction t generalizing labels k k' code with
  | done =>
    obtain rfl := Except.ok.inj hlower
    simp [Nested.flatten]
  | simple op next ih =>
    simp only [tree?, Option.bind_eq_bind, Option.bind_eq_some_iff] at h
    obtain ⟨k₁, hop, hnext⟩ := h
    cases op with
    | plain op =>
      obtain ⟨rest, hrest, hlower⟩ := bind_eq_ok.1 hlower
      obtain rfl := pure_eq_ok.1 hlower
      exact List.forall_mem_cons.2 ⟨memories_of_plain? hop, ih hnext hrest⟩
    | brTable targets default =>
      obtain ⟨rest, hrest, hlower⟩ := bind_eq_ok.1 hlower
      obtain rfl := pure_eq_ok.1 hlower
      simp only [Nested.flatten, List.forall_mem_cons, List.forall_mem_append, List.forall_mem_map]
      exact ⟨by simp [Instr.memories], by simp [Instr.memories], ih hnext hrest⟩
    | selectAs type =>
      obtain ⟨rest, hrest, hlower⟩ := bind_eq_ok.1 hlower
      obtain rfl := pure_eq_ok.1 hlower
      exact List.forall_mem_cons.2 ⟨by simp [Instr.memories, Plain.memories], ih hnext hrest⟩
    | extended op => cases hlower
  | block o body next ihbody ihnext =>
    simp only [tree?, Option.bind_eq_bind, Option.bind_eq_some_iff,
      Option.ite_none_right_eq_some] at h
    obtain ⟨⟨params, results⟩, -, stack, -, inner, hbody, -, hnext⟩ := h
    cases o with
    | block type | loop type =>
      simp only [Tree.lower, bind_eq_ok, pure_eq_ok] at hlower
      obtain ⟨args, -, body', hbody', next', hnext', rfl⟩ := hlower
      simp only [Nested.flatten, List.forall_mem_cons, List.forall_mem_append]
      exact ⟨by simp [Instr.memories], ihbody hbody hbody', by simp [Instr.memories],
        ihnext hnext hnext'⟩
    | tryTable type catches => cases hlower
  | cond type body next ihbody ihnext =>
    simp only [tree?, Option.bind_eq_bind, Option.bind_eq_some_iff,
      Option.ite_none_right_eq_some] at h
    obtain ⟨⟨params, results⟩, -, stack, -, inner, hbody, -, hnext⟩ := h
    simp only [Tree.lower, bind_eq_ok, pure_eq_ok] at hlower
    obtain ⟨args, -, body', hbody', next', hnext', rfl⟩ := hlower
    simp only [Nested.flatten, List.forall_mem_cons, List.forall_mem_append]
    exact ⟨by simp [Instr.memories], ihbody hbody hbody', by simp [Instr.memories],
      ihnext hnext hnext'⟩
  | condElse type body alt next ihbody ihalt ihnext =>
    simp only [tree?, Option.bind_eq_bind, Option.bind_eq_some_iff,
      Option.ite_none_right_eq_some] at h
    obtain ⟨⟨params, results⟩, -, stack, -, yes, hbody, no, halt, -, hnext⟩ := h
    simp only [Tree.lower, bind_eq_ok, pure_eq_ok] at hlower
    obtain ⟨args, -, body', hbody', alt', halt', next', hnext', rfl⟩ := hlower
    simp only [Nested.flatten, List.forall_mem_cons, List.forall_mem_append]
    exact ⟨by simp [Instr.memories], ihbody hbody hbody', by simp [Instr.memories],
      ihalt halt halt', by simp [Instr.memories], ihnext hnext hnext'⟩

end Typing

/-- The code of a body that has been checked names memories that there are. -/
theorem BodyDef.memories_of_lower {s : Scope} {t : FuncType} {b : BodyDef} {type : Nat} {f : Func}
    (hbody : Typing.isBody s t b.locals b.ops = true) (h : b.lower type = .ok f) :
    ∀ i ∈ f.code.toList.flatMap Instr.memories, i < s.memories := by
  obtain ⟨tree, htree, hlower, -, hcode, -⟩ := BodyDef.of_lower hbody h
  simp only [Typing.isBody, htree, Bool.if_false_right, Bool.and_eq_true,
    Option.any_eq_true] at hbody
  obtain ⟨-, k, hk, -⟩ := hbody
  rw [List.forall_mem_flatMap, hcode, Nested.code, List.toList_toArray, List.forall_mem_append]
  exact ⟨Typing.memories_of_tree? hk hlower, by simp [Instr.memories, Plain.memories]⟩

/-! ### Modules -/

namespace Module

variable {m : Module} {bs : List UInt8}

/-- **Every memory that is named is there.** -/
theorem lt_of_namedMemories (h : decode bs = .ok m) : ∀ i ∈ m.namedMemories, i < m.memoryCount := by
  obtain ⟨s, sources, hchecked⟩ := (valid_of_decode h).checked
  obtain ⟨d, hsound, -, rfl⟩ := sound_of_decode h
  refine List.forall_mem_append.2 ⟨List.forall_mem_flatMap.2 fun f hf => ?_, hsound.data⟩
  obtain ⟨i, hi⟩ := List.getElem?_of_mem hf
  obtain ⟨t, -, hbody, hlower⟩ := hchecked.body (Array.getElem?_toList ▸ hi)
  exact hchecked.scope.memories ▸ BodyDef.memories_of_lower hbody hlower

theorem memoryCount_of_own (h : decode bs = .ok m) (hown : m.memories ≠ []) :
    m.memoryCount ≤ 1 := by
  obtain ⟨d, hsound, -, rfl⟩ := sound_of_decode h
  exact hsound.single hown

theorem memoryCount_eq (m : Module) : m.memoryCount = m.importedMemories + m.memories.length := rfl

/-- There is one memory at most, unless all are imported. -/
theorem memoryCount_le_one_iff (h : decode bs = .ok m) : m.memoryCount ≤ 1 ↔
    m.importedMemories ≤ 1 := by
  refine ⟨fun hle => Nat.le_trans (Nat.le_add_right _ _) hle, fun hle => ?_⟩
  by_cases hnone : m.memories = []
  · rwa [memoryCount_eq, hnone]
  · exact memoryCount_of_own h hnone

/-- A module that can be linked imports functions only, so no memory. -/
theorem importedMemories_of_resolve {H : Type} {r : Registry H} {fs : List (HostFunction H)}
    (h : r.resolve m = .ok fs) : m.importedMemories = 0 := by
  refine List.countP_eq_zero.2 fun i hi => ?_
  obtain ⟨t, ht⟩ := Registry.onlyFunctions_of_resolve h i hi
  simp [ht]

/-- **The memories of a module**: code and segments name those that there are.
There is one at most unless several are imported, and several cannot be linked,
so where code runs there is no choice of a memory. -/
structure MemorySpace (m : Module) : Prop where
  /-- Every memory that is named is there. -/
  named : ∀ i ∈ m.namedMemories, i < m.memoryCount
  /-- A memory of the module itself is the only one. -/
  own : m.memories ≠ [] → m.memoryCount = 1
  /-- There are several only if several are imported. -/
  single : m.memoryCount ≤ 1 ↔ m.importedMemories ≤ 1
  /-- Unless several are imported, only the first memory is named. -/
  first : m.importedMemories ≤ 1 → ∀ i ∈ m.namedMemories, i = 0
  /-- Of a module that is linked there is one memory at most, and only the first
  is named. -/
  linked : ∀ {H : Type} (r : Registry H) (fs : List (HostFunction H)), r.resolve m = .ok fs →
    m.memoryCount ≤ 1 ∧ ∀ i ∈ m.namedMemories, i = 0

/-- **What decoding says about memories.** A memory of a module and another one,
imported or not, are refused together; memories that are all imported are not
counted. -/
theorem memorySpace_of_decode (h : decode bs = .ok m) : m.MemorySpace := by
  have hfirst : m.importedMemories ≤ 1 → ∀ i ∈ m.namedMemories, i = 0 := by
    intro hle i hi
    have hlt := lt_of_namedMemories h i hi
    have hone := (memoryCount_le_one_iff h).2 hle
    omega
  refine ⟨lt_of_namedMemories h, fun hown => ?_, memoryCount_le_one_iff h, hfirst,
    fun r fs hfs => ?_⟩
  · have hle := memoryCount_of_own h hown
    have hpos := List.length_pos_iff.2 hown
    rw [memoryCount_eq] at hle ⊢
    omega
  · have hnone : m.importedMemories ≤ 1 :=
      Nat.le_trans (Nat.le_of_eq (importedMemories_of_resolve hfs)) (Nat.zero_le 1)
    exact ⟨(memoryCount_le_one_iff h).2 hnone, hfirst hnone⟩

/-- The binary of a module with a memory, a byte at its start, and a function
that loads from there. -/
def loaderBytes : List UInt8 := [
  0x00, 0x61, 0x73, 0x6d, 0x01, 0x00, 0x00, 0x00,
  0x01, 0x05, 0x01, 0x60, 0x00, 0x01, 0x7f,
  0x03, 0x02, 0x01, 0x00,
  0x05, 0x03, 0x01, 0x00, 0x01,
  0x0a, 0x09, 0x01, 0x07, 0x00, 0x41, 0x00, 0x28, 0x02, 0x00, 0x0b,
  0x0b, 0x07, 0x01, 0x00, 0x41, 0x00, 0x0b, 0x01, 0x2a]

/-- The module. -/
def loader : Module where
  version := some 1
  types := #[⟨[], [.i32]⟩]
  memories := [⟨1, none⟩]
  funcs := #[⟨0, [], #[.plain (.const (.i32 0)), .plain (.load (.full .i32) ⟨0, 0⟩), .plain .ret]⟩]
  data := [⟨.active 0 (.value (.i32 0)), [0x2a], (38, 44)⟩]

/-- Its memory is the only one, for its function and for its segment. -/
theorem loader_memorySpace :
    decode loaderBytes = .ok loader ∧ loader.memories ≠ [] ∧ loader.memoryCount = 1 ∧
    loader.namedMemories = [0, 0] ∧
      ∀ i ∈ loader.namedMemories, i = 0 := by
  have hspace := memorySpace_of_decode (rfl : decode loaderBytes = .ok loader)
  have hown : loader.memories ≠ [] := List.cons_ne_nil _ _
  exact ⟨rfl, hown, hspace.own hown, rfl, (hspace.linked ({} : Registry Unit) [] rfl).2⟩

/-- The binary of a module that imports two memories and has a function that
asks for the size of the second. -/
def twoMemoriesBytes : List UInt8 := [
  0x00, 0x61, 0x73, 0x6d, 0x01, 0x00, 0x00, 0x00,
  0x01, 0x05, 0x01, 0x60, 0x00, 0x01, 0x7f,
  0x02, 0x0f, 0x02, 0x01, 0x61, 0x01, 0x6d, 0x02, 0x00, 0x01, 0x01, 0x61, 0x01, 0x6e, 0x02, 0x00,
  0x01, 0x03, 0x02, 0x01, 0x00,
  0x0a, 0x06, 0x01, 0x04, 0x00, 0x3f, 0x01, 0x0b]

/-- Two memories are accepted if both are imported. -/
theorem two_imported_memories_decoded : ∃ m, decode twoMemoriesBytes = .ok m ∧ m.memoryCount = 2 ∧
    m.namedMemories = [1] :=
  ⟨_, rfl, rfl, rfl⟩

end Module

end WasmEngine
