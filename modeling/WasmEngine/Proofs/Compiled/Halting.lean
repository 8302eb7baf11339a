import WasmEngine.Proofs.Compiled.Cursor

/-!
# Compilation halts

What comes out of compiling a function whose code may be anything
(`WasmEngine.Compiled.compilation_halts`). The compiler that goes step by step
has a last step. There it is at the end of the body, or it has found something
to complain about (`WasmEngine.Body.Complains`), or it is at no instruction. The
last is what happens if a distance leads behind the code.
-/

namespace WasmEngine

/-! ### Complaints -/

namespace Body

variable {α β : Type} {b : Body}

/-- An attempt that fails with a complaint about the code, if it fails. -/
def Complains (r : Except Halt α) : Prop := ∀ e, r = .error e → ∃ f, e = .error (.fault f)

theorem complains_ok (a : α) : Complains (.ok a) := by
  rintro e ⟨⟩

theorem complains_fault (f : Fault) : Complains (fault f : Except Halt α) := by
  rintro e ⟨⟩
  exact ⟨f, rfl⟩

theorem Complains.bind {x : Except Halt α} {f : α → Except Halt β} (hx : Complains x)
    (hf : ∀ a, Complains (f a)) : Complains (x >>= f) := by
  cases x with
  | error e =>
    rintro e' ⟨⟩
    exact hx e rfl
  | ok a => exact hf a

theorem complains_mapM {f : α → Except Halt β} (hf : ∀ a, Complains (f a)) (xs : List α) :
    Complains (xs.mapM f) := by
  intro e h
  obtain ⟨-, x, -, -, -, hx⟩ := mapM_eq_error.1 h
  exact hf x e hx

theorem complains_require (index n : Nat) (h : Heights) : Complains (require index n h) := by
  rw [require]
  split
  · exact complains_fault _
  · exact complains_ok _

theorem complains_label (args : BlockArgs) (isLoop : Bool) (h : Heights) :
    Complains (b.label args isLoop h) := by
  refine Complains.bind ?_ fun n => ?_
  · cases args with
    | empty | value => exact complains_ok _
    | func i =>
      rw [arity]
      split
      · exact complains_ok _
      · exact complains_fault _
  · dsimp only
    split
    · exact complains_fault _
    · exact complains_ok _

theorem complains_returnJump (h : Heights) : Complains (b.returnJump h) := by
  rw [returnJump]
  split
  · exact complains_fault _
  · exact complains_ok _

theorem complains_jump (labels : List Label) (h : Heights) (depth : Nat) :
    Complains (b.jump labels h depth) := by
  rw [jump]
  split
  · exact complains_returnJump h
  · split
    · exact complains_fault _
    · exact complains_ok _

theorem complains_compilePlain (labels : List Label) (index : Nat) (h : Heights) (op : Plain) :
    Complains (b.compilePlain labels index h op) := by
  cases op with
  | nop | unreachable | localGet | globalGet | memorySize | const => exact complains_ok _
  | drop | select | localSet | localTee | globalSet | load | store | memoryGrow | memoryCopy
  | memoryFill | unary | binary =>
    exact (complains_require _ _ _).bind fun _ => complains_ok _
  | br depth => exact (complains_jump _ _ _).bind fun _ => complains_ok _
  | brIf depth =>
    exact (complains_require _ _ _).bind fun _ => (complains_jump _ _ _).bind
      fun _ => complains_ok _
  | ret => exact (complains_returnJump _).bind fun _ => complains_ok _
  | call func =>
    rw [compilePlain]
    split
    · exact complains_fault _
    · exact (complains_require _ _ _).bind fun _ => complains_ok _
  | callIndirect type table =>
    rw [compilePlain]
    split
    · exact complains_fault _
    · exact (complains_require _ _ _).bind fun _ => (complains_require _ _ _).bind
        fun _ => complains_ok _

theorem complains_compileInstr (labels : List Label) (index : Nat) (h : Heights) (i : Instr) :
    Complains (b.compileInstr labels index h i) := by
  cases i with
  | plain op => exact complains_compilePlain labels index h op
  | brTable default count =>
    refine (complains_require _ _ _).bind fun _ => ?_
    dsimp only
    split
    · exact complains_fault _
    · refine (complains_mapM (fun i => ?_) _).bind fun _ => (complains_jump _ _ _).bind
        fun _ => complains_ok _
      cases i with
      | brLabel depth => exact complains_jump _ _ depth
      | _ => exact complains_fault _
  | _ => exact complains_fault _

end Body

namespace Cursor

variable {b : Body} {c c' : Cursor} {r : Answer}

theorem complains_enter (h : Heights) (arm : Arm) (args : BlockArgs) (isLoop : Bool)
    (len stop : Nat) : Body.Complains (c.enter b h arm args isLoop len stop) :=
  (Body.complains_label args isLoop h).bind fun _ => Body.complains_ok _

theorem complains_advance (i : Instr) : Body.Complains (c.advance b i) := by
  cases i with
  | block args len | loop args len => exact complains_enter _ _ args _ len _
  | cond args alt len =>
    refine (Body.complains_require _ _ _).bind fun _ => ?_
    dsimp only
    split
    · exact complains_enter _ _ args _ len _
    · exact complains_enter _ _ args _ len _
  | plain | orElse | endBlock | brTable | brLabel =>
    refine (Body.complains_compileInstr _ _ _ _).bind fun ⟨e, h⟩ => ?_
    cases e with
    | op | last | nothing => exact Body.complains_ok _

/-! ### How compilation ends -/

/-- There is no instruction to go on with, although the sequence has not come to
its end. -/
def PastEnd (b : Body) (c : Cursor) : Prop := c.pos < c.stop ∧ b.code.size ≤ c.pos

theorem step_of_pastEnd (h : c.PastEnd b) : c.step b = .ended (.error .aborted) := by
  rw [step, if_pos h.1, Array.getElem?_eq_none h.2]

/-- **What the last step can be**: there is no instruction to go on with, there
is a complaint, or the body comes to its end. -/
theorem ended_cases (h : c.step b = .ended r) :
    (c.PastEnd b ∧ r = .error .aborted) ∨ (∃ f, r = Body.fault f) ∨ ∃ ops h, r = .ok (ops, h) := by
  rw [step] at h
  split at h
  · next hstop =>
    split at h
    · next hnone => exact Or.inl ⟨⟨hstop, Array.getElem?_eq_none_iff.1 hnone⟩,
        (Course.ended.inj h).symm⟩
    · next i _ =>
      split at h
      · cases h
      · next e hadvance =>
        obtain ⟨f, rfl⟩ := complains_advance i e hadvance
        exact Or.inr (Or.inl ⟨f, (Course.ended.inj h).symm⟩)
  · split at h
    · exact Or.inr (Or.inr ⟨c.ops, c.heights, (Course.ended.inj h).symm⟩)
    · cases h

/-- There is a last step. -/
theorem last_step {n : Nat} (h : c.run b n = .ended r) : ∃ k c', c.run b k = .running c' ∧
    c'.step b = .ended r := by
  induction n generalizing c with
  | zero => cases h
  | succ n ih =>
    rw [run] at h
    split at h
    · next c₁ hstep =>
      obtain ⟨k, c', hrun, hlast⟩ := ih h
      exact ⟨k + 1, c', by simp only [run, hstep, hrun], hlast⟩
    · next r' hstep => exact ⟨0, c, rfl, hstep.trans h⟩

/-- Compilation is aborted where there is no instruction to go on with, and only
there. -/
theorem answer_eq_aborted (b : Body) (c : Cursor) :
    c.answer b = .error .aborted ↔ ∃ n c', c.run b n = .running c' ∧ c'.PastEnd b := by
  constructor
  · intro h
    obtain ⟨k, c', hrun, hlast⟩ := last_step (run_potential b c)
    obtain ⟨hpast, -⟩ | ⟨f, hf⟩ | ⟨ops, heights, hok⟩ := ended_cases hlast
    · exact ⟨k, c', hrun, hpast⟩
    · cases h.symm.trans hf
    · cases h.symm.trans hok
  · rintro ⟨n, c', hrun, hpast⟩
    rw [← answer_run b n c, hrun]
    exact (answer_step b c').symm.trans (congrArg (Course.answer b) (step_of_pastEnd hpast))

end Cursor

/-! ### Functions and modules -/

namespace Compiled

/-- The body of a function of a type, to be compiled. -/
def bodyOf (m : Module) (f : Func) (t : FuncType) : Body :=
  ⟨m, f.code, t.params.length + f.locals.length, t.results.length⟩

/-- The function that has been compiled, once its body is. -/
def funcOf (f : Func) (t : FuncType) (body : List Code × Heights) : CompiledFunc :=
  let locals := t.params.length + f.locals.length
  ⟨t.params.length, locals, locals + body.2.greatest, body.1⟩

theorem compileFunc_of_type {m : Module} {f : Func} {t : FuncType}
    (ht : m.types[f.type]? = some t) :
    compileFunc m f = (Cursor.answer (bodyOf m f t) (Cursor.start (bodyOf m f t))).map
      (funcOf f t) := by
  rw [Cursor.answer_start, compileFunc, ht]
  exact bind_pure_comp _ _

/-- **How the compilation of a function goes**: step by step, whatever its code,
to an answer. -/
structure Goes (m : Module) (f : Func) (t : FuncType) (r : Cursor.Answer) : Prop where
  /-- It comes to its end, after a number of steps that the number of
  instructions bounds. -/
  ends : (Cursor.start (bodyOf m f t)).run (bodyOf m f t) (Cursor.weight f.code.size) = .ended r
  /-- At no time is it in more constructs than there are instructions. -/
  depth : ∀ {n c}, (Cursor.start (bodyOf m f t)).run (bodyOf m f t) n = .running c →
    c.around.length ≤ f.code.size
  /-- It is aborted exactly where it would go on behind the last instruction. -/
  aborted : r = .error .aborted ↔
    ∃ n c, (Cursor.start (bodyOf m f t)).run (bodyOf m f t) n = .running c ∧
    c.PastEnd (bodyOf m f t)
  /-- The answer makes the function. -/
  func : compileFunc m f = r.map (funcOf f t)

/-- Something that is compiled, a complaint about the code, or no instruction to
go on with. -/
def Answers {α : Type} (r : Except Halt α) : Prop := (∃ a, r = .ok a) ∨ (∃ f, r = Body.fault f) ∨
    r = .error .aborted

theorem answers_answer (b : Body) (c : Cursor) : Answers (c.answer b) := by
  obtain ⟨k, c', -, hlast⟩ := Cursor.last_step (Cursor.run_potential b c)
  obtain ⟨-, h⟩ | h | ⟨ops, heights, h⟩ := Cursor.ended_cases hlast
  · exact Or.inr (Or.inr h)
  · exact Or.inr (Or.inl h)
  · exact Or.inl ⟨_, h⟩

theorem answers_compileFunc (m : Module) (f : Func) : Answers (compileFunc m f) := by
  rcases ht : m.types[f.type]? with _ | t
  · rw [compileFunc, ht]
    exact Or.inr (Or.inl ⟨_, rfl⟩)
  · rw [compileFunc_of_type ht]
    obtain ⟨a, h⟩ | ⟨e, h⟩ | h :=
      answers_answer (bodyOf m f t) (Cursor.start (bodyOf m f t)) <;> rw [h]
    · exact Or.inl ⟨_, rfl⟩
    · exact Or.inr (Or.inl ⟨e, rfl⟩)
    · exact Or.inr (Or.inr rfl)

/-- What stops the compilation of a module: a function that has no type, or one
that cannot be compiled. -/
theorem of_compile_error {m : Module} {e : Halt} (h : compile m = .error e) :
    (∃ f, e = .error (.fault f)) ∨ ∃ f ∈ m.funcs, compileFunc m f = .error e := by
  rw [compile] at h
  rcases htypes : m.funcTypes.zipIdx.mapM funcType with e' | types
  · rw [htypes] at h
    obtain rfl : e' = e := Except.error.inj h
    refine Or.inl (Body.complains_mapM (fun x => ?_) _ e' htypes)
    obtain ⟨_ | t, func⟩ := x
    · exact Body.complains_fault _
    · exact Body.complains_ok _
  · rcases hfuncs : m.funcs.toList.mapM (compileFunc m) with e' | funcs
    · rw [htypes, ok_bind, hfuncs] at h
      obtain rfl : e' = e := Except.error.inj h
      obtain ⟨before, f, after, hlist, -, hf⟩ := mapM_eq_error.1 hfuncs
      exact Or.inr
        ⟨f, Array.mem_toList_iff.1 (hlist ▸ List.mem_append_right _ List.mem_cons_self), hf⟩
    · rw [htypes, ok_bind, hfuncs] at h
      cases h

theorem goes {m : Module} {f : Func} {t : FuncType} (ht : m.types[f.type]? = some t) :
    Goes m f t (Cursor.answer (bodyOf m f t) (Cursor.start (bodyOf m f t))) where
  ends := Cursor.run_potential (bodyOf m f t) (Cursor.start (bodyOf m f t))
  depth h := by
    have hordered :=
      Cursor.ordered_of_run (b := bodyOf m f t) (c := Cursor.start (bodyOf m f t)) trivial h
    exact Nat.le_trans (Cursor.length_of_ordered hordered) (Nat.min_le_right _ _)
  aborted := Cursor.answer_eq_aborted _ _
  func := compileFunc_of_type ht

/-- **Compilation of a module comes to an end**, whatever code its functions
have. -/
structure Halts (m : Module) : Prop where
  /-- A function without a type is not begun. -/
  untyped : ∀ f : Func, m.types[f.type]? = none →
    compileFunc m f = Body.fault (.typeNotFound f.type)
  /-- Others are compiled step by step. -/
  typed : ∀ (f : Func) (t : FuncType), m.types[f.type]? = some t → ∃ r, Goes m f t r
  /-- What comes out of a function. -/
  func : ∀ f : Func, Answers (compileFunc m f)
  /-- What comes out of the module. -/
  all : Answers (compile m)
  /-- If it is aborted, then one of its functions is to blame. -/
  aborted : compile m = .error .aborted → ∃ f ∈ m.funcs, compileFunc m f = .error .aborted

/-- **Compilation halts**, on all code. A function is compiled in at most as
many steps as a number that depends only on the number of its instructions,
however the distances in its code overlap, and never in deeper nesting than it
has instructions. What comes out is a compiled function, a complaint, or an
instruction that is asked for behind the last one. -/
theorem compilation_halts (m : Module) : Halts m where
  untyped f h := by
    rw [compileFunc, h]
  typed f t ht := ⟨_, goes ht⟩
  func := answers_compileFunc m
  all := by
    rcases h : compile m with e | c
    · obtain ⟨f, rfl⟩ | ⟨f, -, hf⟩ := of_compile_error h
      · exact Or.inr (Or.inl ⟨f, rfl⟩)
      · obtain ⟨c, hc⟩ | ⟨f', hf'⟩ | ha := answers_compileFunc m f
        · cases hf.symm.trans hc
        · cases hf.symm.trans hf'
          exact Or.inr (Or.inl ⟨f', rfl⟩)
        · cases hf.symm.trans ha
          exact Or.inr (Or.inr rfl)
    · exact Or.inl ⟨c, rfl⟩
  aborted h := by
    obtain ⟨f, hf⟩ | hf := of_compile_error h
    · cases hf
    · exact hf

end Compiled

end WasmEngine
