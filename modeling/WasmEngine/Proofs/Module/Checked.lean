import WasmEngine.Module.Draft
import WasmEngine.Proofs.Typing.Body

/-!
# Modules with checked bodies

What the code of a module was before it was lowered: operators in a row, which
are those of a tree (`WasmEngine.Tree.operators_of_ofOperators?`), with groups
of locals. If all bodies have been checked against what the module has, then the
nested code that they are lowered to is typed
(`WasmEngine.Module.Checked.bodies`).
-/

namespace WasmEngine

/-! ### The tree of operators -/

namespace Tree

/-- The operators of a sequence from somewhere in it to its end. -/
def Suffix.operators (s : Suffix) : List Operator :=
  match s.alt with
  | none => s.rest.operators ++ [.endBlock]
  | some alt => s.rest.operators ++ .orElse :: (alt.operators ++ [.endBlock])

theorem operators_of_prepend {op : Operator} {ss ss' : List Suffix} (h : prepend op ss = some ss') :
    ss'.flatMap Suffix.operators = op :: ss.flatMap Suffix.operators := by
  unfold prepend at h
  split at h <;> simp only [Option.some.injEq, reduceCtorEq] at h <;> subst h
  case h_1 => simp [Suffix.operators, operators]
  case h_2 op s ss => cases hs : s.alt <;> simp [Suffix.operators, operators, hs]
  case h_3 o body s ss => cases hs : s.alt <;> simp [Suffix.operators, operators, hs]
  case h_4 type body s ss => cases hs : s.alt <;> simp [Suffix.operators, operators, hs]
  case h_5 type body alt s ss => cases hs : s.alt <;> simp [Suffix.operators, operators, hs]
  case h_6 => simp [Suffix.operators, operators]

theorem operators_of_suffixes? {ops : List Operator} {ss : List Suffix}
    (h : suffixes? ops = some ss) : ss.flatMap Suffix.operators = ops := by
  induction ops generalizing ss with
  | nil =>
    obtain rfl : [] = ss := by simpa [suffixes?] using h
    rfl
  | cons op ops ih =>
    obtain ⟨ss', hrest, hop⟩ := Option.bind_eq_some_iff.1 h
    rw [operators_of_prepend hop, ih hrest]

/-- **The tree of operators is written out as these operators.** -/
theorem operators_of_ofOperators? {ops : List Operator} {t : Tree} (h : ofOperators? ops = some t) :
    ops = t.operators ++ [.endBlock] := by
  rw [ofOperators?] at h
  split at h
  · next t' hss =>
    obtain rfl := Option.some.inj h
    rw [← operators_of_suffixes? hss]
    simp [Suffix.operators]
  · simp at h

end Tree

/-! ### Lowering of lists -/

theorem AnyType.of_lower {a : AnyType} {t : ValType} (h : a.lower = .ok t) : a = .num t := by
  cases a with
  | num u =>
    obtain rfl : u = t := by simpa [AnyType.lower, AnyType.lower?] using h
    rfl
  | v128 | ref => simp [AnyType.lower, AnyType.lower?] at h

/-- The locals of a body that can be lowered are of value types. -/
theorem expand_of_lower {groups : List Typing.LocalGroup} {locals : List (List ValType)}
    (h : (groups.mapM fun g => do pure (List.replicate g.count (← g.type.lower))) =
      (.ok locals : Except ParseError _)) : Typing.expand groups = ValType.lift locals.flatten := by
  have hall := mapM_eq_ok.1 h
  clear h
  induction hall with
  | nil => rfl
  | @cons g ts groups locals hg _ ih =>
    obtain ⟨t, ht, hts⟩ := bind_eq_ok.1 hg
    obtain rfl : List.replicate g.count t = ts := by simpa [pure, Except.pure] using hts
    rw [List.flatten_cons, Typing.lift_append, ← ih]
    simp [Typing.expand, AnyType.of_lower ht, ValType.lift]

/-! ### Bodies -/

/-- The nested code of a body that can be lowered. -/
def BodyDef.nested (b : BodyDef) : Nested :=
  match Tree.ofOperators? b.ops with
  | some t => t.lower.toOption.getD .done
  | none => .done

/-- What becomes of a body that was checked and can be lowered. -/
theorem BodyDef.of_lower {s : Scope} {t : FuncType} {b : BodyDef} {type : Nat} {f : Func}
    (hbody : Typing.isBody s t b.locals b.ops = true) (h : b.lower type = .ok f) :
    ∃ t, Tree.ofOperators? b.ops = some t ∧ t.lower = .ok b.nested ∧ b.nested.Narrow ∧
    f.code = b.nested.code ∧
      Typing.expand b.locals = ValType.lift f.locals := by
  simp only [BodyDef.lower, bind_eq_ok] at h
  obtain ⟨locals, hlocals, code, hcode, h⟩ := h
  obtain rfl : Func.mk type locals.flatten code = f := by simpa [pure, Except.pure] using h
  cases ht : Tree.ofOperators? b.ops with
  | none => simp [Typing.isBody, ht] at hbody
  | some t =>
    rw [Tree.operators_of_ofOperators? ht, Operator.lower_iff] at hcode
    obtain ⟨body, hlower, hfits, rfl⟩ := hcode
    have hnested : b.nested = body := by simp [BodyDef.nested, ht, hlower, Except.toOption]
    rw [hnested]
    exact ⟨t, rfl, hlower, hfits.narrow, rfl, expand_of_lower hlocals⟩

/-- **All bodies of a module were checked** and then lowered; `sources` has them
in their original form, numbered as the functions that the module defines. -/
structure Module.Checked (m : Module) (s : Scope) (sources : Nat → BodyDef) : Prop where
  /-- They were checked against what the module has. -/
  scope : s.Describes m
  /-- Each has the type of its function. -/
  body : ∀ {i f}, m.funcs[i]? = some f → ∃ t, m.types[f.type]? = some t ∧
    Typing.isBody s t (sources i).locals (sources i).ops = true ∧ (sources i).lower f.type = .ok f

/-- A body of the type of its function is typed code. -/
theorem Typing.typed_of_isBody {s : Scope} {m : Module} (hs : s.Describes m) {b : BodyDef}
    {type : Nat} {f : Func} {t : FuncType} (hbody : isBody s t b.locals b.ops = true)
    (hlower : b.lower type = .ok f) :
    b.nested.Typed ⟨m, t.params ++ f.locals, t.results⟩ [t.results] [] t.results.reverse := by
  obtain ⟨tree, htree, hnested, -, -, hlocals⟩ := BodyDef.of_lower hbody hlower
  simp only [isBody, htree] at hbody
  split at hbody
  · cases hk : tree? ⟨s, ValType.lift t.params ++ expand b.locals, ValType.lift t.results⟩
      [ValType.lift t.results] tree
      ⟨{}, uninitialized t.params.length (ValType.lift t.params ++ expand b.locals)⟩ with
    | none => simp [hk] at hbody
    | some k =>
      rw [hk, Option.any_some] at hbody
      have hscope :
        BodyScope.Describes ⟨s, ValType.lift t.params ++ expand b.locals, ValType.lift t.results⟩
          ⟨m, t.params ++ f.locals, t.results⟩ := ⟨hs, by rw [hlocals, lift_append], rfl⟩
      refine typed_of_tree? hscope hk rfl hnested fun ts' hts' => ?_
      exact Stack.of_endsWith (hts' ▸ hbody)
  · simp at hbody

theorem Module.Checked.bodies {m : Module} {s : Scope} {sources : Nat → BodyDef}
    (h : m.Checked s sources) : m.Bodies fun i => (sources i).nested where
  code hf := by
    obtain ⟨t, -, hbody, hlower⟩ := h.body hf
    obtain ⟨-, -, -, -, hcode, -⟩ := BodyDef.of_lower hbody hlower
    exact hcode
  typed hf := by
    obtain ⟨t, ht, hbody, hlower⟩ := h.body hf
    exact ⟨t, ht, Typing.typed_of_isBody h.scope hbody hlower⟩
  narrow hf := by
    obtain ⟨t, -, hbody, hlower⟩ := h.body hf
    obtain ⟨-, -, -, hnarrow, -⟩ := BodyDef.of_lower hbody hlower
    exact hnarrow

end WasmEngine
