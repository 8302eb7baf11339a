import WasmEngine.Proofs.Operator.Lower
import WasmEngine.Typing.Body

/-!
# Checked bodies are typed

A body is checked in the form in which a binary has it, with more types than the
engine computes with and with operators that the engine does not run. What is
left of it once it is lowered has types in the sense of
`WasmEngine.Nested.Typed`, and this file says so
(`WasmEngine.Typing.typed_of_tree?`).

As long as the code at hand can be reached, all that the checker knows of the
operands is that they are of certain value types: a stack
`WasmEngine.Typing.Stack.ofTypes`. Reference types come in only through
operators that cannot be lowered, or through code that is never reached; and
about that nothing has to be said.
-/

namespace WasmEngine

/-- **A scope names what a module has.** -/
structure Scope.Describes (s : Scope) (m : Module) : Prop where
  /-- The declared types. -/
  types : s.types = m.types
  /-- The types of the functions. -/
  funcs : ∀ func : Nat, s.funcs[func]? = m.typeIndex? func
  /-- The globals, all of them of value types. -/
  globals : ∀ {i : Nat} {g : GlobalDecl}, s.globals[i]? = some g →
    ∃ t, g.type = .num t ∧ m.globalTypes[i]? = some ⟨g.isMutable, t⟩
  /-- The number of tables. -/
  tables : s.tables.length = m.tableCount
  /-- The number of memories. -/
  memories : s.memories = m.memoryCount

theorem Scope.Describes.funcType? {s : Scope} {m : Module} (h : s.Describes m) (func : Nat) :
    s.funcType? func = m.funcType? func := by
  simp only [Scope.funcType?, Module.funcType?, h.funcs, h.types]

namespace Typing

/-! ### Stacks of value types -/

theorem lift_append (ts us : List ValType) :
    ValType.lift (ts ++ us) = ValType.lift ts ++ ValType.lift us :=
  List.map_append

theorem lift_injective {ts us : List ValType} (h : ValType.lift ts = ValType.lift us) : ts = us :=
  List.map_inj_right (fun _ _ h => AnyType.num.inj h) |>.1 h

namespace Stack

/-- The operands of the types given, the top first, at a place that can be
reached. -/
def ofTypes (ts : List ValType) : Stack := ⟨ts.map fun t => .known (.num t), true⟩

variable {s : TypeSpace} {k : Stack} {ts : List ValType}

theorem of_pop? {o : Operand} (h : (ofTypes ts).pop? = some (o, k)) :
    ∃ t ts', ts = t :: ts' ∧ o = .known (.num t) ∧ k = ofTypes ts' := by
  cases ts with
  | nil => simp [pop?, ofTypes] at h
  | cons t ts' =>
    simp only [pop?, ofTypes, List.map_cons, Option.some.injEq, Prod.mk.injEq] at h
    exact ⟨t, ts', rfl, h.1.symm, h.2.symm⟩

theorem of_popAs? {a : AnyType} (h : (ofTypes ts).popAs? s a = some k) :
    ∃ t ts', a = .num t ∧ ts = t :: ts' ∧ k = ofTypes ts' := by
  simp only [popAs?, Option.bind_eq_bind, Option.bind_eq_some_iff,
    Option.ite_none_right_eq_some] at h
  obtain ⟨⟨o, k'⟩, hpop, hfits, hk⟩ := h
  obtain ⟨t, ts', rfl, rfl, rfl⟩ := of_pop? hpop
  refine ⟨t, ts', ?_, rfl, (Option.some.inj hk).symm⟩
  cases a with
  | num u =>
    have heq : t = u := by simpa [Operand.fits, TypeSpace.isBelow] using hfits
    rw [heq]
  | v128 | ref => simp [Operand.fits, TypeSpace.isBelow] at hfits

theorem of_popAll? {as : List AnyType} (h : (ofTypes ts).popAll? s as = some k) :
    ∃ ps ts', as = ValType.lift ps ∧ ts = ps ++ ts' ∧ k = ofTypes ts' := by
  induction as generalizing ts with
  | nil => exact ⟨[], ts, rfl, rfl, (Option.some.inj h).symm⟩
  | cons a as ih =>
    obtain ⟨k', hpop, hrest⟩ := Option.bind_eq_some_iff.1 h
    obtain ⟨t, ts', rfl, rfl, rfl⟩ := of_popAs? hpop
    obtain ⟨ps, ts'', rfl, rfl, rfl⟩ := ih hrest
    exact ⟨t :: ps, ts'', rfl, rfl, rfl⟩

theorem of_take? {as : List AnyType} (h : (ofTypes ts).take? s as = some k) :
    ∃ ps ts', as = ValType.lift ps ∧ ts = ps.reverse ++ ts' ∧ k = ofTypes ts' := by
  obtain ⟨ps, ts', has, rfl, rfl⟩ := of_popAll? h
  refine ⟨ps.reverse, ts', ?_, by rw [List.reverse_reverse], rfl⟩
  rw [ValType.lift, List.map_reverse, ← List.reverse_eq_iff]
  exact has

theorem of_take?_lift {ps : List ValType} (h : (ofTypes ts).take? s (ValType.lift ps) = some k) :
    ∃ ts', ts = ps.reverse ++ ts' ∧ k = ofTypes ts' := by
  obtain ⟨ps', ts', hps, rfl, rfl⟩ := of_take? h
  obtain rfl := lift_injective hps
  exact ⟨ts', rfl, rfl⟩

theorem give_lift (rs : List ValType) : (ofTypes ts).give (ValType.lift rs) =
    ofTypes (rs.reverse ++ ts) := by
  simp [give, ofTypes, ValType.lift, Function.comp_def]

theorem of_replace? {as bs : List AnyType} {rs : List ValType} (hbs : bs = ValType.lift rs)
    (h : (ofTypes ts).replace? s as bs = some k) :
    ∃ ps ts', as = ValType.lift ps ∧ ts = ps.reverse ++ ts' ∧ k = ofTypes (rs.reverse ++ ts') := by
  obtain ⟨k', htake, rfl⟩ := Option.map_eq_some_iff.1 h
  obtain ⟨ps, ts', rfl, rfl, rfl⟩ := of_take? htake
  exact ⟨ps, ts', rfl, rfl, by rw [hbs, give_lift]⟩

theorem of_endsWith {rs : List ValType} (h : (ofTypes ts).endsWith s (ValType.lift rs) = true) :
    ts = rs.reverse := by
  rw [endsWith] at h
  cases htake : (ofTypes ts).take? s (ValType.lift rs) with
  | none => simp [htake] at h
  | some k =>
    rw [htake] at h
    obtain ⟨ts', rfl, rfl⟩ := of_take?_lift htake
    obtain rfl : ts' = [] := by simpa [ofTypes] using h
    exact List.append_nil _

end Stack

/-! ### Operators -/

variable {ts : List ValType} {pending : List Nat} {k : State}

/-- What a checked body may name is what its code may name. -/
structure BodyScope.Describes (s : BodyScope) (sc : CodeScope) : Prop where
  /-- The parts of the module. -/
  scope : s.toScope.Describes sc.mod
  /-- The locals are of value types. -/
  locals : s.locals = ValType.lift sc.locals
  /-- And so are the results. -/
  results : s.results = ValType.lift sc.results

variable {s : BodyScope} {sc : CodeScope} {labels : List (List ValType)}

theorem of_lift_getElem? {i : Nat} {a : AnyType} (h : (ValType.lift ts)[i]? = some a) :
    ∃ t, a = .num t ∧ ts[i]? = some t := by
  rw [ValType.lift, List.getElem?_map, Option.map_eq_some_iff] at h
  obtain ⟨t, ht, rfl⟩ := h
  exact ⟨t, rfl, ht⟩

/-- An operator has the signature that it was checked with. -/
theorem of_signature? (h : s.Describes sc) {op : Plain} {as bs : List AnyType}
    (hop : signature? s op = some (as, bs)) :
    ∃ ps rs, as = ValType.lift ps ∧ bs = ValType.lift rs ∧ op.signature? sc = some (ps, rs) := by
  suffices hmap :
      (op.signature? sc).map (fun p => (ValType.lift p.1, ValType.lift p.2)) = some (as, bs) by
    simp only [Option.map_eq_some_iff, Prod.exists, Prod.mk.injEq] at hmap
    obtain ⟨ps, rs, hsig, rfl, rfl⟩ := hmap
    exact ⟨ps, rs, rfl, rfl, hsig⟩
  have hmemory (i : Nat) : s.hasMemory i = decide (i < sc.mod.memoryCount) := by
    rw [Scope.hasMemory, h.scope.memories]
  cases op with
  | call func =>
    simp only [signature?, h.scope.funcType?, Option.map_eq_some_iff] at hop
    obtain ⟨t, ht, hab⟩ := hop
    simp [Plain.signature?, ht, hab]
  | callIndirect type table =>
    simp only [signature?, h.scope.types, Option.bind_eq_bind, Option.bind_eq_some_iff,
      Option.ite_none_right_eq_some] at hop
    obtain ⟨r, hr, t, ht, -, hab⟩ := hop
    have htable : table < sc.mod.tableCount := h.scope.tables ▸ (List.getElem?_eq_some_iff.1 hr).1
    rw [← hab]
    simp [Plain.signature?, htable, ht, ValType.lift]
  | localGet i | localSet i | localTee i =>
    simp only [signature?, h.locals, Option.map_eq_some_iff] at hop
    obtain ⟨a, ha, hab⟩ := hop
    obtain ⟨t, rfl, ht⟩ := of_lift_getElem? ha
    simp [Plain.signature?, ht, ← hab, ValType.lift]
  | globalGet i =>
    simp only [signature?, Option.map_eq_some_iff] at hop
    obtain ⟨g, hg, hab⟩ := hop
    obtain ⟨t, ht, hm⟩ := h.scope.globals hg
    simp [Plain.signature?, hm, ← hab, ht, ValType.lift]
  | globalSet i =>
    simp only [signature?, Option.bind_eq_bind, Option.bind_eq_some_iff,
      Option.ite_none_right_eq_some] at hop
    obtain ⟨g, hg, hmut, hab⟩ := hop
    obtain ⟨t, ht, hm⟩ := h.scope.globals hg
    simp [Plain.signature?, hm, hmut, ← hab, ht, ValType.lift]
  | load op arg | store op arg | memorySize mem | memoryGrow mem | memoryFill mem
  | memoryCopy dst src =>
    simp only [signature?, hmemory, Bool.and_eq_true, decide_eq_true_eq,
      Option.ite_none_right_eq_some] at hop
    simp [Plain.signature?, hop.1, ← hop.2, ValType.lift]
  | nop | const v | unary op | binary op => exact hop
  | _ => simp [signature?] at hop

theorem of_labels_getElem? {depth : Nat} {as : List AnyType}
    (h : (labels.map ValType.lift)[depth]? = some as) :
    ∃ ls, as = ValType.lift ls ∧ labels[depth]? = some ls := by
  rw [List.getElem?_map, Option.map_eq_some_iff] at h
  obtain ⟨ls, hls, rfl⟩ := h
  exact ⟨ls, rfl, hls⟩

/-- **A plain operator** that was checked leaves the operands that its type
says, or does not go on. -/
theorem of_plain? (h : s.Describes sc) {op : Plain}
    (hop : plain? s (labels.map ValType.lift) op ⟨.ofTypes ts, pending⟩ = some k) :
    (∃ ts', k.stack = .ofTypes ts' ∧ op.Typed sc labels ts (some ts')) ∨
    op.Typed sc labels ts none := by
  have sig {op : Plain} (hop : ((signature? s op).bind fun p => do
      some ⟨← (Stack.ofTypes ts).replace? s.space p.1 p.2, ← pending? pending op⟩) = some k) :
      ∃ ts', k.stack = .ofTypes ts' ∧ op.Typed sc labels ts (some ts') := by
    simp only [Option.bind_eq_bind, Option.bind_eq_some_iff, Option.some.injEq] at hop
    obtain ⟨⟨as, bs⟩, hsig, stack, hstack, -, -, rfl⟩ := hop
    obtain ⟨ps, rs, rfl, rfl, hsig'⟩ := of_signature? h hsig
    obtain ⟨ps', ts', hps, rfl, rfl⟩ := Stack.of_replace? rfl hstack
    obtain rfl := lift_injective hps
    exact ⟨_, rfl, .sig hsig'⟩
  cases op with
  | unreachable => exact Or.inr .unreachable
  | br depth =>
    simp only [plain?, Option.bind_eq_bind, Option.bind_eq_some_iff] at hop
    obtain ⟨as, has, _, htake, -⟩ := hop
    obtain ⟨ls, rfl, hls⟩ := of_labels_getElem? has
    obtain ⟨ts', rfl, -⟩ := Stack.of_take?_lift htake
    exact Or.inr (.br hls)
  | brIf depth =>
    simp only [plain?, Option.bind_eq_bind, Option.bind_eq_some_iff, Option.some.injEq] at hop
    obtain ⟨as, has, _, hpop, stack, hstack, rfl⟩ := hop
    obtain ⟨ls, rfl, hls⟩ := of_labels_getElem? has
    obtain ⟨t, ts', ht, rfl, rfl⟩ := Stack.of_popAs? hpop
    obtain rfl := AnyType.num.inj ht
    obtain ⟨ps, ts'', hps, rfl, rfl⟩ := Stack.of_replace? rfl hstack
    obtain rfl := lift_injective hps
    exact Or.inl ⟨_, rfl, .brIf hls⟩
  | ret =>
    simp only [plain?, Option.bind_eq_bind, Option.bind_eq_some_iff, h.results] at hop
    obtain ⟨_, htake, -⟩ := hop
    obtain ⟨ts', rfl, -⟩ := Stack.of_take?_lift htake
    exact Or.inr .ret
  | drop =>
    simp only [plain?, Option.bind_eq_bind, Option.bind_eq_some_iff, Option.some.injEq] at hop
    obtain ⟨⟨o, stack⟩, hpop, rfl⟩ := hop
    obtain ⟨t, ts', rfl, -, rfl⟩ := Stack.of_pop? hpop
    exact Or.inl ⟨_, rfl, .drop⟩
  | select =>
    simp only [plain?, Option.bind_eq_bind, Option.bind_eq_some_iff, Option.some.injEq] at hop
    obtain ⟨_, hc, ⟨a, _⟩, ha, ⟨b, _⟩, hb, o, ho, rfl⟩ := hop
    obtain ⟨t, ts', ht, rfl, rfl⟩ := Stack.of_popAs? hc
    obtain rfl := AnyType.num.inj ht
    obtain ⟨t, ts', rfl, rfl, rfl⟩ := Stack.of_pop? ha
    obtain ⟨u, ts', rfl, rfl, rfl⟩ := Stack.of_pop? hb
    simp only [selected?, AnyType.num.injEq, Option.ite_none_right_eq_some, Option.some.injEq] at ho
    obtain ⟨rfl, rfl⟩ := ho
    exact Or.inl ⟨_, rfl, .select⟩
  | _ => exact Or.inl (sig hop)

/-! ### Blocks -/

/-- The types of a block that can be lowered are value types. -/
theorem of_blockType? (h : s.Describes sc) {type : BlockType} {args : BlockArgs}
    {as bs : List AnyType} (htype : s.blockType? type = some (as, bs))
    (hlower : type.lower = .ok args) :
    ∃ ps rs, as = ValType.lift ps ∧ bs = ValType.lift rs ∧ args.type? sc.mod = some (ps, rs) := by
  cases type with
  | empty =>
    simp only [Scope.blockType?, Option.some.injEq, Prod.mk.injEq] at htype
    obtain ⟨rfl, rfl⟩ := htype
    obtain rfl : BlockArgs.empty = args := by simpa [BlockType.lower] using hlower
    exact ⟨[], [], rfl, rfl, rfl⟩
  | value a =>
    simp only [Scope.blockType?, Option.ite_none_right_eq_some, Option.some.injEq,
      Prod.mk.injEq] at htype
    obtain ⟨-, rfl, rfl⟩ := htype
    cases a with
    | num t =>
      obtain rfl : BlockArgs.value t = args := by
        simpa [BlockType.lower, AnyType.lower, AnyType.lower?, Except.map] using hlower
      exact ⟨[], [t], rfl, rfl, rfl⟩
    | v128 | ref => simp [BlockType.lower, AnyType.lower, AnyType.lower?, Except.map] at hlower
  | func i =>
    simp only [Scope.blockType?, h.scope.types, Option.map_eq_some_iff, Prod.mk.injEq] at htype
    obtain ⟨t, ht, rfl, rfl⟩ := htype
    obtain rfl : BlockArgs.func i = args := by simpa [BlockType.lower] using hlower
    exact ⟨t.params, t.results, rfl, rfl, by simp [BlockArgs.type?, ht]⟩

/-- A branch table that was checked carries to each of its labels what the label
says. -/
theorem of_brTable {targets : List Nat} {default : Nat} {next : Nested} {us : List ValType}
    (hop : simple? s (labels.map ValType.lift) (.brTable targets default)
      ⟨.ofTypes ts, pending⟩ = some k) :
    Nested.Typed sc labels (.brTable targets default next) ts us := by
  simp only [simple?, Option.bind_eq_bind, Option.bind_eq_some_iff, Option.ite_none_right_eq_some,
    Bool.and_eq_true, List.all_eq_true] at hop
  obtain ⟨_, hpop, types, -, ⟨hdefault, htargets⟩, -⟩ := hop
  obtain ⟨t, ts', ht, rfl, rfl⟩ := Stack.of_popAs? hpop
  obtain rfl := AnyType.num.inj ht
  refine .brTable fun d hd => ?_
  have hfits : ((labels.map ValType.lift)[d]?).any (fun as =>
      as.length == types.length && ((Stack.ofTypes ts').take? s.space as).isSome) = true := by
    rcases List.mem_cons.1 hd with rfl | hd
    · exact hdefault
    · exact htargets d hd
  cases has : (labels.map ValType.lift)[d]? with
  | none => simp [has] at hfits
  | some as =>
    obtain ⟨ls, rfl, hls⟩ := of_labels_getElem? has
    simp only [has, Option.any_some, Bool.and_eq_true, Option.isSome_iff_exists] at hfits
    obtain ⟨-, _, htake⟩ := hfits
    obtain ⟨rest, rfl, -⟩ := Stack.of_take?_lift htake
    exact ⟨ls, rest, hls, rfl⟩

theorem of_selectAs {a : AnyType} {labels : List (List AnyType)}
    (hop : simple? s labels (.selectAs a) ⟨.ofTypes ts, pending⟩ = some k) :
    ∃ t ts', ts = .i32 :: t :: t :: ts' ∧ k.stack = .ofTypes (t :: ts') := by
  simp only [simple?, Option.ite_none_right_eq_some, Option.bind_eq_bind, Option.bind_eq_some_iff,
    Option.some.injEq] at hop
  obtain ⟨-, _, hstack, rfl⟩ := hop
  obtain ⟨_, htake, rfl⟩ := Option.map_eq_some_iff.1 hstack
  obtain ⟨ps, ts', hps, rfl, rfl⟩ := Stack.of_take? htake
  match ps, hps with
  | [t, t', t''], hps =>
    simp only [ValType.lift, List.map_cons, List.map_nil, List.cons.injEq, and_true,
      AnyType.num.injEq] at hps
    obtain ⟨rfl, heq, rfl⟩ := hps
    obtain rfl := AnyType.num.inj heq
    exact ⟨t, ts', rfl, rfl⟩

theorem of_allBelow {s : TypeSpace} {ps rs : List ValType}
    (h : s.allBelow (ValType.lift ps) (ValType.lift rs) = true) : ps = rs := by
  induction ps generalizing rs with
  | nil =>
    cases rs with
    | nil => rfl
    | cons r rs => simp [ValType.lift, TypeSpace.allBelow] at h
  | cons p ps ih =>
    cases rs with
    | nil => simp [ValType.lift, TypeSpace.allBelow] at h
    | cons r rs =>
      simp only [ValType.lift, List.map_cons, TypeSpace.allBelow, TypeSpace.isBelow,
        Bool.and_eq_true, beq_iff_eq, AnyType.num.injEq] at h
      rw [h.1, ih h.2]

/-- The parameters of a conditional lie below its condition. -/
theorem of_take?_cond {space : TypeSpace} {ps ts : List ValType} {k : Stack}
    (h : (Stack.ofTypes ts).take? space (ValType.lift ps ++ [.num .i32]) = some k) :
    ∃ ts', ts = .i32 :: (ps.reverse ++ ts') ∧ k = .ofTypes ts' := by
  rw [← show ValType.lift (ps ++ [.i32]) = ValType.lift ps ++ [.num .i32] from lift_append _ _] at h
  obtain ⟨ts', rfl, rfl⟩ := Stack.of_take?_lift h
  exact ⟨ts', by simp, rfl⟩

theorem give_empty (ps : List ValType) : ({} : Stack).give (ValType.lift ps) =
    .ofTypes ps.reverse := by
  have hgive : (Stack.ofTypes []).give (ValType.lift ps) = .ofTypes (ps.reverse ++ []) :=
    Stack.give_lift ps
  rwa [List.append_nil] at hgive

/-- **A sequence that was checked is typed**, if it can be lowered. Unless
its end is never reached, its operands there are those of its type. -/
theorem typed_of_tree? (h : s.Describes sc) {t : Tree} {ts us : List ValType}
    {k k' : State} {code : Nested} (ht : tree? s (labels.map ValType.lift) t k = some k')
    (hk : k.stack = .ofTypes ts) (hlower : t.lower = .ok code)
    (hend : ∀ ts', k'.stack = .ofTypes ts' → ts' = us) : code.Typed sc labels ts us := by
  induction t generalizing labels ts us k k' code with
  | done =>
    obtain rfl := Option.some.inj ht
    obtain rfl : Nested.done = code := by simpa [Tree.lower] using hlower
    obtain rfl := hend ts hk
    exact .done
  | simple op next ih =>
    obtain ⟨stack, pending⟩ := k
    obtain rfl : stack = .ofTypes ts := hk
    simp only [tree?, Option.bind_eq_bind, Option.bind_eq_some_iff] at ht
    obtain ⟨k₁, hop, hnext⟩ := ht
    cases op with
    | plain op =>
      simp only [Tree.lower, bind_eq_ok] at hlower
      obtain ⟨code', hlower, hcode⟩ := hlower
      obtain rfl := pure_eq_ok.1 hcode
      rcases of_plain? h hop with ⟨ts', hk₁, hop⟩ | hop
      · exact .plain hop (ih hnext hk₁ hlower hend)
      · exact .last hop
    | brTable targets default =>
      simp only [Tree.lower, bind_eq_ok] at hlower
      obtain ⟨code', hlower, hcode⟩ := hlower
      obtain rfl := pure_eq_ok.1 hcode
      exact of_brTable hop
    | selectAs a =>
      simp only [Tree.lower, bind_eq_ok] at hlower
      obtain ⟨code', hlower, hcode⟩ := hlower
      obtain rfl := pure_eq_ok.1 hcode
      obtain ⟨t, ts', rfl, hk₁⟩ := of_selectAs hop
      exact .plain .select (ih hnext hk₁ hlower hend)
    | extended op => simp [Tree.lower] at hlower
  | block o body next ihbody ihnext =>
    obtain ⟨stack, pending⟩ := k
    obtain rfl : stack = .ofTypes ts := hk
    simp only [tree?, Option.bind_eq_bind, Option.bind_eq_some_iff, Option.ite_none_right_eq_some,
      Bool.and_eq_true] at ht
    obtain ⟨⟨as, bs⟩, htype, _, htake, inner, hbody, ⟨-, hends⟩, hnext⟩ := ht
    cases o with
    | block type | loop type =>
      simp only [Tree.lower, bind_eq_ok] at hlower
      obtain ⟨args, hargs, body', hbody', next', hnext', hcode⟩ := hlower
      obtain rfl := pure_eq_ok.1 hcode
      obtain ⟨ps, rs, rfl, rfl, htype'⟩ := of_blockType? h htype hargs
      obtain ⟨ts', rfl, rfl⟩ := Stack.of_take?_lift htake
      rw [Stack.give_lift] at hnext
      have houter := ihnext hnext rfl hnext' hend
      -- the two differ in what their label carries
      first
        | refine .block htype' (ihbody hbody (give_empty ps) hbody' fun ts' hts' => ?_) houter
        | refine .loop htype' (ihbody hbody (give_empty ps) hbody' fun ts' hts' => ?_) houter
      exact Stack.of_endsWith (hts' ▸ hends)
    | tryTable type catches => simp [Tree.lower] at hlower
  | cond type body next ihbody ihnext =>
    obtain ⟨stack, pending⟩ := k
    obtain rfl : stack = .ofTypes ts := hk
    simp only [tree?, Option.bind_eq_bind, Option.bind_eq_some_iff, Option.ite_none_right_eq_some,
      Bool.and_eq_true] at ht
    obtain ⟨⟨as, bs⟩, htype, _, htake, inner, hbody, ⟨hbelow, hends⟩, hnext⟩ := ht
    simp only [Tree.lower, bind_eq_ok] at hlower
    obtain ⟨args, hargs, body', hbody', next', hnext', hcode⟩ := hlower
    obtain rfl := pure_eq_ok.1 hcode
    obtain ⟨ps, rs, rfl, rfl, htype'⟩ := of_blockType? h htype hargs
    obtain rfl : ps = rs := of_allBelow hbelow
    obtain ⟨ts', rfl, rfl⟩ := of_take?_cond htake
    rw [Stack.give_lift] at hnext
    refine .cond htype' (ihbody hbody (give_empty ps) hbody' fun ts' hts' => ?_)
      (ihnext hnext rfl hnext' hend)
    exact Stack.of_endsWith (hts' ▸ hends)
  | condElse type body alt next ihbody ihalt ihnext =>
    obtain ⟨stack, pending⟩ := k
    obtain rfl : stack = .ofTypes ts := hk
    simp only [tree?, Option.bind_eq_bind, Option.bind_eq_some_iff, Option.ite_none_right_eq_some,
      Bool.and_eq_true] at ht
    obtain ⟨⟨as, bs⟩, htype, _, htake, yes, hyes, no, hno, ⟨hendsYes, hendsNo⟩, hnext⟩ := ht
    simp only [Tree.lower, bind_eq_ok] at hlower
    obtain ⟨args, hargs, body', hbody', alt', halt', next', hnext', hcode⟩ := hlower
    obtain rfl := pure_eq_ok.1 hcode
    obtain ⟨ps, rs, rfl, rfl, htype'⟩ := of_blockType? h htype hargs
    obtain ⟨ts', rfl, rfl⟩ := of_take?_cond htake
    rw [Stack.give_lift] at hnext
    refine .condElse htype' (ihbody hyes (give_empty ps) hbody' fun ts' hts' => ?_)
      (ihalt hno (give_empty ps) halt' fun ts' hts' => ?_) (ihnext hnext rfl hnext' hend)
    · exact Stack.of_endsWith (hts' ▸ hendsYes)
    · exact Stack.of_endsWith (hts' ▸ hendsNo)

end Typing

end WasmEngine
