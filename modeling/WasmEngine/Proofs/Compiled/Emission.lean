import WasmEngine.Compiled.Compile
import WasmEngine.Proofs.Compiled.Slots
import WasmEngine.Proofs.Except
import WasmEngine.Proofs.Structured.Sound

/-!
# Typed code can be compiled

The compiler follows how high the operand stack is, and complains where operands
are missing. In typed code they never are: the height at each instruction is the
number of operands under the construct at hand and of those that the types of
the construct say. So a typed sequence is compiled
(`WasmEngine.Body.compiles_of_typed`), and with it every function of a module
with typed bodies.

The labels in scope belong to the labels of the types, the function excepted,
which has none of its own (`WasmEngine.Body.Encloses`).
-/

namespace WasmEngine

namespace Heights

/-- The greatest height is not below the height here, nor below what it was. -/
structure From (h h' : Heights) : Prop where
  /-- The height here. -/
  current : h'.current ≤ h'.greatest
  /-- The greatest height only grows. -/
  greatest : h.greatest ≤ h'.greatest

variable {h h' h'' : Heights}

theorem From.trans (hh : From h h') (hh' : From h' h'') : From h h'' :=
  ⟨hh'.1, Nat.le_trans hh.2 hh'.2⟩

theorem from_set (h : Heights) (n : Nat) : From h (h.set n) :=
  ⟨Nat.le_max_right _ _, Nat.le_max_left _ _⟩

theorem from_push (h : Heights) (n : Nat) : From h (h.push n) := from_set h _

theorem from_pop (hh : h.current ≤ h.greatest) (n : Nat) : From h (h.pop n) :=
  ⟨Nat.le_trans (Nat.sub_le _ _) hh, Nat.le_refl _⟩

theorem from_refl (hh : h.current ≤ h.greatest) : From h h := ⟨hh, Nat.le_refl _⟩

@[simp]
theorem current_pop (h : Heights) (n : Nat) : (h.pop n).current = h.current - n := rfl

@[simp]
theorem current_push (h : Heights) (n : Nat) : (h.push n).current = h.current + n := rfl

@[simp]
theorem current_set (h : Heights) (n : Nat) : (h.set n).current = n := rfl

end Heights

/-- The number of operands that an instruction with a signature takes and
leaves, calls not counted. -/
def Plain.effect : Plain → Nat × Nat
  | .localGet _ | .globalGet _ | .memorySize _ | .const _ => (0, 1)
  | .localSet _ | .globalSet _ => (1, 0)
  | .localTee _ | .load _ _ | .memoryGrow _ | .unary _ => (1, 1)
  | .store _ _ => (2, 0)
  | .binary _ => (2, 1)
  | .memoryCopy _ _ | .memoryFill _ => (3, 0)
  | _ => (0, 0)

theorem Plain.length_signature? {sc : CodeScope} {op : Plain} {ps rs : List ValType}
    (hcall : op.isCall = false) (h : op.signature? sc = some (ps, rs)) : ps.length = op.effect.1 ∧
    rs.length = op.effect.2 := by
  cases op <;> grind [Plain.signature?, Plain.effect, Plain.isCall]

/-- Whether an operation has operations as its parts. -/
def Code.isConstruct : Code → Bool
  | .block _ | .loop _ | .cond _ _ _ => true
  | _ => false

namespace Body

variable {b : Body}

variable {types : List (List ValType)} {labels : List Label} {ts : List ValType} {h : Heights}
  {op : Plain} {c : Code}

/-- **The labels in scope are those of the types**, with so many operands under
the construct at hand. -/
inductive Encloses (b : Body) : List (List ValType) → List Label → Nat → Prop
  /-- Outside of all constructs, the only label is that of the function. -/
  | function {results} (h : results.length = b.results) : Encloses b [results] [] 0
  /-- In a construct, with more operands under it. -/
  | construct {types labels under ts base arity} (outer : Encloses b types labels under)
    (hbase : under ≤ base)
    (harity : ts.length = arity) : Encloses b (ts :: types) (⟨base, arity⟩ :: labels) base

theorem Encloses.base_le {under d : Nat} {l : Label} (h : b.Encloses types labels under)
    (hl : labels[d]? = some l) : l.base ≤ under := by
  induction h generalizing d with
  | function h => simp at hl
  | construct _ hbase _ ih =>
    cases d with
    | zero =>
      obtain rfl := Option.some.inj hl
      exact Nat.le_refl _
    | succ d => exact Nat.le_trans (ih hl) hbase

theorem Encloses.label {under d : Nat} (h : b.Encloses types labels under)
    (hd : types[d]? = some ts) :
    (∃ base, labels[d]? = some ⟨base, ts.length⟩) ∨ labels[d]? = none ∧ ts.length = b.results := by
  induction h generalizing d with
  | function h =>
    cases d with
    | zero =>
      obtain rfl := Option.some.inj hd
      exact Or.inr ⟨rfl, h⟩
    | succ d => simp at hd
  | @construct types labels under ts' base arity _ _ harity ih =>
    cases d with
    | zero =>
      obtain rfl : ts' = ts := Option.some.inj hd
      exact Or.inl ⟨base, by rw [harity]; rfl⟩
    | succ d => exact ih hd

/-! ### Branches -/

/-- The branch that leaves the function from a height. -/
def returnFrom (b : Body) (height : Nat) : Jump := ⟨b.slot (height - b.results), 0, b.results, .ret⟩

/-- The branch to a label from a height. -/
def jumpFrom (b : Body) (labels : List Label) (height depth : Nat) : Jump :=
  match labels[depth]? with
  | none => b.returnFrom height
  | some l => ⟨b.slot (height - l.arity), b.slot l.base, l.arity, .branch depth⟩

theorem returnJump_eq (hh : b.results ≤ h.current) :
    b.returnJump h = .ok (b.returnFrom h.current) := by
  rw [returnJump, if_neg (by omega)]
  rfl

theorem jump_eq {under depth : Nat} (henc : b.Encloses types labels under)
    (hd : types[depth]? = some ts) (hh : ts.length ≤ h.current) :
    b.jump labels h depth = .ok (b.jumpFrom labels h.current depth) := by
  rcases henc.label hd with ⟨base, hlabel⟩ | ⟨hlabel, hresults⟩
  · simp only [jump, jumpFrom, hlabel]
    rw [if_neg (by omega)]
  · simp only [jump, jumpFrom, hlabel]
    exact returnJump_eq (by omega)

theorem require_eq {index n : Nat} (hh : n ≤ h.current) : require index n h = .ok () := by
  rw [require, if_neg (by omega)]

/-! ### Plain instructions -/

/-- What a plain instruction becomes at a height, where its operands are there. -/
def emit (b : Body) (labels : List Label) (height : Nat) : Plain → Emit
  | .nop | .drop => .nothing
  | .unreachable => .last .unreachable
  | .br depth => .last (.jump (b.jumpFrom labels height depth))
  | .brIf depth => .op (.jumpIf (b.slot (height - 1)) (b.jumpFrom labels (height - 1) depth))
  | .ret => .last (.jump (b.returnFrom height))
  | .call func =>
    match b.mod.funcType? func with
    | some t => .op (.call func (b.slot (height - t.params.length)))
    | none => .nothing
  | .callIndirect type table =>
    match b.mod.types[type]? with
    | some t =>
      .op (.callIndirect t table (b.slot (height - 1)) (b.slot (height - 1 - t.params.length)))
    | none => .nothing
  | .select =>
    .op (.select (b.slot (height - 2 + 1)) (b.slot (height - 2)) (b.slot (height - 2 - 1)))
  | .localGet i => .op (.copy i (b.slot height))
  | .localSet i | .localTee i => .op (.copy (b.slot (height - 1)) i)
  | .globalGet i => .op (.globalGet i (b.slot height))
  | .globalSet i => .op (.globalSet i (b.slot (height - 1)))
  | .load op arg => .op (.load op arg (b.slot (height - 1)))
  | .store op arg => .op (.store op arg (b.slot (height - 2)))
  | .memorySize _ => .op (.memorySize (b.slot height))
  | .memoryGrow _ => .op (.memoryGrow (b.slot (height - 1)))
  | .memoryCopy _ _ => .op (.memoryCopy (b.slot (height - 3)))
  | .memoryFill _ => .op (.memoryFill (b.slot (height - 3)))
  | .const v => .op (.const v.toRaw (b.slot height))
  | .unary op => .op (.unary op (b.slot (height - 1)))
  | .binary op => .op (.binary op (b.slot (height - 1 - 1)) (b.slot (height - 1)))

/-- What an instruction becomes that does not go on. -/
theorem of_emit_last {height : Nat} (h : b.emit labels height op = .last c) : c = .unreachable ∨
    ∃ j, c = .jump j := by
  cases op with
  | unreachable => exact .inl (Emit.last.inj h).symm
  | br | ret => exact .inr ⟨_, (Emit.last.inj h).symm⟩
  | call | callIndirect =>
    simp only [emit] at h
    split at h <;> cases h
  | _ => cases h

/-- What a plain instruction becomes has no parts. -/
theorem isConstruct_of_emit {height : Nat}
    (h : b.emit labels height op = .op c ∨ b.emit labels height op = .last c) :
    c.isConstruct = false := by
  cases op with
  | call | callIndirect =>
    simp only [emit] at h
    split at h <;> grind [Code.isConstruct]
  | _ => grind [emit, Code.isConstruct]

/-- A height that is behind another after an instruction with a type. -/
structure Behind (under : Nat) (after : Option (List ValType)) (e : Emit) (h h' : Heights) :
    Prop extends h.From h' where
  /-- Where it goes on, there are as many operands as the type says. -/
  next : ∀ ts, after = some ts → h'.current = under + ts.length ∧ ∀ c, e ≠ .last c
  /-- Where it does not, it is an operation that is the last. -/
  last : after = none → ∃ c, e = .last c

theorem behind_next {under : Nat} {e : Emit} {h h' : Heights} (hfrom : h.From h')
    (hcurrent : h'.current = under + ts.length) (he : ∀ c, e ≠ .last c) :
    Behind under (some ts) e h h' :=
  ⟨hfrom, fun _ hts => (Option.some.inj hts) ▸ ⟨hcurrent, he⟩, fun hnone => nomatch hnone⟩

theorem behind_last {under : Nat} (hh : h.current ≤ h.greatest) : Behind under none (.last c) h h :=
  ⟨Heights.from_refl hh, fun _ hts => (nomatch hts), fun _ => ⟨c, rfl⟩⟩

theorem compilePlain_typed {sc : CodeScope} {under : Nat} (index : Nat)
    {after : Option (List ValType)} (hmod : sc.mod = b.mod) (henc : b.Encloses types labels under)
    (hresults : sc.results.length = b.results) (hop : op.Typed sc types ts after)
    (hcurrent : h.current = under + ts.length) (hh : h.current ≤ h.greatest) :
    ∃ h', b.compilePlain labels index h op = .ok (b.emit labels h.current op, h') ∧
      Behind under after (b.emit labels h.current op) h h' := by
  have hreq : ∀ n ≤ h.current, require index n h = .ok () := fun n hn => require_eq hn
  cases hop with
  | @sig _ ps rs ts hop =>
    rw [List.length_append, List.length_reverse] at hcurrent
    cases op with
    | call func =>
      simp only [Plain.signature?, hmod, Option.map_eq_some_iff, Prod.mk.injEq] at hop
      obtain ⟨t, ht, rfl, rfl⟩ := hop
      refine ⟨(h.pop t.params.length).push t.results.length, ?_, ?_⟩
      · simp only [compilePlain, emit, ht, hreq t.params.length (by omega), ok_bind]
        rfl
      · refine behind_next ((Heights.from_pop hh _).trans (Heights.from_push _ _)) ?_
          (by simp [emit, ht])
        simp
        omega
    | callIndirect type table =>
      simp only [Plain.signature?, hmod, Option.ite_none_right_eq_some, Option.map_eq_some_iff,
        Prod.mk.injEq] at hop
      obtain ⟨-, t, ht, rfl, rfl⟩ := hop
      rw [List.length_append, List.length_singleton] at hcurrent
      have hparams : require index t.params.length (h.pop 1) = .ok () := require_eq (by simp; omega)
      refine ⟨((h.pop 1).pop t.params.length).push t.results.length, ?_, ?_⟩
      · simp only [compilePlain, emit, ht, hreq 1 (by omega), hparams, ok_bind]
        rfl
      · have hpop := Heights.from_pop hh 1
        refine behind_next ((hpop.trans (Heights.from_pop hpop.current _)).trans
          (Heights.from_push _ _)) ?_ (by simp [emit, ht])
        simp
        omega
    | nop =>
      obtain ⟨hps, hrs⟩ := Plain.length_signature? rfl hop
      exact ⟨h, rfl, behind_next (Heights.from_refl hh)
        (by simp_all [Plain.effect]) (by simp [emit])⟩
    | localGet | globalGet | memorySize | const =>
      obtain ⟨hps, hrs⟩ := Plain.length_signature? rfl hop
      exact ⟨h.push 1, rfl, behind_next (Heights.from_push h 1)
        (by simp_all [Plain.effect]; omega) (by simp [emit])⟩
    | localSet | localTee | globalSet | load | store | memoryGrow | memoryCopy | memoryFill | unary
    | binary =>
      -- All of these leave at most as many operands as they take.
      obtain ⟨hps, hrs⟩ := Plain.length_signature? rfl hop
      have htake := hreq ps.length (by omega)
      refine ⟨h.pop (ps.length - rs.length), ?_, behind_next (Heights.from_pop hh _)
        ?_ (by simp [emit])⟩
      · simp only [hps, hrs, Plain.effect] at htake ⊢
        simp only [compilePlain, htake, ok_bind]
        rfl
      · simp only [Plain.effect] at hps hrs
        simp
        omega
    | _ => simp [Plain.signature?] at hop
  | drop =>
    rw [List.length_cons] at hcurrent
    refine ⟨h.pop 1, ?_, behind_next (Heights.from_pop hh 1) (by simp; omega) (by simp [emit])⟩
    simp only [compilePlain, hreq 1 (by omega), ok_bind]
    rfl
  | select =>
    simp only [List.length_cons] at hcurrent
    refine ⟨h.pop 2, ?_, behind_next (Heights.from_pop hh 2) (by simp; omega) (by simp [emit])⟩
    simp only [compilePlain, hreq 3 (by omega), ok_bind]
    rfl
  | @brIf depth ls ts hd =>
    simp only [List.length_cons, List.length_append, List.length_reverse] at hcurrent
    have hjump := jump_eq henc hd (h := h.pop 1) (by simp; omega)
    refine ⟨h.pop 1, ?_, behind_next (Heights.from_pop hh 1) (by simp; omega) (by simp [emit])⟩
    simp only [compilePlain, hreq 1 (by omega), hjump, ok_bind]
    rfl
  | @br depth ls ts hd =>
    rw [List.length_append, List.length_reverse] at hcurrent
    have hjump := jump_eq henc hd (h := h) (by omega)
    refine ⟨h, ?_, behind_last hh⟩
    simp only [compilePlain, hjump, ok_bind]
    rfl
  | ret =>
    rw [List.length_append, List.length_reverse] at hcurrent
    have hjump := returnJump_eq (b := b) (h := h) (by omega)
    refine ⟨h, ?_, behind_last hh⟩
    simp only [compilePlain, hjump, ok_bind]
    rfl
  | unreachable => exact ⟨h, rfl, behind_last hh⟩

/-! ### Sequences -/

/-- **What typed code becomes**, with operands below no height above `top`. It
says for each construct what the compiler emits for it, and the types that it
relies on. -/
inductive Emits (b : Body) (sc : CodeScope) (top : Nat) :
    List (List ValType) → List Label → Nat → Nested → List ValType → List ValType → List Code → Prop
  /-- At the end there is nothing to emit. -/
  | done {types labels under ts} : Emits b sc top types labels under .done ts ts []
  /-- A plain instruction that goes on becomes an operation. -/
  | op {types labels under op next ts ts' us c ops} (h : op.Typed sc types ts (some ts'))
    (hc : b.emit labels (under + ts.length) op = .op c) (htop : under + ts'.length ≤ top)
    (rest : Emits b sc top types labels under next ts' us ops) :
    Emits b sc top types labels under (.plain op next) ts us (c :: ops)
  /-- A plain instruction that needs no operation. -/
  | nothing {types labels under op next ts ts' us ops} (h : op.Typed sc types ts (some ts'))
    (hc : b.emit labels (under + ts.length) op = .nothing)
    (rest : Emits b sc top types labels under next ts' us ops) :
    Emits b sc top types labels under (.plain op next) ts us ops
  /-- Nothing is emitted for what stands behind an instruction that does not go
  on. -/
  | last {types labels under op next ts us c} (h : op.Typed sc types ts none)
    (hc : b.emit labels (under + ts.length) op = .last c) :
    Emits b sc top types labels under (.plain op next) ts us [c]
  /-- A branch table. -/
  | brTable {types labels under targets default next ts us}
    (h : ∀ d ∈ default :: targets, ∃ ls rest, types[d]? = some ls ∧ ts = ls.reverse ++ rest) :
    Emits b sc top types labels under (.brTable targets default next) (.i32 :: ts) us
      [.jumpTable (b.slot (under + ts.length)) (targets.map (b.jumpFrom labels (under + ts.length)))
        (b.jumpFrom labels (under + ts.length) default)]
  /-- A block, with the operands below its parameters under it. -/
  | block {types labels under args body next ps rs ts us ops rest}
    (h : args.type? sc.mod = some (ps, rs)) (htop : under + ts.length + rs.length ≤ top)
    (inner : Emits b sc top (rs :: types) (⟨under + ts.length, rs.length⟩ :: labels)
      (under + ts.length) body ps.reverse rs.reverse ops)
    (behind : Emits b sc top types labels under next (rs.reverse ++ ts) us rest) :
    Emits b sc top types labels under (.block args body next) (ps.reverse ++ ts) us
      (.block ops :: rest)
  /-- A loop. -/
  | loop {types labels under args body next ps rs ts us ops rest}
    (h : args.type? sc.mod = some (ps, rs)) (htop : under + ts.length + rs.length ≤ top)
    (inner : Emits b sc top (ps :: types) (⟨under + ts.length, ps.length⟩ :: labels)
      (under + ts.length) body ps.reverse rs.reverse ops)
    (behind : Emits b sc top types labels under next (rs.reverse ++ ts) us rest) :
    Emits b sc top types labels under (.loop args body next) (ps.reverse ++ ts) us
      (.loop ops :: rest)
  /-- A conditional without an alternative, for which nothing is emitted. -/
  | cond {types labels under args body next ps ts us ops rest}
    (h : args.type? sc.mod = some (ps, ps)) (htop : under + ts.length + ps.length ≤ top)
    (inner : Emits b sc top (ps :: types) (⟨under + ts.length, ps.length⟩ :: labels)
      (under + ts.length) body ps.reverse ps.reverse ops)
    (behind : Emits b sc top types labels under next (ps.reverse ++ ts) us rest) :
    Emits b sc top types labels under (.cond args body next) (.i32 :: (ps.reverse ++ ts)) us
      (.cond (b.slot (under + (ps.length + ts.length))) ops [] :: rest)
  /-- A conditional with an alternative. -/
  | condElse {types labels under args body alt next ps rs ts us yes no rest}
    (h : args.type? sc.mod = some (ps, rs)) (htop : under + ts.length + rs.length ≤ top)
    (inner : Emits b sc top (rs :: types) (⟨under + ts.length, rs.length⟩ :: labels)
      (under + ts.length) body ps.reverse rs.reverse yes)
    (other : Emits b sc top (rs :: types) (⟨under + ts.length, rs.length⟩ :: labels)
      (under + ts.length) alt ps.reverse rs.reverse no)
    (behind : Emits b sc top types labels under next (rs.reverse ++ ts) us rest) :
    Emits b sc top types labels under (.condElse args body alt next) (.i32 :: (ps.reverse ++ ts)) us
      (.cond (b.slot (under + (ps.length + ts.length))) yes no :: rest)

theorem arity_eq {args : BlockArgs} {ps rs : List ValType} (h : args.type? b.mod = some (ps, rs)) :
    b.arity args = .ok (ps.length, rs.length) := by
  cases args with
  | empty | value =>
    simp only [BlockArgs.type?, Option.some.injEq, Prod.mk.injEq] at h
    obtain ⟨rfl, rfl⟩ := h
    rfl
  | func i =>
    simp only [BlockArgs.type?, Option.map_eq_some_iff, Prod.mk.injEq] at h
    obtain ⟨t, ht, rfl, rfl⟩ := h
    simp only [arity, ht]

theorem label_eq {args : BlockArgs} {ps rs : List ValType} {d : Nat} (isLoop : Bool)
    (htype : args.type? b.mod = some (ps, rs)) (hh : h.current = d + ps.length) :
    b.label args isLoop h = .ok (⟨d, if isLoop then ps.length else rs.length⟩, rs.length) := by
  simp only [label, arity_eq htype, ok_bind]
  rw [if_neg (by omega), show h.current - ps.length = d by omega]
  rfl

theorem compileSeq_end (labels : List Label) (pos : Nat) (h : Heights) :
    b.compileSeq labels pos pos h = .ok ([], h) := by
  rw [compileSeq, if_neg (Nat.lt_irrefl pos)]

section Steps

variable {labels : List Label} {pos stop len : Nat} {h h₁ h₂ h₃ : Heights} {args : BlockArgs}
  {is : List Instr} {l : Label} {results : Nat} {ops ops' rest : List Code}

theorem getElem_of_row {i : Instr} (hrow : Row b.code pos (i :: is)) :
    ∃ hpos : pos < b.code.size, b.code[pos] = i :=
  Array.getElem?_eq_some_iff.1 (row_cons.1 hrow).1

/-- The code of a construct and the code behind it. -/
theorem row_construct {i i' : Instr} {is is' : List Instr}
    (hrow : Row b.code pos (i :: (is ++ i' :: is'))) :
    Row b.code (pos + 1) is ∧ Row b.code (pos + (is.length + 1) + 1) is' := by
  obtain ⟨his, hend⟩ := row_append.1 (row_cons.1 hrow).2
  refine ⟨his, ?_⟩
  have hnext := (row_cons.1 hend).2
  rwa [Nat.add_right_comm pos 1] at hnext

theorem compileSeq_op {op : Plain} {c : Code} (hrow : Row b.code pos (.plain op :: is))
    (hstop : pos < stop) (hop : b.compilePlain labels pos h op = .ok (.op c, h₁))
    (hrest : b.compileSeq labels (pos + 1) stop h₁ = .ok (rest, h₂)) :
    b.compileSeq labels pos stop h = .ok (c :: rest, h₂) := by
  obtain ⟨hpos, hi⟩ := getElem_of_row hrow
  rw [compileSeq, if_pos hstop, dif_pos hpos]
  simp only [hi, compileInstr, hop, hrest, ok_bind]
  rfl

theorem compileSeq_nothing {op : Plain} (hrow : Row b.code pos (.plain op :: is))
    (hstop : pos < stop) (hop : b.compilePlain labels pos h op = .ok (.nothing, h₁)) :
    b.compileSeq labels pos stop h = b.compileSeq labels (pos + 1) stop h₁ := by
  obtain ⟨hpos, hi⟩ := getElem_of_row hrow
  rw [compileSeq, if_pos hstop, dif_pos hpos]
  simp only [hi, compileInstr, hop, ok_bind]

theorem compileSeq_last {i : Instr} {c : Code} (hrow : Row b.code pos (i :: is))
    (hstop : pos < stop) (hop : b.compileInstr labels pos h i = .ok (.last c, h₁)) :
    b.compileSeq labels pos stop h = .ok ([c], h₁) := by
  obtain ⟨hpos, hi⟩ := getElem_of_row hrow
  rw [compileSeq, if_pos hstop, dif_pos hpos]
  cases i with
  | plain | brTable =>
    simp only [hi, hop, ok_bind]
    rfl
  | _ => simp [compileInstr, fault] at hop

theorem compileSeq_block (hrow : Row b.code pos (.block args len :: is)) (hstop : pos < stop)
    (hl : b.label args false h = .ok (l, results))
    (hbody : b.compileSeq (l :: labels) (pos + 1) (pos + len) h = .ok (ops, h₁))
    (hrest : b.compileSeq labels (pos + len + 1) stop (h₁.set (l.base + results)) =
      .ok (rest, h₂)) : b.compileSeq labels pos stop h = .ok (.block ops :: rest, h₂) := by
  obtain ⟨hpos, hi⟩ := getElem_of_row hrow
  rw [compileSeq, if_pos hstop, dif_pos hpos]
  simp only [hi, hl, hbody, hrest, ok_bind]
  rfl

theorem compileSeq_loop (hrow : Row b.code pos (.loop args len :: is)) (hstop : pos < stop)
    (hl : b.label args true h = .ok (l, results))
    (hbody : b.compileSeq (l :: labels) (pos + 1) (pos + len) h = .ok (ops, h₁))
    (hrest : b.compileSeq labels (pos + len + 1) stop (h₁.set (l.base + results)) =
      .ok (rest, h₂)) : b.compileSeq labels pos stop h = .ok (.loop ops :: rest, h₂) := by
  obtain ⟨hpos, hi⟩ := getElem_of_row hrow
  rw [compileSeq, if_pos hstop, dif_pos hpos]
  simp only [hi, hl, hbody, hrest, ok_bind]
  rfl

theorem compileSeq_cond (hrow : Row b.code pos (.cond args 0 len :: is)) (hstop : pos < stop)
    (hh : 1 ≤ h.current) (hl : b.label args false (h.pop 1) = .ok (l, results))
    (hbody : b.compileSeq (l :: labels) (pos + 1) (pos + len) (h.pop 1) = .ok (ops, h₁))
    (hrest : b.compileSeq labels (pos + len + 1) stop (h₁.set (l.base + results)) =
      .ok (rest, h₂)) :
    b.compileSeq labels pos stop h = .ok (.cond (b.slot (h.pop 1).current) ops [] :: rest, h₂) := by
  obtain ⟨hpos, hi⟩ := getElem_of_row hrow
  rw [compileSeq, if_pos hstop, dif_pos hpos]
  simp only [hi, require_eq hh, hl, hbody, hrest, ok_bind, if_true]
  rfl

theorem compileSeq_condElse {alt : Nat} (hrow : Row b.code pos (.cond args alt len :: is))
    (hstop : pos < stop) (hh : 1 ≤ h.current) (halt : alt ≠ 0)
    (hl : b.label args false (h.pop 1) = .ok (l, results))
    (hbody : b.compileSeq (l :: labels) (pos + 1) (pos + alt) (h.pop 1) = .ok (ops, h₁))
    (hother : b.compileSeq (l :: labels) (pos + alt + 1) (pos + len)
      { h₁ with current := (h.pop 1).current } = .ok (ops', h₂))
    (hrest : b.compileSeq labels (pos + len + 1) stop (h₂.set (l.base + results)) =
      .ok (rest, h₃)) :
    b.compileSeq labels pos stop h =
    .ok (.cond (b.slot (h.pop 1).current) ops ops' :: rest, h₃) := by
  obtain ⟨hpos, hi⟩ := getElem_of_row hrow
  rw [compileSeq, if_pos hstop, dif_pos hpos]
  simp only [hi, require_eq hh, hl, hbody, hother, hrest, ok_bind, halt, if_false]
  rfl

end Steps

/-- **Code is compiled wherever it stands**, from the heights that its type asks
for. -/
def Compiles (b : Body) (sc : CodeScope) (types : List (List ValType)) (labels : List Label)
    (under : Nat) (code : Nested) (ts us : List ValType) : Prop :=
  ∀ {pos h}, Row b.code pos code.flatten → h.current = under + ts.length → h.current ≤ h.greatest →
    ∃ ops h', b.compileSeq labels pos (pos + code.size) h = .ok (ops, h') ∧
    h.greatest ≤ h'.greatest ∧
      ∀ top, h'.greatest ≤ top → Emits b sc top types labels under code ts us ops

variable {sc : CodeScope} {types : List (List ValType)} {labels : List Label} {under : Nat}

/-- The body of a construct, and what stands behind the construct. -/
theorem compiles_construct {l : Label} {ls ps rs ts us : List ValType} {body next : Nested}
    {i i' : Instr} {pos stop : Nat} {h : Heights}
    (hbody : Compiles b sc (ls :: types) (l :: labels) (under + ts.length) body
      ps.reverse rs.reverse) (hnext : Compiles b sc types labels under next (rs.reverse ++ ts) us)
    (hrow : Row b.code pos (i :: (body.flatten ++ i' :: next.flatten)))
    (hstop : stop = pos + (body.size + next.size + 2))
    (hcurrent : h.current = under + ts.length + ps.length) (hh : h.current ≤ h.greatest) :
    ∃ ops h₁ rest h₂, b.compileSeq (l :: labels) (pos + 1) (pos + (body.flatten.length + 1))
      h = .ok (ops, h₁) ∧
      b.compileSeq labels (pos + (body.flatten.length + 1) + 1) stop
        (h₁.set (under + ts.length + rs.length)) = .ok (rest, h₂) ∧ h.greatest ≤ h₂.greatest ∧
      ∀ top, h₂.greatest ≤ top → under + ts.length + rs.length ≤ top ∧
        Emits b sc top (ls :: types) (l :: labels) (under + ts.length) body
          ps.reverse rs.reverse ops ∧
        Emits b sc top types labels under next (rs.reverse ++ ts) us rest := by
  obtain ⟨hrow₁, hrow₂⟩ := row_construct hrow
  obtain ⟨ops, h₁, hops, hle₁, hemits₁⟩ :=
    hbody hrow₁ (show h.current = _ by simpa using hcurrent) hh
  have hset := Heights.from_set h₁ (under + ts.length + rs.length)
  obtain ⟨rest, h₂, hrest, hle₂, hemits₂⟩ := hnext hrow₂
    (show (h₁.set (under + ts.length + rs.length)).current = _ by simp; omega) hset.current
  have hgreatest := hset.greatest
  refine ⟨ops, h₁, rest, h₂, ?_, ?_, by omega,
    fun top htop => ⟨?_, hemits₁ top (by omega), hemits₂ top htop⟩⟩
  · rwa [Nested.length_flatten, ← Nat.add_assoc, Nat.add_right_comm]
  · rw [hstop, ← hrest, Nested.length_flatten]
    congr 1
    omega
  · exact Nat.le_trans hset.current (by omega)

/-- A branch table with its labels behind it. -/
theorem compileInstr_brTable {targets : List Nat} {default pos : Nat} {ts : List ValType}
    {h : Heights} {is : List Instr} (henc : b.Encloses types labels under)
    (htable : ∀ d ∈ default :: targets, ∃ ls rest, types[d]? = some ls ∧ ts = ls.reverse ++ rest)
    (hrow : Row b.code pos
      (.brTable default targets.length :: (targets.map Instr.brLabel ++ is)))
    (hcurrent : h.current = under + (ts.length + 1)) :
    b.compileInstr labels pos h (.brTable default targets.length) =
      .ok (.last (.jumpTable (b.slot (under + ts.length))
        (targets.map (b.jumpFrom labels (under + ts.length)))
        (b.jumpFrom labels (under + ts.length) default)), h.pop 1) := by
  have hjump : ∀ d ∈ default :: targets,
      b.jump labels (h.pop 1) d = .ok (b.jumpFrom labels (under + ts.length) d) := by
    intro d hd
    obtain ⟨ls, rest, hls, rfl⟩ := htable d hd
    have hlen : under + (ls.reverse ++ rest).length = (h.pop 1).current := by simp [hcurrent]
    rw [hlen]
    exact jump_eq henc hls (by rw [← hlen]; simp; omega)
  have htargets := (row_append.1 (row_cons.1 hrow).2).1
  have hsize := htargets.add_length_le (getElem_of_row hrow).1
  have hextract := htargets.extract hsize
  rw [List.length_map] at hextract hsize
  have hmap : (targets.map Instr.brLabel).mapM (b.tableJump labels (h.pop 1)) =
      .ok (targets.map (b.jumpFrom labels (under + ts.length))) := by
    refine mapM_eq_ok.2 (List.forall₂_map_left_iff.2 (List.forall₂_map_right_iff.2
      (List.forall₂_same.2 fun d hd => ?_)))
    exact hjump d (List.mem_cons_of_mem _ hd)
  simp only [compileInstr, require_eq (show 1 ≤ h.current by omega), ok_bind]
  rw [if_neg (by omega), hextract, hmap]
  simp only [ok_bind, hjump default List.mem_cons_self, Heights.current_pop,
    show h.current - 1 = under + ts.length by omega]
  rfl

/-- **Typed code is compiled.** -/
theorem compiles_of_typed {code : Nested} {ts us : List ValType} (hmod : sc.mod = b.mod)
    (hresults : sc.results.length = b.results) (hcode : code.Typed sc types ts us)
    (henc : b.Encloses types labels under) : Compiles b sc types labels under code ts us := by
  induction hcode generalizing labels under with
  | done =>
    intro pos h _ _ _
    exact ⟨[], h, compileSeq_end labels pos h, Nat.le_refl _, fun top _ => .done⟩
  | @plain types op next ts ts' us hop _ ih =>
    intro pos h hrow hcurrent hh
    obtain ⟨h₁, hplain, hbehind⟩ := compilePlain_typed pos hmod henc hresults hop hcurrent hh
    obtain ⟨hnext, hlast⟩ := hbehind.next ts' rfl
    obtain ⟨ops, h₂, hops, hle, hemits⟩ := ih henc (row_cons.1 hrow).2 hnext hbehind.current
    have hstop : pos + (Nested.plain op next).size =
      pos + 1 + next.size := by rw [Nested.size]; omega
    have hgreatest := Nat.le_trans hbehind.greatest hle
    rw [hcurrent] at hlast hplain
    rw [hstop]
    cases he : b.emit labels (under + ts.length) op with
    | op c =>
      refine ⟨c :: ops, h₂, compileSeq_op hrow (by omega) (he ▸ hplain) hops, hgreatest,
        fun top htop => ?_⟩
      exact .op hop he (by have := hbehind.current; omega) (hemits top htop)
    | nothing =>
      exact ⟨ops, h₂, (compileSeq_nothing hrow (by omega) (he ▸ hplain)).trans hops,
          hgreatest, fun top htop =>
        .nothing hop he (hemits top htop)⟩
    | last c => exact absurd he (hlast c)
  | @last types op next ts us hop =>
    intro pos h hrow hcurrent hh
    obtain ⟨h₁, hplain, hbehind⟩ := compilePlain_typed pos hmod henc hresults hop hcurrent hh
    obtain ⟨c, hc⟩ := hbehind.last rfl
    refine ⟨[c], h₁, compileSeq_last hrow ?_ (hc ▸ hplain), hbehind.greatest,
      fun top _ => .last hop (hcurrent ▸ hc)⟩
    rw [Nested.size]
    omega
  | @brTable types targets default next ts us htable =>
    intro pos h hrow hcurrent hh
    rw [List.length_cons] at hcurrent
    exact ⟨_, h.pop 1, compileSeq_last hrow (by rw [Nested.size]; omega)
      (compileInstr_brTable henc htable hrow hcurrent), (Heights.from_pop hh 1).greatest,
      fun top _ => .brTable htable⟩
  | @block types args body next ps rs ts us htype _ _ ihbody ihnext
  | @loop types args body next ps rs ts us htype _ _ ihbody ihnext =>
    intro pos h hrow hcurrent hh
    rw [List.length_append, List.length_reverse] at hcurrent
    have hl (isLoop : Bool) := label_eq (h := h) (d := under + ts.length) isLoop
      (hmod ▸ htype) (by omega)
    obtain ⟨ops, h₁, rest, h₂, hops, hrest, hle, hemits⟩ := compiles_construct
      (ihbody (henc.construct (Nat.le_add_right under ts.length) rfl)) (ihnext henc)
        hrow rfl (by omega) hh
    -- the two differ in what their label carries
    first
      | refine ⟨_, h₂, compileSeq_block hrow (by rw [Nested.size]; omega) (hl _) hops hrest, hle,
        fun top htop => ?_⟩
      | refine ⟨_, h₂, compileSeq_loop hrow (by rw [Nested.size]; omega) (hl _) hops hrest, hle,
        fun top htop => ?_⟩
    obtain ⟨htop', hemits₁, hemits₂⟩ := hemits top htop
    first
      | exact .block htype htop' hemits₁ hemits₂
      | exact .loop htype htop' hemits₁ hemits₂
  | @cond types args body next ps ts us htype _ _ ihbody ihnext =>
    intro pos h hrow hcurrent hh
    rw [List.length_cons, List.length_append, List.length_reverse] at hcurrent
    have hpop : (h.pop 1).current = under + (ps.length + ts.length) := by simp [hcurrent]
    have hfrom := Heights.from_pop hh 1
    have hl := label_eq (h := h.pop 1) (d := under + ts.length) false (hmod ▸ htype) (by omega)
    obtain ⟨ops, h₁, rest, h₂, hops, hrest, hle, hemits⟩ := compiles_construct
      (ihbody (henc.construct (Nat.le_add_right under ts.length) rfl)) (ihnext henc) hrow rfl
        (by omega) hfrom.current
    refine ⟨_, h₂, compileSeq_cond hrow (by rw [Nested.size]; omega) (by omega) hl hops hrest, hle,
      fun top htop => ?_⟩
    obtain ⟨htop', hemits₁, hemits₂⟩ := hemits top htop
    rw [hpop]
    exact .cond htype htop' hemits₁ hemits₂
  | @condElse types args body alt next ps rs ts us htype _ _ _ ihbody ihalt ihnext =>
    intro pos h hrow hcurrent hh
    rw [List.length_cons, List.length_append, List.length_reverse] at hcurrent
    have hpop : (h.pop 1).current = under + (ps.length + ts.length) := by simp [hcurrent]
    have hfrom := Heights.from_pop hh 1
    have hl := label_eq (h := h.pop 1) (d := under + ts.length) false (hmod ▸ htype) (by omega)
    have hinner : b.Encloses (rs :: types) (⟨under + ts.length, rs.length⟩ :: labels)
        (under + ts.length) :=
      henc.construct (Nat.le_add_right under ts.length) rfl
    -- The alternative is the body of a construct that starts where the first arm ends.
    obtain ⟨hrow₁, hrow₂⟩ := row_append.1 (row_cons.1 hrow).2
    rw [Nat.add_right_comm pos, Nat.add_assoc pos] at hrow₂
    obtain ⟨yes, h₁, hyes, hle₁, hemits₁⟩ := ihbody hinner hrow₁
      (show (h.pop 1).current = _ by rw [List.length_reverse]; omega) hfrom.current
    rw [← Nested.length_flatten body, Nat.add_right_comm, Nat.add_assoc] at hyes
    obtain ⟨no, h₂, rest, h₃, hno, hrest, hle₂, hemits₂⟩ :=
      compiles_construct (h := { h₁ with current := (h.pop 1).current })
      (ihalt hinner) (ihnext henc) hrow₂ rfl (by simp only; omega) (Nat.le_trans hfrom.current hle₁)
    have hend : pos + (body.flatten.length + 1) + (alt.flatten.length + 1) =
        pos + (body.flatten.length + alt.flatten.length + 2) := by omega
    have hstop : pos + (body.flatten.length + 1) + (alt.size + next.size + 2) =
        pos + (Nested.condElse args body alt next).size := by
          rw [Nested.size, Nested.length_flatten]; omega
    rw [hend] at hno hrest
    rw [hstop] at hrest
    refine ⟨_, h₃, compileSeq_condElse hrow (by rw [Nested.size]; omega) (by omega)
      (Nat.succ_ne_zero _) hl hyes hno hrest, Nat.le_trans hle₁ hle₂, fun top htop => ?_⟩
    obtain ⟨htop', hemits₂, hemits₃⟩ := hemits₂ top htop
    rw [hpop]
    exact .condElse htype htop' (hemits₁ top (Nat.le_trans hle₂ htop)) hemits₂ hemits₃

end Body

/-! ### Functions -/

theorem Module.getElem?_funcTypes (m : Module) (func : Nat) :
    m.funcTypes[func]? = (m.typeIndex? func).map (m.types[·]?) := by
  rw [funcTypes, List.getElem?_map, typeIndex?, importedCount]
  split
  · next hlt => rw [List.getElem?_append_left hlt]
  · next hlt => rw [List.getElem?_append_right (Nat.le_of_not_lt hlt), List.getElem?_map,
      Array.getElem?_toList]

namespace Compiled

/-- **A compiled function is that of a typed body.** -/
structure FuncOf (m : Module) (f : Func) (t : FuncType) (body : Nested)
    (cf : CompiledFunc) : Prop where
  /-- Its parameters. -/
  params : cf.params = t.params.length
  /-- Its parameters and locals. -/
  locals : cf.locals = t.params.length + f.locals.length
  /-- The code, and the slots it needs beyond those for locals. -/
  body : ∃ top, cf.frameSize = cf.locals + top ∧
    Body.Emits ⟨m, f.code, cf.locals, t.results.length⟩ ⟨m, t.params ++ f.locals, t.results⟩
      top [t.results] [] 0 body.thenRet [] t.results.reverse cf.body

/-- **A compiled module is that of a module with typed bodies.** -/
structure Renders (m : Module) (bodies : Nat → Nested) (c : Compiled) : Prop where
  /-- The imported functions. -/
  imported : c.imported = m.importedCount
  /-- The types of functions. -/
  types : ∀ func, c.types[func]? = m.funcType? func
  /-- The functions that the module defines. -/
  funcs : ∀ {i f t}, m.funcs[i]? = some f → m.types[f.type]? = some t →
    ∃ cf, c.funcs[i]? = some cf ∧ FuncOf m f t (bodies i) cf

variable {m : Module} {bodies : Nat → Nested}

theorem compileFunc_typed (hb : m.Bodies bodies) {i : Nat} {f : Func} {t : FuncType}
    (hf : m.funcs[i]? = some f) (ht : m.types[f.type]? = some t) : ∃ cf, compileFunc m f = .ok cf ∧
    FuncOf m f t (bodies i) cf := by
  obtain ⟨t', ht', hbody⟩ := hb.typed hf
  obtain rfl : t' = t := Option.some.inj (ht'.symm.trans ht)
  have hcode : f.code = (bodies i).thenRet.flatten.toArray := by
    rw [hb.code hf, Nested.code, Nested.flatten_thenRet]
  have hsize : f.code.size = 0 + (bodies i).thenRet.size := by
    rw [hcode, List.size_toArray, Nested.length_flatten, Nat.zero_add]
  obtain ⟨ops, h, hops, -, hemits⟩ := Body.compiles_of_typed
    (b := ⟨m, f.code, t'.params.length + f.locals.length, t'.results.length⟩) rfl rfl
      (hbody.thenRet rfl) (.function rfl) (h := {}) (hcode ▸ row_toArray) rfl (Nat.le_refl 0)
  refine ⟨⟨t'.params.length, t'.params.length + f.locals.length,
    t'.params.length + f.locals.length + h.greatest, ops⟩, ?_, rfl, rfl, h.greatest, rfl,
    hemits _ (Nat.le_refl _)⟩
  rw [← hsize] at hops
  simp only [compileFunc, ht, hops, ok_bind]
  rfl

/-- **A module with typed bodies is compiled**, if the types of its imports are
declared. -/
theorem exists_compile (hb : m.Bodies bodies) (himports : ∀ i ∈ m.importedTypes, i < m.types.size) :
    ∃ c, compile m = .ok c ∧ Renders m bodies c := by
  have hdeclared : ∀ p ∈ m.funcTypes.zipIdx, ∃ t, funcType p = .ok t := by
    rintro ⟨t, i⟩ hp
    obtain ⟨j, hj, rfl⟩ := List.mem_map.1 (List.fst_mem_of_mem_zipIdx hp)
    rcases List.mem_append.1 hj with hj | hj
    · have hlt := himports j hj
      exact ⟨m.types[j], by simp [funcType, hlt]⟩
    · obtain ⟨f, hf, rfl⟩ := List.mem_map.1 hj
      obtain ⟨i, hi⟩ := List.mem_iff_getElem?.1 hf
      obtain ⟨t, ht, -⟩ := hb.typed (Array.getElem?_toList ▸ hi)
      exact ⟨t, by simp [funcType, ht]⟩
  have hfuncs : ∀ f ∈ m.funcs.toList, ∃ cf, compileFunc m f = .ok cf := by
    intro f hf
    obtain ⟨i, hi⟩ := List.mem_iff_getElem?.1 hf
    obtain ⟨t, ht, -⟩ := hb.typed (Array.getElem?_toList ▸ hi)
    obtain ⟨cf, hcf, -⟩ := compileFunc_typed hb (Array.getElem?_toList ▸ hi) ht
    exact ⟨cf, hcf⟩
  obtain ⟨ts, hts⟩ := exists_mapM_eq_ok hdeclared
  obtain ⟨cfs, hcfs⟩ := exists_mapM_eq_ok hfuncs
  refine ⟨⟨cfs.toArray, ts.toArray, m.importedCount⟩, ?_, rfl, fun func => ?_,
    fun {i f t} hf ht => ?_⟩
  · simp only [compile, hts, hcfs, ok_bind]
    rfl
  · rw [List.getElem?_toArray, Module.funcType?]
    cases hj : m.typeIndex? func with
    | none =>
      have hnone : m.funcTypes[func]? = none := by rw [m.getElem?_funcTypes, hj]; rfl
      rw [List.getElem?_eq_none_iff] at hnone
      exact List.getElem?_eq_none (by rw [length_of_mapM hts, List.length_zipIdx]; exact hnone)
    | some j =>
      have hsome : m.funcTypes.zipIdx[func]? = some (m.types[j]?, func) := by
        rw [List.getElem?_zipIdx, m.getElem?_funcTypes, hj]
        simp
      obtain ⟨t, ht, hfunc⟩ := getElem?_of_mapM hts hsome
      rw [ht]
      cases hty : m.types[j]? with
      | none => simp [hty, funcType, Body.fault] at hfunc
      | some u =>
        obtain rfl : u = t := by simpa [hty, funcType] using hfunc
        exact hty.symm
  · obtain ⟨cf, hcf, hfunc⟩ := getElem?_of_mapM hcfs (Array.getElem?_toList ▸ hf)
    obtain ⟨cf', hcf', hof⟩ := compileFunc_typed hb hf ht
    obtain rfl : cf = cf' := Except.ok.inj (hfunc.symm.trans hcf')
    exact ⟨cf, by simpa using hcf, hof⟩

end Compiled

end WasmEngine
