import WasmEngine.Proofs.Row
import WasmEngine.Proofs.Typing.Code

/-!
# The types of operands at a position

What the types of the operands are at each position of flat code, computed from
the types that the code starts with (`WasmEngine.Nested.operandsAt?`). They are
those of all operands of the function, from the ones of the innermost construct
down. There are none where the code is never reached.

Typed code lies somewhere in the body of a function
(`WasmEngine.Nested.Located`), with operands of other constructs below its own.
There is one lemma for each construct that says where its parts lie.
-/

namespace WasmEngine

/-- The operands behind an instruction that goes on. -/
def Plain.after? (s : CodeScope) (op : Plain) (ts : List ValType) : Option (List ValType) :=
  match op with
  | .drop | .brIf _ => some ts.tail
  | .select => some (ts.drop 2)
  | .br _ | .ret | .unreachable => none
  | op => (op.signature? s).map fun sig => sig.2.reverse ++ ts.drop sig.1.length

theorem Plain.Typed.after_eq {s : CodeScope} {labels : List (List ValType)} {op : Plain}
    {ts us : List ValType} (h : op.Typed s labels ts (some us)) : op.after? s ts = some us := by
  cases h with
  | @sig _ ps rs ts h =>
    cases op with
    | drop | brIf | select | br | ret | unreachable => cases h
    | _ => simp [after?, h]
  | drop => rfl
  | select => rfl
  | brIf => rfl

/-- The operands within a construct of some size or behind it, at a position
counted from the start of the first part. -/
def BlockArgs.operandsAt? (m : Module) (args : BlockArgs) (size : Nat)
    (inner next : List ValType → Nat → Option (List ValType)) (ts : List ValType) (pos : Nat) :
    Option (List ValType) :=
  (args.type? m).bind fun type =>
    if pos ≤ size then (inner type.1.reverse pos).map (· ++ ts.drop type.1.length)
    else next (type.2.reverse ++ ts.drop type.1.length) (pos - size - 1)

theorem BlockArgs.le_of_operandsAt? {m : Module} {args : BlockArgs} {size size' pos : Nat}
    {ts us : List ValType} {inner next : List ValType → Nat → Option (List ValType)}
    (hnext : ∀ {ts us pos}, next ts pos = some us → pos ≤ size')
    (h : args.operandsAt? m size inner next ts pos = some us) : pos ≤ size + 1 + size' := by
  obtain ⟨type, -, h⟩ := Option.bind_eq_some_iff.1 h
  split at h
  · omega
  · have := hnext h
    omega

namespace Nested

/-- **The types of the operands at a position** of the flat code, where the code
starts with operands of the types given. The end of a construct belongs to its
body. -/
def operandsAt? (s : CodeScope) : Nested → List ValType → Nat → Option (List ValType)
  | _, ts, 0 => some ts
  | .done, _, _ + 1 => none
  | .plain op next, ts, pos + 1 => (op.after? s ts).bind fun us => next.operandsAt? s us pos
  | .brTable _ _ _, _, _ + 1 => none
  | .block args body next, ts, pos + 1 | .loop args body next, ts, pos + 1 =>
    args.operandsAt? s.mod body.size (fun ts pos => body.operandsAt? s ts pos)
      (fun ts pos => next.operandsAt? s ts pos) ts pos
  | .cond args body next, ts, pos + 1 =>
    args.operandsAt? s.mod body.size (fun ts pos => body.operandsAt? s ts pos)
      (fun ts pos => next.operandsAt? s ts pos) ts.tail pos
  | .condElse args body alt next, ts, pos + 1 =>
    args.operandsAt? s.mod (body.size + 1 + alt.size)
      (fun ts pos => if pos ≤ body.size then body.operandsAt? s ts pos else alt.operandsAt? s ts
        (pos - body.size - 1)) (fun ts pos => next.operandsAt? s ts pos) ts.tail pos

variable {s : CodeScope} {root code body alt next : Nested} {args : BlockArgs}
  {ps rs ts us below : List ValType} {pos k : Nat}

@[simp]
theorem operandsAt?_zero (s : CodeScope) (code : Nested) (ts : List ValType) :
    code.operandsAt? s ts 0 = some ts := by
  cases code <;> rfl

/-- There are no types behind the end. -/
theorem le_size_of_operandsAt? (h : code.operandsAt? s ts k = some us) : k ≤ code.size := by
  induction code generalizing ts us k with
  | done =>
    cases k with
    | zero => exact Nat.le_refl 0
    | succ k => cases h
  | plain op next ih =>
    cases k with
    | zero => exact Nat.zero_le _
    | succ k =>
      obtain ⟨us', -, h⟩ := Option.bind_eq_some_iff.1 h
      exact Nat.succ_le_succ (ih h)
  | brTable labels default next _ =>
    cases k with
    | zero => exact Nat.zero_le _
    | succ k => cases h
  | block args body next _ ih | loop args body next _ ih | cond args body next _ ih
  | condElse args body alt next _ _ ih =>
    cases k with
    | zero => exact Nat.zero_le _
    | succ k =>
      have := BlockArgs.le_of_operandsAt? (fun h => ih h) h
      simp only [size]
      omega

/-! ### Where code lies -/

/-- **Code lies at a position of the body of a function**, over operands of
other constructs: the flat code is there, and the types of the operands at its
positions are those of the body. -/
structure Located (s : CodeScope) (root : Nested) (below : List ValType) (code : Nested)
    (ts : List ValType) (pos : Nat) : Prop where
  /-- The flat code. -/
  row : Row root.flatten.toArray pos code.flatten
  /-- Its distances fit. -/
  narrow : code.Narrow
  /-- The types at its positions. -/
  types : ∀ {k us}, code.operandsAt? s ts k = some us →
    root.operandsAt? s [] (pos + k) = some (us ++ below)

theorem located_root (s : CodeScope) {root : Nested} (h : root.Narrow) :
    Located s root [] root [] 0 := by
  refine ⟨row_toArray, h, fun {k us} hk => ?_⟩
  rw [Nat.zero_add, List.append_nil]
  exact hk

namespace Located

theorem operandsAt? (h : Located s root below code ts pos) : root.operandsAt? s [] pos =
    some (ts ++ below) :=
  h.types (operandsAt?_zero s code ts)

/-- Nothing lies where other code lies. -/
theorem done (h : Located s root below code ts pos) : Located s root below .done ts pos := by
  refine ⟨row_nil, trivial, fun {k us} hk => ?_⟩
  cases k with
  | zero => exact Option.some.inj hk ▸ h.operandsAt?
  | succ k => cases hk

theorem plain {op : Plain} {labels : List (List ValType)}
    (h : Located s root below (.plain op next) ts pos) (hop : op.Typed s labels ts (some us)) :
    Located s root below next us (pos + 1) := by
  refine ⟨(row_cons.1 h.row).2, h.narrow, fun {k vs} hk => ?_⟩
  rw [Nat.add_assoc, Nat.add_comm 1]
  refine h.types (k := k + 1) ?_
  simp only [Nested.operandsAt?, hop.after_eq, Option.bind_some]
  exact hk

/-- The types in a construct and behind it, by what they are counted from the
start of its first part. -/
theorem construct {size : Nat} {inner : List ValType → Nat → Option (List ValType)}
    (htype : args.type? s.mod = some (ps, rs))
    (htypes : ∀ {k us},
      args.operandsAt? s.mod size inner (fun ts pos => next.operandsAt? s ts pos)
        (ps.reverse ++ ts) k = some us →
        root.operandsAt? s [] (pos + 1 + k) = some (us ++ below)) :
    (∀ {k us}, k ≤ size → inner ps.reverse k = some us →
      root.operandsAt? s [] (pos + 1 + k) = some (us ++ (ts ++ below))) ∧
      ∀ {k us}, next.operandsAt? s (rs.reverse ++ ts) k = some us →
        root.operandsAt? s [] (pos + size + 2 + k) = some (us ++ below) := by
  have hdrop : (ps.reverse ++ ts).drop ps.length = ts := List.drop_left' (by simp)
  refine ⟨fun {k us} hk h => ?_, fun {k us} h => ?_⟩
  · rw [← List.append_assoc]
    refine htypes ?_
    rw [BlockArgs.operandsAt?, htype, Option.bind_some]
    simp only [if_pos hk, h, hdrop, Option.map_some]
  · have hpos : pos + size + 2 + k = pos + 1 + (size + 1 + k) := by omega
    rw [hpos]
    refine htypes ?_
    rw [BlockArgs.operandsAt?, htype, Option.bind_some]
    have hgt : ¬size + 1 + k ≤ size := by omega
    have hsub : size + 1 + k - size - 1 = k := by omega
    simp only [if_neg hgt, hdrop, hsub]
    exact h

/-- The parts of a construct with one body, and its end. -/
structure Parts (s : CodeScope) (root : Nested) (below : List ValType) (body next : Nested)
    (ps rs ts : List ValType) (pos : Nat) : Prop where
  /-- The body. -/
  inner : Located s root (ts ++ below) body ps.reverse (pos + 1)
  /-- Its end. -/
  close : root.flatten.toArray[pos + 1 + body.size]? = some .endBlock
  /-- What stands behind it. -/
  behind : Located s root below next (rs.reverse ++ ts) (pos + body.size + 2)

theorem parts {i : Instr}
    (hrow : Row root.flatten.toArray pos (i :: (body.flatten ++ .endBlock :: next.flatten)))
    (hnarrow : body.Narrow ∧ next.Narrow) (htype : args.type? s.mod = some (ps, rs))
    (htypes : ∀ {k us},
      args.operandsAt? s.mod body.size (fun ts pos => body.operandsAt? s ts pos)
        (fun ts pos => next.operandsAt? s ts pos) (ps.reverse ++ ts) k = some us →
        root.operandsAt? s [] (pos + 1 + k) = some (us ++ below)) :
    Parts s root below body next ps rs ts pos := by
  rw [row_cons, row_append, row_cons, Nested.length_flatten] at hrow
  obtain ⟨-, hbody, hclose, hnext⟩ := hrow
  obtain ⟨hinner, hbehind⟩ := construct htype htypes
  have hpos : pos + 1 + body.size + 1 = pos + body.size + 2 := by omega
  exact ⟨⟨hbody, hnarrow.1, fun h => hinner (le_size_of_operandsAt? h) h⟩, hclose,
    ⟨hpos ▸ hnext, hnarrow.2, hbehind⟩⟩

theorem block (h : Located s root below (.block args body next) (ps.reverse ++ ts) pos)
    (htype : args.type? s.mod = some (ps, rs)) : Parts s root below body next ps rs ts pos := by
  refine parts h.row h.narrow htype fun {k us} hk => ?_
  rw [Nat.add_assoc, Nat.add_comm 1]
  exact h.types (k := k + 1) hk

theorem loop (h : Located s root below (.loop args body next) (ps.reverse ++ ts) pos)
    (htype : args.type? s.mod = some (ps, rs)) : Parts s root below body next ps rs ts pos := by
  refine parts h.row h.narrow htype fun {k us} hk => ?_
  rw [Nat.add_assoc, Nat.add_comm 1]
  exact h.types (k := k + 1) hk

theorem cond {t : ValType}
    (h : Located s root below (.cond args body next) (t :: (ps.reverse ++ ts)) pos)
    (htype : args.type? s.mod = some (ps, rs)) : Parts s root below body next ps rs ts pos := by
  refine parts h.row h.narrow htype fun {k us} hk => ?_
  rw [Nat.add_assoc, Nat.add_comm 1]
  exact h.types (k := k + 1) hk

/-- The parts of a conditional with an alternative, and the marks between them. -/
structure Arms (s : CodeScope) (root : Nested) (below : List ValType) (body alt next : Nested)
    (ps rs ts : List ValType) (pos : Nat) : Prop where
  /-- The first arm. -/
  yes : Located s root (ts ++ below) body ps.reverse (pos + 1)
  /-- Its end. -/
  mark : root.flatten.toArray[pos + 1 + body.size]? = some (.orElse (alt.size + 1))
  /-- The alternative. -/
  no : Located s root (ts ++ below) alt ps.reverse (pos + body.size + 2)
  /-- Its end. -/
  close : root.flatten.toArray[pos + body.size + 2 + alt.size]? = some .endBlock
  /-- What stands behind it. -/
  behind : Located s root below next (rs.reverse ++ ts) (pos + body.size + alt.size + 3)
  /-- The distance from the mark fits. -/
  near : alt.size + 1 < 0x100000000

theorem condElse {t : ValType}
    (h : Located s root below (.condElse args body alt next) (t :: (ps.reverse ++ ts)) pos)
    (htype : args.type? s.mod = some (ps, rs)) : Arms s root below body alt next ps rs ts pos := by
  have hrow := h.row
  rw [Nested.flatten, row_cons, row_append, row_cons, row_append, row_cons, Nested.length_flatten,
    Nested.length_flatten] at hrow
  obtain ⟨-, hyes, hmark, hno, hclose, hnext⟩ := hrow
  obtain ⟨hnear, hnarrowYes, hnarrowNo, hnarrowNext⟩ := h.narrow
  have htypes {k : Nat} {us : List ValType} (hk : (Nested.condElse args body alt next).operandsAt? s
    (t :: (ps.reverse ++ ts)) (k + 1) =
      some us) : root.operandsAt? s [] (pos + 1 + k) = some (us ++ below) := by
    rw [Nat.add_assoc, Nat.add_comm 1]
    exact h.types hk
  obtain ⟨hinner, hbehind⟩ := construct htype fun hk => htypes hk
  have hsecond : pos + 1 + body.size + 1 = pos + body.size + 2 := by omega
  have hthird : pos + (body.size + 1 + alt.size) + 2 = pos + body.size + alt.size + 3 := by omega
  rw [hsecond] at hno hclose hnext
  rw [hthird] at hbehind
  have hlast : pos + body.size + 2 + alt.size + 1 = pos + body.size + alt.size + 3 := by omega
  refine ⟨⟨hyes, hnarrowYes, fun {k us} hk => ?_⟩, hmark, ⟨hno, hnarrowNo, fun {k us} hk => ?_⟩,
    hclose, ⟨hlast ▸ hnext, hnarrowNext, hbehind⟩, hnear⟩
  · have hle := le_size_of_operandsAt? hk
    exact hinner (by omega) (by rwa [if_pos hle])
  · have hle := le_size_of_operandsAt? hk
    have hpos : pos + body.size + 2 + k = pos + 1 + (body.size + 1 + k) := by omega
    have hsub : body.size + 1 + k - body.size - 1 = k := by omega
    rw [hpos]
    exact hinner (by omega) (by rwa [if_neg (by omega), hsub])

end Located

end Nested

/-! ### The bodies of a module -/

/-- A function that a module defines, with the scope and the body that its code
belongs to. -/
inductive Module.Owns (m : Module) (bodies : Nat → Nested) : Nat → CodeScope → Nested → Prop
  /-- The function is there, and its type is. -/
  | mk {func f t} (hf : m.funcs[func - m.importedCount]? = some f)
    (ht : m.types[f.type]? = some t) :
    Owns m bodies func ⟨m, t.params ++ f.locals, t.results⟩
      (bodies (func - m.importedCount)).thenRet

theorem Module.Owns.mod_eq {m : Module} {bodies : Nat → Nested} {func : Nat}
    {sc : CodeScope} {root : Nested} (h : m.Owns bodies func sc root) : sc.mod = m := by
  cases h
  rfl

end WasmEngine
