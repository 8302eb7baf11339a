import WasmEngine.Proofs.Compiled.Cursor
import WasmEngine.Proofs.Compiled.Emission
import WasmEngine.Proofs.Typing.Position

/-!
# Where the compiler comes to

The compiler goes through code with a cursor, and at every instruction that it
comes to it knows the height of the operand stack (`WasmEngine.Body.ComesTo`). A
cursor is **at** typed code (`WasmEngine.Cursor.At`) if its height is the number
of operands that the types of the code say, together with those under the
construct at hand. From there it goes a **way** to the end of the code
(`WasmEngine.Cursor.Way`), on which it is at typed code again or at the end of a
sequence. The way through a construct is put together from those through its
parts, so that the induction is on the code (`WasmEngine.Cursor.At.way`).

So the compiler comes to an instruction at the one height that the types allow
(`WasmEngine.Body.length_of_comesTo`), and this height is counted for the size
of the frame (`WasmEngine.Body.le_greatest_of_comesTo`). The other way round, no
instruction is left out that has types
(`WasmEngine.Body.comesTo_of_operandsAt?`). What is left out is behind an
instruction that does not go on, and there are no types.
-/

namespace WasmEngine

/-- Whether an instruction only marks the end of an arm. -/
def Instr.isMark : Instr → Bool
  | .endBlock | .orElse _ => true
  | _ => false

/-- Nothing is behind an instruction that does not go on. -/
theorem Plain.Typed.after_eq_none {s : CodeScope} {labels : List (List ValType)} {op : Plain}
    {ts : List ValType} (h : op.Typed s labels ts none) : op.after? s ts = none := by
  cases h <;> rfl

/-- **The compiler comes to an instruction** with so many operands. -/
def Body.ComesTo (b : Body) (pos height : Nat) : Prop :=
  ∃ n c, (Cursor.start b).run b n = .running c ∧ c.pos = pos ∧ pos < c.stop ∧
    c.heights.current = height

namespace Cursor

variable {b : Body} {c c' c'' d : Cursor} {l l' : List Cursor}

/-! ### Trails -/

/-- **The cursors on the way** from one to another, the last one apart. -/
def Trail (b : Body) : Cursor → List Cursor → Cursor → Prop
  | c, [], c' => c = c'
  | c, d :: l, c' => c = d ∧ ∃ c₁, c.step b = .running c₁ ∧ Trail b c₁ l c'

namespace Trail

theorem append (h : Trail b c l c') (h' : Trail b c' l' c'') : Trail b c (l ++ l') c'' := by
  induction l generalizing c with
  | nil =>
    obtain rfl := h
    exact h'
  | cons d l ih =>
    obtain ⟨rfl, c₁, hstep, h⟩ := h
    exact ⟨rfl, c₁, hstep, ih h⟩

theorem run_eq (h : Trail b c l c') (n : Nat) : c.run b (l.length + n) = c'.run b n := by
  induction l generalizing c with
  | nil =>
    obtain rfl := h
    rw [List.length_nil, Nat.zero_add]
  | cons d l ih =>
    obtain ⟨rfl, c₁, hstep, h⟩ := h
    rw [List.length_cons, Nat.add_right_comm, run, hstep]
    exact ih h

/-- The cursor comes to all of them. -/
theorem run_of_mem (h : Trail b c l c') (hd : d ∈ l) : ∃ n, c.run b n = .running d := by
  induction l generalizing c with
  | nil => cases hd
  | cons d' l ih =>
    obtain ⟨rfl, c₁, hstep, h⟩ := h
    rcases List.mem_cons.mp hd with rfl | hd
    · exact ⟨0, rfl⟩
    · obtain ⟨n, hn⟩ := ih h hd
      exact ⟨n + 1, by rw [run, hstep]; exact hn⟩

/-- And to no others before the last one. -/
theorem mem_of_run (h : Trail b c l c') {n : Nat} (hrun : c.run b n = .running d) :
    d ∈ l ∨ ∃ m, c'.run b m = .running d := by
  induction l generalizing c n with
  | nil =>
    obtain rfl := h
    exact .inr ⟨n, hrun⟩
  | cons d' l ih =>
    obtain ⟨rfl, c₁, hstep, h⟩ := h
    cases n with
    | zero =>
      obtain rfl := Course.running.inj hrun
      exact .inl List.mem_cons_self
    | succ n =>
      rw [run, hstep] at hrun
      exact (ih h hrun).imp_left (List.mem_cons_of_mem _)

end Trail

theorem step_of_advance {i : Instr} (hlt : c.pos < c.stop) (hi : b.code[c.pos]? = some i)
    (h : c.advance b i = .ok c') : c.step b = .running c' := by
  simp only [step, if_pos hlt, hi, h]

theorem step_of_leave {e : Enclosing} {es : List Enclosing} (hle : c.stop ≤ c.pos)
    (h : c.around = e :: es) : c.step b = .running (c.leave e es) := by
  simp only [step, if_neg (Nat.not_lt_of_le hle), h]

/-! ### Cursors at typed code -/

/-- **A cursor is at typed code**, which lies somewhere in the body of the
function. -/
structure At (b : Body) (sc : CodeScope) (root : Nested) (types : List (List ValType))
    (below : List ValType) (code : Nested) (ts us : List ValType) (c : Cursor) : Prop where
  /-- Where the code lies. -/
  located : Nested.Located sc root below code ts c.pos
  /-- Its types. -/
  typed : code.Typed sc types ts us
  /-- The labels of the types are those in scope. -/
  encloses : b.Encloses types c.labels below.length
  /-- Where it ends. -/
  stop : c.stop = c.pos + code.size
  /-- The height is the number of operands. -/
  current : c.heights.current = below.length + ts.length
  /-- The greatest height is not below it. -/
  greatest : c.heights.current ≤ c.heights.greatest

/-- A cursor on a way with heights up to another: at typed code, or at the end of a
sequence. -/
structure Fits (b : Body) (sc : CodeScope) (root : Nested) (top : Nat) (c : Cursor) : Prop where
  greatest : c.heights.greatest ≤ top
  typed : c.pos < c.stop → ∃ types below code ts us, At b sc root types below code ts us c

variable {sc : CodeScope} {root code body alt rest : Nested} {types : List (List ValType)}
  {ls ps rs ts us below operands : List ValType} {args : BlockArgs} {P P' Q : Nat → Prop}

theorem Fits.mono {top top' : Nat} (h : c.Fits b sc root top) (hle : top ≤ top') :
    c.Fits b sc root top' := ⟨Nat.le_trans h.greatest hle, h.typed⟩

theorem At.lt (h : At b sc root types below code ts us c) (hcode : 0 < code.size) :
    c.pos < c.stop := h.stop ▸ Nat.lt_add_of_pos_right hcode

theorem At.row (h : At b sc root types below code ts us c) (hcode : b.code = root.flatten.toArray) :
    Row b.code c.pos code.flatten := hcode ▸ h.located.row

/-- The height at a construct, whose arguments lie on the operands that it keeps. -/
theorem At.current_arguments (h : At b sc root types below code (ps.reverse ++ ts) us c) :
    c.heights.current = below.length + (ps.length + ts.length) := by
  rw [h.current, List.length_append, List.length_reverse]

/-- The height at a conditional, where the condition lies on them. -/
theorem At.current_condition {t : ValType}
    (h : At b sc root types below code (t :: (ps.reverse ++ ts)) us c) :
    1 ≤ c.heights.current ∧
      (c.heights.pop 1).current = below.length + (ps.length + ts.length) := by
  have hcurrent := h.current
  rw [List.length_cons, List.length_append, List.length_reverse] at hcurrent
  rw [Heights.current_pop]
  omega

/-- A cursor at the body of a construct, or at an arm. -/
theorem At.arm {pos stop : Nat} {labels : List Label} {h : Heights} (ops : List Code)
    (around : List Enclosing) (hloc : Nested.Located sc root (ts ++ below) code ps.reverse pos)
    (htyped : code.Typed sc (ls :: types) ps.reverse rs.reverse)
    (henc : b.Encloses types labels below.length) (hstop : stop = pos + code.size)
    (hcurrent : h.current = below.length + (ps.length + ts.length))
    (hh : h.current ≤ h.greatest) :
    At b sc root (ls :: types) (ts ++ below) code ps.reverse rs.reverse
      ⟨pos, stop, ops, h, ⟨below.length + ts.length, ls.length⟩ :: labels, around⟩ := by
  have hunder : (ts ++ below).length = below.length + ts.length := by
    rw [List.length_append, Nat.add_comm]
  refine ⟨hloc, htyped, ?_, hstop, ?_, hh⟩
  · rw [hunder]
    exact henc.construct (Nat.le_add_right _ _) rfl
  · rw [hcurrent, hunder, List.length_reverse]
    omega

/-- A cursor behind a construct. -/
theorem At.back {pos stop : Nat} {labels : List Label} (ops : List Code)
    (around : List Enclosing) (hloc : Nested.Located sc root below rest (rs.reverse ++ ts) pos)
    (htyped : rest.Typed sc types (rs.reverse ++ ts) us)
    (henc : b.Encloses types labels below.length) (hstop : stop = pos + rest.size)
    (h : Heights) :
    At b sc root types below rest (rs.reverse ++ ts) us
      ⟨pos, stop, ops, h.set (below.length + ts.length + rs.length), labels, around⟩ := by
  refine ⟨hloc, htyped, henc, hstop, ?_, (Heights.from_set h _).current⟩
  show below.length + ts.length + rs.length = below.length + (rs.reverse ++ ts).length
  rw [List.length_append, List.length_reverse]
  omega

/-! ### Ways -/

/-- **A way**: the cursors on it fit below the greatest height at its end, and
come to all positions of a kind, counted from its start, marks apart. -/
structure Way (b : Body) (sc : CodeScope) (root : Nested) (P : Nat → Prop) (c : Cursor)
    (l : List Cursor) (c' : Cursor) : Prop where
  trail : Trail b c l c'
  greatest : c.heights.greatest ≤ c'.heights.greatest
  fits : ∀ d ∈ l, d.Fits b sc root c'.heights.greatest
  covers : ∀ {k i}, P k → b.code[c.pos + k]? = some i → i.isMark = false →
    ∃ d ∈ l, d.pos = c.pos + k ∧ d.pos < d.stop

namespace Way

/-- One way after another. -/
theorem append (h : Way b sc root P c l c') (h' : Way b sc root P' c' l' c'')
    (hQ : ∀ {k i}, Q k → b.code[c.pos + k]? = some i → i.isMark = false →
      P k ∨ ∃ j, c.pos + k = c'.pos + j ∧ P' j) : Way b sc root Q c (l ++ l') c'' := by
  refine ⟨h.trail.append h'.trail, Nat.le_trans h.greatest h'.greatest, ?_, fun hk hi hmark => ?_⟩
  · exact List.forall_mem_append.mpr ⟨fun d hd => (h.fits d hd).mono h'.greatest, h'.fits⟩
  · rcases hQ hk hi hmark with hk | ⟨j, hj, hk⟩
    · obtain ⟨d, hd, hpos⟩ := h.covers hk hi hmark
      exact ⟨d, List.mem_append_left _ hd, hpos⟩
    · rw [hj] at hi ⊢
      obtain ⟨d, hd, hpos⟩ := h'.covers hk hi hmark
      exact ⟨d, List.mem_append_right _ hd, hpos⟩

theorem imp (h : Way b sc root P c l c') (hQ : ∀ {k}, Q k → P k) : Way b sc root Q c l c' :=
  ⟨h.trail, h.greatest, h.fits, fun hk => h.covers (hQ hk)⟩

/-- A way of one step. -/
theorem single (hc : c.Fits b sc root c'.heights.greatest) (hstep : c.step b = .running c') :
    Way b sc root (fun k => k = 0 ∧ c.pos < c.stop) c [c] c' := by
  refine ⟨⟨rfl, c', hstep, rfl⟩, hc.greatest, List.forall_mem_singleton.mpr hc, ?_⟩
  rintro k i ⟨rfl, hlt⟩ _ _
  exact ⟨c, List.mem_singleton_self c, rfl, hlt⟩

end Way

/-- The positions of some code that have types. -/
def HasTypes (n : Nat) (types : Nat → Option (List ValType)) (k : Nat) : Prop :=
  k < n ∧ ∃ vs, types k = some vs

/-- The way through an arm and out of it, over the mark at its end. -/
theorem Way.out {i : Instr}
    (h : Way b sc root (HasTypes body.size (body.operandsAt? sc ts)) c l c')
    (hend : c'.stop ≤ c'.pos) (hstep : c'.step b = .running c'')
    (hle : c'.heights.greatest ≤ c''.heights.greatest)
    (hi : b.code[c.pos + body.size]? = some i) (hmark : i.isMark = true) :
    Way b sc root (HasTypes (body.size + 1) (body.operandsAt? sc ts)) c (l ++ [c']) c'' := by
  refine h.append (.single ⟨hle, fun hlt => absurd hlt (Nat.not_lt_of_le hend)⟩ hstep) ?_
  rintro k i' ⟨hk, hts⟩ hi' hmark'
  rcases Nat.lt_or_eq_of_le (Nat.le_of_lt_succ hk) with hlt | rfl
  · exact .inl ⟨hlt, hts⟩
  · obtain rfl := Option.some.inj (hi'.symm.trans hi)
    rw [hmark] at hmark'
    cases hmark'

/-- The way through two arms. -/
theorem Way.both {m n : Nat} {first second : Nat → Option (List ValType)}
    (h : Way b sc root (HasTypes (m + 1) first) c l c')
    (h' : Way b sc root (HasTypes (n + 1) second) c' l' c'') (hpos : c'.pos = c.pos + m + 1) :
    Way b sc root (HasTypes (m + 1 + n + 1) fun pos =>
      if pos ≤ m then first pos else second (pos - m - 1)) c (l ++ l') c'' := by
  refine h.append h' ?_
  rintro k i ⟨hk, vs, hvs⟩ - -
  beta_reduce at hvs
  split at hvs
  · next hle => exact .inl ⟨Nat.lt_succ_of_le hle, vs, hvs⟩
  · exact .inr ⟨k - m - 1, by omega, by omega, vs, hvs⟩

/-- The way through a construct: into it, through its arms, and through what is
behind. -/
theorem Way.construct {n : Nat} {arms : List ValType → Nat → Option (List ValType)}
    {c₁ c₃ : Cursor} (hc : At b sc root types below code operands us c)
    (hstep : c.step b = .running c₁) (hle : c.heights.greatest ≤ c₁.heights.greatest)
    (hpos₁ : c₁.pos = c.pos + 1) (hin : Way b sc root (HasTypes (n + 1) (arms ps.reverse)) c₁ l c₃)
    (hpos₃ : c₃.pos = c.pos + n + 2)
    (hout : Way b sc root (HasTypes rest.size (rest.operandsAt? sc (rs.reverse ++ ts))) c₃ l' c')
    (htype : args.type? sc.mod = some (ps, rs))
    (htypes : ∀ k, code.operandsAt? sc operands (k + 1) = args.operandsAt? sc.mod n arms
      (fun ts pos => rest.operandsAt? sc ts pos) (ps.reverse ++ ts) k)
    (hsize : code.size = n + rest.size + 2) :
    Way b sc root (HasTypes code.size (code.operandsAt? sc operands)) c (c :: (l ++ l')) c' := by
  have hdrop : (ps.reverse ++ ts).drop ps.length = ts := List.drop_left' (by simp)
  have hfits : c.Fits b sc root c₁.heights.greatest := ⟨hle, fun _ => ⟨_, _, _, _, _, hc⟩⟩
  have hafter : Way b sc root
      (fun k => HasTypes code.size (code.operandsAt? sc operands) (k + 1)) c₁ (l ++ l') c' := by
    refine hin.append hout ?_
    rintro k i ⟨hk, vs, hvs⟩ - -
    rw [htypes, BlockArgs.operandsAt?, htype, Option.bind_some] at hvs
    simp only [hdrop] at hvs
    split at hvs
    · next hle =>
      obtain ⟨vs', hvs, -⟩ := Option.map_eq_some_iff.1 hvs
      exact .inl ⟨Nat.lt_succ_of_le hle, vs', hvs⟩
    · exact .inr ⟨k - n - 1, by omega, by omega, vs, hvs⟩
  refine (Way.single hfits hstep).append hafter ?_
  rintro (_ | k) i hk - -
  · exact .inl ⟨rfl, hc.lt (Nat.zero_lt_of_lt hk.1)⟩
  · exact .inr ⟨k, by omega, hk⟩

/-- The construct at a cursor, with its label. -/
abbrev opened (c : Cursor) (arm : Arm) (base arity results len : Nat) : Enclosing :=
  ⟨arm, ⟨base, arity⟩, results, c.pos, len, c.stop, c.ops⟩

/-- **A way to the end of the code.** -/
def HasWay (b : Body) (sc : CodeScope) (root code : Nested) (ts : List ValType) (c : Cursor) :
    Prop :=
  ∃ l ops heights, Way b sc root (HasTypes code.size (code.operandsAt? sc ts)) c l
    { c with pos := c.stop, ops, heights }

/-- The last operation of a sequence. -/
theorem At.last {i : Instr} {op : Code} {h : Heights}
    (hc : At b sc root types below code ts us c) (hlt : c.pos < c.stop)
    (hi : b.code[c.pos]? = some i)
    (hop : b.compileInstr c.labels c.pos c.heights i = .ok (.last op, h))
    (hle : c.heights.greatest ≤ h.greatest)
    (hnone : ∀ k, code.operandsAt? sc ts (k + 1) = none) : HasWay b sc root code ts c := by
  have hadvance : c.advance b i =
      .ok { c with pos := c.stop, ops := c.ops ++ [op], heights := h } := by
    cases i with
    | plain | brTable =>
      simp only [advance, hop, ok_bind]
      rfl
    | _ => simp [Body.compileInstr, Body.fault] at hop
  have hfits : c.Fits b sc root h.greatest := ⟨hle, fun _ => ⟨_, _, _, _, _, hc⟩⟩
  refine ⟨_, _, _, (Way.single hfits (step_of_advance hlt hi hadvance)).imp ?_⟩
  rintro (_ | k) ⟨-, vs, hvs⟩
  · exact ⟨rfl, hlt⟩
  · rw [hnone] at hvs
    cases hvs

section

variable (hcode : b.code = root.flatten.toArray)
  (ihbody : ∀ {types below ts us c}, At b sc root types below body ts us c →
    HasWay b sc root body ts c)
  (ihrest : ∀ {types below ts us c}, At b sc root types below rest ts us c →
    HasWay b sc root rest ts c)
include hcode ihbody ihrest

omit hcode ihbody ihrest in
/-- A construct whose body ends becomes an operation, unless it has another arm. -/
theorem leave_eq {e : Enclosing} (h : ∀ slot alt height, e.arm ≠ .first slot alt height)
    (c : Cursor) (es : List Enclosing) : ∃ op, c.leave e es = c.close e es op := by
  rw [leave]
  cases harm : e.arm with
  | first slot alt height => exact absurd harm (h slot alt height)
  | block | loop | only | second => exact ⟨_, rfl⟩

/-- The way through a construct with one body. -/
theorem At.single (arm : Arm) {g : Heights} (hc : At b sc root types below code operands us c)
    (htype : args.type? sc.mod = some (ps, rs))
    (hparts : Nested.Located.Parts sc root below body rest ps rs ts c.pos)
    (hbody : body.Typed sc (ls :: types) ps.reverse rs.reverse)
    (hrest : rest.Typed sc types (rs.reverse ++ ts) us)
    (hcurrent : g.current = below.length + (ps.length + ts.length)) (hg : g.current ≤ g.greatest)
    (hle : c.heights.greatest ≤ g.greatest)
    (hstep : c.step b = .running ⟨c.pos + 1, c.pos + (body.size + 1), [], g,
      ⟨below.length + ts.length, ls.length⟩ :: c.labels,
      c.opened arm (below.length + ts.length) ls.length rs.length (body.size + 1) :: c.around⟩)
    (harm : ∀ slot alt height, arm ≠ .first slot alt height)
    (htypes : ∀ k, code.operandsAt? sc operands (k + 1) = args.operandsAt? sc.mod body.size
      (fun ts pos => body.operandsAt? sc ts pos) (fun ts pos => rest.operandsAt? sc ts pos)
      (ps.reverse ++ ts) k)
    (hsize : code.size = body.size + rest.size + 2) : HasWay b sc root code operands c := by
  have hstop := hc.stop
  let e := c.opened arm (below.length + ts.length) ls.length rs.length (body.size + 1)
  obtain ⟨l, ops, h, hway⟩ := ihbody (At.arm [] (e :: c.around) hparts.inner hbody hc.encloses
    (show c.pos + (body.size + 1) = c.pos + 1 + body.size by omega) hcurrent hg)
  obtain ⟨op, hop⟩ := leave_eq (e := e) harm ⟨_, _, ops, h, _ :: c.labels, _⟩ c.around
  have hout := hway.out (Nat.le_refl _) ((step_of_leave (Nat.le_refl _) rfl).trans
    (congrArg Course.running hop)) (Heights.from_set h _).greatest (hcode ▸ hparts.close) rfl
  obtain ⟨l', ops', h', hway'⟩ := ihrest (At.back (c.ops ++ [op]) c.around hparts.behind hrest
    hc.encloses (show c.stop = c.pos + body.size + 2 + rest.size by omega) h)
  exact ⟨_, ops', h', .construct hc hstep hle rfl hout rfl hway' htype htypes hsize⟩

/-- The way through a conditional with an alternative. The second arm starts
with the height of the first, but it knows the greatest height of the first. -/
theorem At.double (slot : Nat) {g : Heights}
    (ihalt : ∀ {types below ts us c}, At b sc root types below alt ts us c →
      HasWay b sc root alt ts c)
    (hc : At b sc root types below code operands us c)
    (htype : args.type? sc.mod = some (ps, rs))
    (harms : Nested.Located.Arms sc root below body alt rest ps rs ts c.pos)
    (hyes : body.Typed sc (rs :: types) ps.reverse rs.reverse)
    (hno : alt.Typed sc (rs :: types) ps.reverse rs.reverse)
    (hrest : rest.Typed sc types (rs.reverse ++ ts) us)
    (hcurrent : g.current = below.length + (ps.length + ts.length)) (hg : g.current ≤ g.greatest)
    (hle : c.heights.greatest ≤ g.greatest)
    (hstep : c.step b = .running ⟨c.pos + 1, c.pos + (body.size + 1), [], g,
      ⟨below.length + ts.length, rs.length⟩ :: c.labels,
      c.opened (.first slot (body.size + 1) g.current) (below.length + ts.length) rs.length
        rs.length (body.size + alt.size + 2) :: c.around⟩)
    (htypes : ∀ k, code.operandsAt? sc operands (k + 1) =
      args.operandsAt? sc.mod (body.size + 1 + alt.size)
        (fun ts pos => if pos ≤ body.size then body.operandsAt? sc ts pos
          else alt.operandsAt? sc ts (pos - body.size - 1))
        (fun ts pos => rest.operandsAt? sc ts pos) (ps.reverse ++ ts) k)
    (hsize : code.size = body.size + alt.size + rest.size + 3) :
    HasWay b sc root code operands c := by
  have hstop := hc.stop
  let e := c.opened (.first slot (body.size + 1) g.current) (below.length + ts.length) rs.length
    rs.length (body.size + alt.size + 2)
  obtain ⟨l₁, ops₁, h₁, hway₁⟩ := ihbody (At.arm [] (e :: c.around) harms.yes hyes hc.encloses
    (show c.pos + (body.size + 1) = c.pos + 1 + body.size by omega) hcurrent hg)
  have hout₁ := hway₁.out (Nat.le_refl _) (step_of_leave (Nat.le_refl _) rfl) (Nat.le_refl _)
    (hcode ▸ harms.mark) rfl
  obtain ⟨l₂, ops₂, h₂, hway₂⟩ := ihalt (At.arm (h := { h₁ with current := g.current }) []
    ({ e with arm := .second slot ops₁ } :: c.around) harms.no hno hc.encloses
    (show c.pos + (body.size + alt.size + 2) = c.pos + body.size + 2 + alt.size by omega) hcurrent
    (Nat.le_trans hg hway₁.greatest))
  have hout₂ := hway₂.out (Nat.le_refl _) (step_of_leave (Nat.le_refl _) rfl)
    (Heights.from_set h₂ _).greatest (hcode ▸ harms.close) rfl
  have hboth := hout₁.both hout₂
    (show c.pos + body.size + 2 = c.pos + 1 + body.size + 1 by omega)
  have hpos : c.pos + body.size + alt.size + 3 = c.pos + (body.size + alt.size + 2) + 1 := by omega
  obtain ⟨l₃, ops₃, h₃, hway₃⟩ := ihrest (At.back _ c.around (hpos ▸ harms.behind) hrest
    hc.encloses (show c.stop = c.pos + (body.size + alt.size + 2) + 1 + rest.size by omega) h₂)
  refine ⟨_, ops₃, h₃, .construct hc hstep hle rfl hboth ?_ hway₃ htype htypes ?_⟩
  · show c.pos + (body.size + alt.size + 2) + 1 = c.pos + (body.size + 1 + alt.size) + 2
    omega
  · omega

end

/-- **The way through typed code.** The induction is on the code, so that the
parts of a construct come before it. -/
theorem At.way (hcode : b.code = root.flatten.toArray) (hmod : sc.mod = b.mod)
    (hresults : sc.results.length = b.results) (hc : At b sc root types below code ts us c) :
    HasWay b sc root code ts c := by
  induction code generalizing types below ts us c with
  | done =>
    obtain ⟨pos, stop, ops, h, labels, around⟩ := c
    obtain rfl : stop = pos := hc.stop
    exact ⟨[], ops, h, rfl, Nat.le_refl _, List.forall_mem_nil _,
      fun hk => absurd hk.1 (Nat.not_lt_zero _)⟩
  | plain op next ih =>
    have hlt := hc.lt (Nat.succ_pos _)
    have hi := (row_cons.1 (hc.row hcode)).1
    have htyped := hc.typed
    cases htyped with
    | plain hop hrest =>
      obtain ⟨g, hplain, hbehind⟩ :=
        Body.compilePlain_typed c.pos hmod hc.encloses hresults hop hc.current hc.greatest
      obtain ⟨hcurrent, hgoes⟩ := hbehind.next _ rfl
      obtain ⟨ops, hadvance⟩ : ∃ ops, c.advance b (.plain op) =
          .ok { c with pos := c.pos + 1, ops := ops, heights := g } := by
        have hinstr : b.compileInstr c.labels c.pos c.heights (.plain op) = _ := hplain
        simp only [advance, hinstr, ok_bind]
        cases he : b.emit c.labels c.heights.current op with
        | op code | nothing => exact ⟨_, rfl⟩
        | last code => exact absurd he (hgoes code)
      have hstop := hc.stop
      rw [Nested.size] at hstop
      obtain ⟨l, ops', h, hway⟩ := ih (c := { c with pos := c.pos + 1, ops := ops, heights := g })
        ⟨hc.located.plain hop, hrest, hc.encloses, by dsimp only; omega, hcurrent, hbehind.current⟩
      refine ⟨_, ops', h, (Way.single ⟨hbehind.greatest, fun _ => ⟨_, _, _, _, _, hc⟩⟩
        (step_of_advance hlt hi hadvance)).append hway ?_⟩
      rintro (_ | k) i ⟨hk, vs, hvs⟩ - -
      · exact .inl ⟨rfl, hlt⟩
      · rw [Nested.operandsAt?, hop.after_eq, Option.bind_some] at hvs
        exact .inr ⟨k, by dsimp only; omega, Nat.lt_of_succ_lt_succ hk, vs, hvs⟩
    | last hop =>
      -- The cursor jumps over what is behind, and there nothing has types.
      obtain ⟨g, hplain, hbehind⟩ :=
        Body.compilePlain_typed c.pos hmod hc.encloses hresults hop hc.current hc.greatest
      obtain ⟨code, hlast⟩ := hbehind.last rfl
      refine hc.last hlt hi (hlast ▸ hplain) hbehind.greatest fun k => ?_
      rw [Nested.operandsAt?, hop.after_eq_none]
      rfl
  | brTable targets default next _ =>
    have hlt := hc.lt (Nat.succ_pos _)
    have hrow := hc.row hcode
    have htyped := hc.typed
    cases htyped with
    | brTable htable =>
      exact hc.last hlt (row_cons.1 hrow).1
        (Body.compileInstr_brTable hc.encloses htable hrow hc.current)
        (Heights.from_pop hc.greatest 1).greatest fun _ => rfl
  | block args body next ihbody ihnext =>
    have hlt := hc.lt (Nat.succ_pos _)
    have hrow := hc.row hcode
    rw [Nested.flatten, Nested.length_flatten] at hrow
    have htyped := hc.typed
    cases htyped with
    | @block _ _ _ _ ps rs ts us htype hbody hrest =>
      have hcurrent := hc.current_arguments
      have hl := Body.label_eq (h := c.heights) (d := below.length + ts.length) false
        (hmod ▸ htype) (by omega)
      refine hc.single hcode ihbody ihnext .block htype (hc.located.block htype) hbody hrest
        hcurrent hc.greatest (Nat.le_refl _) (step_of_advance hlt (row_cons.1 hrow).1 ?_)
        (by simp) (fun _ => rfl) rfl
      simp only [advance, enter, hl, ok_bind]
      rfl
  | loop args body next ihbody ihnext =>
    have hlt := hc.lt (Nat.succ_pos _)
    have hrow := hc.row hcode
    rw [Nested.flatten, Nested.length_flatten] at hrow
    have htyped := hc.typed
    cases htyped with
    | @loop _ _ _ _ ps rs ts us htype hbody hrest =>
      have hcurrent := hc.current_arguments
      have hl := Body.label_eq (h := c.heights) (d := below.length + ts.length) true
        (hmod ▸ htype) (by omega)
      refine hc.single hcode ihbody ihnext .loop htype (hc.located.loop htype) hbody hrest hcurrent
        hc.greatest (Nat.le_refl _) (step_of_advance hlt (row_cons.1 hrow).1 ?_)
        (by simp) (fun _ => rfl) rfl
      simp only [advance, enter, hl, ok_bind]
      rfl
  | cond args body next ihbody ihnext =>
    have hlt := hc.lt (Nat.succ_pos _)
    have hrow := hc.row hcode
    rw [Nested.flatten, Nested.length_flatten] at hrow
    have htyped := hc.typed
    cases htyped with
    | @cond _ _ _ _ ps ts us htype hbody hrest =>
      obtain ⟨hone, hpop⟩ := hc.current_condition
      have hfrom := Heights.from_pop hc.greatest 1
      have hl := Body.label_eq (h := c.heights.pop 1) (d := below.length + ts.length) false
        (hmod ▸ htype) (by omega)
      refine hc.single hcode ihbody ihnext (.only (b.slot (c.heights.pop 1).current)) htype
        (hc.located.cond htype) hbody hrest hpop hfrom.current hfrom.greatest
        (step_of_advance hlt (row_cons.1 hrow).1 ?_) (by simp) (fun _ => rfl) rfl
      simp only [advance, Body.require_eq hone, ok_bind, if_true, enter, hl]
      rfl
  | condElse args body alt next ihbody ihalt ihnext =>
    have hlt := hc.lt (Nat.succ_pos _)
    have hrow := hc.row hcode
    rw [Nested.flatten, Nested.length_flatten, Nested.length_flatten] at hrow
    have htyped := hc.typed
    cases htyped with
    | @condElse _ _ _ _ _ ps rs ts us htype hyes hno hrest =>
      obtain ⟨hone, hpop⟩ := hc.current_condition
      have hfrom := Heights.from_pop hc.greatest 1
      have hl := Body.label_eq (h := c.heights.pop 1) (d := below.length + ts.length) false
        (hmod ▸ htype) (by omega)
      refine hc.double hcode ihbody ihnext (b.slot (c.heights.pop 1).current) ihalt htype
        (hc.located.condElse htype) hyes hno hrest hpop hfrom.current hfrom.greatest
        (step_of_advance hlt (row_cons.1 hrow).1 ?_) (fun _ => rfl) rfl
      simp only [advance, Body.require_eq hone, ok_bind, if_neg (Nat.succ_ne_zero _), enter, hl]
      rfl

end Cursor

/-! ### Functions -/

namespace Body

variable {b : Body} {sc : CodeScope} {root : Nested} {us : List ValType} {pos height : Nat}

section

variable (hcode : b.code = root.flatten.toArray) (hmod : sc.mod = b.mod)
  (hresults : sc.results.length = b.results) (htyped : root.Typed sc [sc.results] [] us)
  (hnarrow : root.Narrow)
include hcode hmod hresults htyped hnarrow

/-- The way through the body, at the end of which the compiler has its
operations. -/
theorem exists_way : ∃ l ops heights, b.compileSeq [] 0 b.code.size {} = .ok (ops, heights) ∧
    Cursor.Way b sc root (Cursor.HasTypes root.size (root.operandsAt? sc [])) (.start b) l
      { Cursor.start b with pos := b.code.size, ops, heights } := by
  have hsize : b.code.size = 0 + root.size := by
    rw [hcode, List.size_toArray, Nested.length_flatten, Nat.zero_add]
  have hstart : Cursor.At b sc root [sc.results] [] root [] us (.start b) :=
    ⟨Nested.located_root sc hnarrow, htyped, .function hresults, hsize, rfl, Nat.le_refl 0⟩
  obtain ⟨l, ops, h, hway⟩ := hstart.way hcode hmod hresults
  refine ⟨l, ops, h, ?_, hway⟩
  have hrun := hway.trail.run_eq 0
  rw [← Cursor.answer_start, ← Cursor.answer_run b (l.length + 0), hrun]
  exact Cursor.answer_of_le (Nat.le_refl _)

/-- Where the compiler comes to, it is at typed code, below the greatest height
that it has in the end. -/
theorem at_of_comesTo (h : b.ComesTo pos height) : ∃ ops heights types below code ts us c,
    b.compileSeq [] 0 b.code.size {} = .ok (ops, heights) ∧
    Cursor.At b sc root types below code ts us c ∧ c.heights.greatest ≤ heights.greatest ∧
    c.pos = pos ∧ c.heights.current = height := by
  obtain ⟨n, c, hrun, rfl, hlt, rfl⟩ := h
  obtain ⟨l, ops, heights, hops, hway⟩ := exists_way hcode hmod hresults htyped hnarrow
  rcases hway.trail.mem_of_run hrun with hc | ⟨m, hm⟩
  · obtain ⟨hgreatest, hat⟩ := hway.fits c hc
    obtain ⟨types, below, code, ts, us, hat⟩ := hat hlt
    exact ⟨ops, heights, types, below, code, ts, us, c, hops, hat, hgreatest, rfl, rfl⟩
  · -- At the end there is no instruction.
    cases m with
    | zero =>
      obtain rfl := Cursor.Course.running.inj hm
      exact absurd hlt (Nat.lt_irrefl _)
    | succ m => simp [Cursor.run, Cursor.step, Cursor.start] at hm

/-- **The height of the compiler is the number of operands**, at every
instruction that it comes to. -/
theorem length_of_comesTo (h : b.ComesTo pos height) :
    ∃ ts, root.operandsAt? sc [] pos = some ts ∧ ts.length = height := by
  obtain ⟨_, _, types, below, code, ts, us, c, -, hc, -, rfl, rfl⟩ :=
    at_of_comesTo hcode hmod hresults htyped hnarrow h
  refine ⟨ts ++ below, hc.located.operandsAt?, ?_⟩
  rw [hc.current, List.length_append, Nat.add_comm]

/-- **It is not above the greatest height**, by which the frame is measured. -/
theorem le_greatest_of_comesTo {ops : List Code} {heights : Heights} (h : b.ComesTo pos height)
    (hops : b.compileSeq [] 0 b.code.size {} = .ok (ops, heights)) : height ≤ heights.greatest := by
  obtain ⟨_, _, types, below, code, ts, us, c, hops', hc, hgreatest, -, rfl⟩ :=
    at_of_comesTo hcode hmod hresults htyped hnarrow h
  obtain ⟨rfl, rfl⟩ := Prod.mk.inj (Except.ok.inj (hops.symm.trans hops'))
  exact Nat.le_trans hc.greatest hgreatest

/-- **The compiler comes to every instruction where operands have types**, marks
apart. -/
theorem comesTo_of_operandsAt? {ts : List ValType} {i : Instr}
    (hts : root.operandsAt? sc [] pos = some ts) (hi : b.code[pos]? = some i)
    (hmark : i.isMark = false) : ∃ height, b.ComesTo pos height := by
  obtain ⟨l, ops, heights, -, hway⟩ := exists_way hcode hmod hresults htyped hnarrow
  have hlt : pos < root.size := by
    obtain ⟨hlt, -⟩ := Array.getElem?_eq_some_iff.1 hi
    rwa [hcode, List.size_toArray, Nested.length_flatten] at hlt
  obtain ⟨c, hc, hpos, hstop⟩ :=
    hway.covers ⟨hlt, ts, hts⟩ (show b.code[0 + pos]? = some i by rwa [Nat.zero_add]) hmark
  obtain rfl : c.pos = pos := hpos.trans (Nat.zero_add pos)
  obtain ⟨n, hn⟩ := hway.trail.run_of_mem hc
  exact ⟨_, n, c, hn, rfl, hstop, rfl⟩

end

end Body

namespace Compiled

variable {m : Module} {f : Func} {t : FuncType} {cf : CompiledFunc}

theorem compileFunc_of_compile {c : Compiled} {k : Nat} (hc : compile m = .ok c)
    (hf : m.funcs[k]? = some f) (hcf : c.funcs[k]? = some cf) : compileFunc m f = .ok cf := by
  simp only [compile, bind_eq_ok, pure_eq_ok] at hc
  obtain ⟨types, -, funcs, hfuncs, rfl⟩ := hc
  obtain ⟨cf', hcf', hfunc⟩ := getElem?_of_mapM hfuncs (Array.getElem?_toList ▸ hf)
  obtain rfl : cf' = cf := by simpa [hcf'] using hcf
  exact hfunc

/-- The frame of a function is measured by the greatest height that the compiler
has in the end. -/
theorem compileSeq_of_compileFunc (h : compileFunc m f = .ok cf)
    (ht : m.types[f.type]? = some t) : ∃ ops heights,
    Body.compileSeq ⟨m, f.code, cf.locals, t.results.length⟩ [] 0 f.code.size {} =
      .ok (ops, heights) ∧
    cf.frameSize = cf.locals + heights.greatest := by
  simp only [compileFunc, ht, bind_eq_ok, pure_eq_ok] at h
  obtain ⟨⟨ops, heights⟩, hops, rfl⟩ := h
  exact ⟨ops, heights, hops, rfl⟩

end Compiled

end WasmEngine
