import WasmEngine.Compiled.Compile
import WasmEngine.Proofs.Except

/-!
# The compiler, step by step

A compiler that goes through code with one cursor, rather than by recursion: at
the start of a construct it puts aside what it has, works on the body, and at
the end takes up what it had put aside (`WasmEngine.Cursor.step`). At the end of
a construct the cursor is set, to where the distances say. In code that was not
made by lowering the distances may be anything. Bodies may then end before they
start or behind what is around them, and at the end of a construct the cursor
may well go back to code that was compiled before.

Still compilation ends, since a construct sends the cursor to places behind its
own start only. A sequence thus has a **weight** by where it starts, and so has
all that is put aside; a step lowers their sum
(`WasmEngine.Cursor.potential_of_step`). What the recursion would make of the
rest stays as it is (`WasmEngine.Cursor.answer_step`), so the two compilers
agree (`WasmEngine.Cursor.run_potential`). Nor are there ever more constructs
put aside than instructions (`WasmEngine.Cursor.length_of_ordered`).
-/

namespace WasmEngine

/-- What a sequence is the body of. -/
inductive Arm
  /-- A block. -/
  | block
  /-- A loop. -/
  | loop
  /-- A conditional without an alternative. -/
  | only (slot : Nat)
  /-- A conditional with an alternative, which is so far behind its start and is
  entered at a height. -/
  | first (slot alt height : Nat)
  /-- The alternative, behind an arm that is compiled. -/
  | second (slot : Nat) (yes : List Code)

/-- A construct whose body is being compiled. -/
structure Enclosing where
  /-- What is being compiled of it. -/
  arm : Arm
  /-- Its label. -/
  label : Label
  /-- The number of its results. -/
  results : Nat
  /-- Where it starts. -/
  index : Nat
  /-- The distance to its end. -/
  len : Nat
  /-- Where the sequence around it ends. -/
  stop : Nat
  /-- What was compiled of the sequence around it. -/
  ops : List Code

/-- Where the compiler is. -/
structure Cursor where
  /-- The position of the next instruction. -/
  pos : Nat
  /-- Where the sequence at hand ends. -/
  stop : Nat
  /-- What was compiled of it. -/
  ops : List Code := []
  /-- The height of the operand stack. -/
  heights : Heights := {}
  /-- The labels in scope. -/
  labels : List Label := []
  /-- The constructs around, from the inside. -/
  around : List Enclosing := []

namespace Cursor

/-- What is compiled: a sequence, and the heights at its end. -/
abbrev Answer := Except Halt (List Code × Heights)

/-- Where the compiler is after some steps, or what it made of the code. -/
inductive Course
  /-- It is at work. -/
  | running (c : Cursor)
  /-- It has come to its end. -/
  | ended (r : Answer)

/-! ### Steps -/

/-- At the start of a construct. Its first body ends at `stop`. -/
def enter (b : Body) (c : Cursor) (h : Heights) (arm : Arm) (args : BlockArgs) (isLoop : Bool)
    (len stop : Nat) : Except Halt Cursor := do
  let (l, results) ← b.label args isLoop h
  return ⟨c.pos + 1, stop, [], h, l :: c.labels,
    ⟨arm, l, results, c.pos, len, c.stop, c.ops⟩ :: c.around⟩

/-- At an instruction. -/
def advance (b : Body) (c : Cursor) : Instr → Except Halt Cursor
  | .block args len => c.enter b c.heights .block args false len (c.pos + len)
  | .loop args len => c.enter b c.heights .loop args true len (c.pos + len)
  | .cond args alt len => do
    Body.require c.pos 1 c.heights
    let h := c.heights.pop 1
    let slot := b.slot h.current
    if alt = 0 then c.enter b h (.only slot) args false len (c.pos + len)
    else c.enter b h (.first slot alt h.current) args false len (c.pos + alt)
  | i => do
    match ← b.compileInstr c.labels c.pos c.heights i with
    | (.op op, h) => return { c with pos := c.pos + 1, ops := c.ops ++ [op], heights := h }
    | (.last op, h) => return { c with pos := c.stop, ops := c.ops ++ [op], heights := h }
    | (.nothing, h) => return { c with pos := c.pos + 1, heights := h }

/-- At the end of a construct, which becomes an operation. -/
def close (c : Cursor) (e : Enclosing) (es : List Enclosing) (op : Code) : Cursor :=
  ⟨e.index + e.len + 1, e.stop, e.ops ++ [op], c.heights.set (e.label.base + e.results),
    c.labels.tail, es⟩

/-- At the end of the body of a construct. -/
def leave (c : Cursor) (e : Enclosing) (es : List Enclosing) : Cursor :=
  match e.arm with
  | .block => c.close e es (.block c.ops)
  | .loop => c.close e es (.loop c.ops)
  | .only slot => c.close e es (.cond slot c.ops [])
  | .first slot alt height =>
    ⟨e.index + alt + 1, e.index + e.len, [], { c.heights with current := height }, c.labels,
      { e with arm := .second slot c.ops } :: es⟩
  | .second slot yes => c.close e es (.cond slot yes c.ops)

/-- **A step of the compiler.** -/
def step (b : Body) (c : Cursor) : Course :=
  if c.pos < c.stop then
    match b.code[c.pos]? with
    | none => .ended (.error .aborted)
    | some i =>
      match c.advance b i with
      | .ok c' => .running c'
      | .error e => .ended (.error e)
  else
    match c.around with
    | [] => .ended (.ok (c.ops, c.heights))
    | e :: es => .running (c.leave e es)

/-- So many steps, or less if there are none left. -/
def run (b : Body) : Nat → Cursor → Course
  | 0, c => .running c
  | n + 1, c =>
    match c.step b with
    | .running c' => c'.run b n
    | .ended r => .ended r

/-- At the start of a body. -/
def start (b : Body) : Cursor where
  pos := 0
  stop := b.code.size

variable {b : Body} {c c' : Cursor} {r : Answer}

/-! ### What a step can be -/

/-- A cursor at the first instruction of a body. -/
def Enters (c c' : Cursor) : Prop :=
  ∃ arm l results len stop heights,
    c' = ⟨c.pos + 1, stop, [], heights, l :: c.labels,
      ⟨arm, l, results, c.pos, len, c.stop, c.ops⟩ :: c.around⟩

theorem enters_of_enter {heights : Heights} {arm : Arm} {args : BlockArgs}
    {isLoop : Bool} {len stop : Nat} (h : c.enter b heights arm args isLoop len stop = .ok c') :
    c.Enters c' := by
  obtain ⟨⟨l, results⟩, -, h⟩ := bind_eq_ok.1 h
  exact ⟨arm, l, results, len, stop, heights, (pure_eq_ok.1 h).symm⟩

/-- A cursor behind an instruction. -/
def Passes (c c' : Cursor) : Prop :=
  ∃ pos ops heights, c.pos < pos ∧ c' = { c with pos, ops, heights }

/-- At an instruction a construct is entered, or the instruction is passed. -/
theorem advance_cases {i : Instr} (hstop : c.pos < c.stop) (h : c.advance b i = .ok c') :
    c.Enters c' ∨ c.Passes c' := by
  cases i with
  | block args len | loop args len => exact Or.inl (enters_of_enter h)
  | cond args alt len =>
    obtain ⟨_, -, h⟩ := bind_eq_ok.1 h
    dsimp only at h
    split at h
    · exact Or.inl (enters_of_enter h)
    · exact Or.inl (enters_of_enter h)
  | plain | orElse | endBlock | brTable | brLabel =>
    obtain ⟨⟨e, heights⟩, -, h⟩ := bind_eq_ok.1 h
    cases e with
    | op | nothing =>
      exact Or.inr ⟨c.pos + 1, _, heights, Nat.lt_succ_self _, (pure_eq_ok.1 h).symm⟩
    | last => exact Or.inr ⟨c.stop, _, heights, hstop, (pure_eq_ok.1 h).symm⟩

/-- **What a step can be**: a construct is entered, an instruction is passed, or
a body ends. -/
theorem step_cases (h : c.step b = .running c') :
    (c.pos < b.code.size ∧ (c.Enters c' ∨ c.Passes c')) ∨ ∃ e es, c.around = e :: es ∧
    c' = c.leave e es := by
  rw [step] at h
  split at h
  · next hstop =>
    split at h
    · cases h
    · next i hi =>
      split at h
      · next c'' hadvance =>
        obtain rfl := Course.running.inj h
        exact Or.inl ⟨(Array.getElem?_eq_some_iff.1 hi).1, advance_cases hstop hadvance⟩
      · cases h
  · split at h
    · cases h
    · next e es haround => exact Or.inr ⟨e, es, haround, (Course.running.inj h).symm⟩

/-! ### Termination -/

/-- How long it can take to compile a sequence that starts so far before the end
of the code: each instruction comes with up to three sequences that start behind
it. -/
def weight : Nat → Nat
  | 0 => 1
  | d + 1 => 3 * weight d + 1

theorem weight_pos (d : Nat) : 0 < weight d := by
  cases d <;> simp [weight]

theorem weight_mono {d d' : Nat} (h : d ≤ d') : weight d ≤ weight d' := by
  induction h with
  | refl => exact Nat.le_refl _
  | step _ ih => exact Nat.le_trans ih (by rw [weight]; omega)

/-- The weight of what is left to do of a construct in code of a size, its body
apart. -/
def pending (size : Nat) (e : Enclosing) : Nat :=
  weight (size - (e.index + e.len + 1)) +
    match e.arm with
    | .first _ alt _ => weight (size - (e.index + alt + 1))
    | _ => 0

/-- **A bound on the steps that are left.** -/
def potential (b : Body) (c : Cursor) : Nat :=
  weight (b.code.size - c.pos) + c.around.foldr (fun e n => pending b.code.size e + n) 0

theorem potential_pos (b : Body) (c : Cursor) : 0 < c.potential b :=
  Nat.add_pos_left (weight_pos _) _

/-- What a construct leaves to do is behind its start. -/
theorem pending_le {size : Nat} {e : Enclosing} :
    pending size e ≤ 2 * weight (size - (e.index + 1)) := by
  have hbehind (n : Nat) : weight (size - (e.index + n + 1)) ≤ weight (size - (e.index + 1)) :=
    weight_mono (by omega)
  have hlen := hbehind e.len
  rw [pending]
  split
  · next alt _ _ =>
    have halt := hbehind alt
    omega
  · omega

/-- **A step lowers the potential**, wherever it sets the cursor. -/
theorem potential_of_step (h : c.step b = .running c') : c'.potential b < c.potential b := by
  obtain ⟨hpos, hcases⟩ | ⟨e, es, haround, rfl⟩ := step_cases h
  · obtain ⟨d, hd⟩ : ∃ d, b.code.size - c.pos = d + 1 := ⟨b.code.size - (c.pos + 1), by omega⟩
    have hbehind : b.code.size - (c.pos + 1) = d := by omega
    obtain ⟨arm, l, results, len, stop, heights, rfl⟩ | ⟨pos, ops, heights, hlt, rfl⟩ := hcases
    · have hpending : pending b.code.size ⟨arm, l, results, c.pos, len, c.stop, c.ops⟩ ≤
        _ := pending_le
      simp only [potential, List.foldr_cons, hd, weight, hbehind] at hpending ⊢
      omega
    · have hweight : weight (b.code.size - pos) ≤ weight d := weight_mono (by omega)
      simp only [potential, hd, weight]
      omega
  · have hweight := weight_pos (b.code.size - c.pos)
    rw [potential, potential, haround, leave]
    cases harm : e.arm <;> simp only [close, pending, harm, List.foldr_cons] <;> omega

/-- A potential is enough to come to an end. -/
theorem ends_of_potential {n : Nat} (h : c.potential b ≤ n) : ∃ r, c.run b n = .ended r := by
  induction n generalizing c with
  | zero => exact absurd h (Nat.not_le_of_lt (potential_pos b c))
  | succ n ih =>
    cases hstep : c.step b with
    | running c' =>
      obtain ⟨r, hr⟩ :=
        ih (c := c') (Nat.le_of_lt_succ (Nat.lt_of_lt_of_le (potential_of_step hstep) h))
      exact ⟨r, by simp only [run, hstep, hr]⟩
    | ended r => exact ⟨r, by simp only [run, hstep]⟩

/-- The second block ends behind the first, around it. At the end of the first
block the cursor goes back, and two instructions are compiled once more. -/
example :
    let b : Body :=
      ⟨{}, #[.block .empty 2, .block .empty 3, .plain .nop, .plain .nop, .plain .nop], 0, 0⟩
    ((List.range 9).map fun n => match (start b).run b n with
      | .running c => c.pos
      | .ended _ => 0) = [0, 1, 2, 3, 4, 5, 3, 4, 5] := by
  decide

/-! ### Nesting -/

/-- Constructs start behind those around them, and before a bound. -/
def Ordered : List Enclosing → Nat → Prop
  | [], _ => True
  | e :: es, bound => e.index < bound ∧ Ordered es e.index

theorem Ordered.mono {es : List Enclosing} {bound bound' : Nat} (h : Ordered es bound)
    (hle : bound ≤ bound') : Ordered es bound' := by
  cases es with
  | nil => trivial
  | cons e es => exact ⟨Nat.lt_of_lt_of_le h.1 hle, h.2⟩

/-- There are not more than places to start at. -/
theorem length_of_ordered {es : List Enclosing} {bound : Nat} (h : Ordered es bound) :
    es.length ≤ bound := by
  induction es generalizing bound with
  | nil => exact Nat.zero_le _
  | cons e es ih => exact Nat.lt_of_le_of_lt (ih h.2) h.1

/-- **A step keeps the constructs around in their order**, before the cursor and
in the code. -/
theorem ordered_of_step (hn : Ordered c.around (min c.pos b.code.size))
    (h : c.step b = .running c') : Ordered c'.around (min c'.pos b.code.size) := by
  obtain ⟨hpos, hcases⟩ | ⟨e, es, haround, rfl⟩ := step_cases h
  · obtain ⟨arm, l, results, len, stop, heights, rfl⟩ | ⟨pos, ops, heights, hlt, rfl⟩ := hcases
    · exact ⟨by simp only; omega, hn.mono (Nat.min_le_left _ _)⟩
    · exact hn.mono (by simp only; omega)
  · rw [haround] at hn
    obtain ⟨hlt, hes⟩ := hn
    rw [leave]
    cases e.arm with
    | block | loop | only | second => exact hes.mono (by simp only [close]; omega)
    | first => exact ⟨by simp only; omega, hes⟩

theorem ordered_of_run {n : Nat} (hn : Ordered c.around (min c.pos b.code.size))
    (h : c.run b n = .running c') : Ordered c'.around (min c'.pos b.code.size) := by
  induction n generalizing c with
  | zero => exact Course.running.inj h ▸ hn
  | succ n ih =>
    rw [run] at h
    split at h
    · next c₁ hstep => exact ih (ordered_of_step hn hstep) h
    · cases h

/-! ### Agreement with the recursion -/

/-- What a construct becomes, once the body at hand is compiled. -/
def completed (b : Body) (e : Enclosing) (labels : List Label) (ops : List Code) (h : Heights) :
    Except Halt (Code × Heights) :=
  match e.arm with
  | .block => .ok (.block ops, h)
  | .loop => .ok (.loop ops, h)
  | .only slot => .ok (.cond slot ops [], h)
  | .first slot alt height => do
    let (no, h) ← b.compileSeq labels (e.index + alt + 1) (e.index + e.len)
      { h with current := height }
    return (.cond slot ops no, h)
  | .second slot yes => .ok (.cond slot yes ops, h)

/-- What the recursion makes of the constructs around, once the body at hand is
compiled. -/
def resume (b : Body) : List Enclosing → List Label → List Code → Heights → Answer
  | [], _, ops, h => .ok (ops, h)
  | e :: es, labels, ops, h => do
    let (op, h) ← completed b e labels ops h
    let (rest, h) ← b.compileSeq labels.tail (e.index + e.len + 1) e.stop
      (h.set (e.label.base + e.results))
    resume b es labels.tail (e.ops ++ op :: rest) h

/-- **What the recursion makes of the code**, from a cursor on. -/
def answer (b : Body) (c : Cursor) : Answer := do
  let (ops, h) ← b.compileSeq c.labels c.pos c.stop c.heights
  resume b c.around c.labels (c.ops ++ ops) h

theorem answer_start (b : Body) : (start b).answer b = b.compileSeq [] 0 b.code.size {} := by
  simp only [answer, start, resume, List.nil_append]
  exact bind_pure _

/-- At the end of a sequence nothing is added to it. -/
theorem answer_of_le (h : c.stop ≤ c.pos) :
    c.answer b = resume b c.around c.labels c.ops c.heights := by
  rw [answer, Body.compileSeq, if_neg (Nat.not_lt_of_le h), ok_bind]
  exact congrArg (resume b c.around c.labels · c.heights) (List.append_nil _)

theorem answer_advance {i : Instr} (hstop : c.pos < c.stop) (hi : b.code[c.pos]? = some i) :
    c.answer b = c.advance b i >>= answer b := by
  obtain ⟨hlt, hget⟩ := Array.getElem?_eq_some_iff.1 hi
  rw [answer, Body.compileSeq, if_pos hstop, dif_pos hlt]
  cases i with
  | block args len | loop args len =>
    simp only [hget, advance, enter, bind_assoc, pure_bind, answer, resume, completed, ok_bind,
      List.tail_cons, List.nil_append]
  | cond args alt len =>
    simp only [hget, advance, bind_assoc]
    refine bind_congr fun _ => ?_
    by_cases halt : alt = 0
    · simp only [if_pos halt, enter, bind_assoc, pure_bind, answer, resume, completed, ok_bind,
        List.tail_cons, List.nil_append]
    · simp only [if_neg halt, enter, bind_assoc, pure_bind, answer, resume, completed,
        List.tail_cons, List.nil_append]
  | plain | orElse | endBlock | brTable | brLabel =>
    simp only [hget, advance, bind_assoc]
    refine bind_congr ?_
    rintro ⟨e, h⟩
    cases e with
    | op op => simp only [bind_assoc, pure_bind, answer, List.append_assoc, List.singleton_append]
    | last op => simp only [pure_bind, answer_of_le, Nat.le_refl]
    | nothing => simp only [pure_bind, answer]

theorem answer_leave {e : Enclosing} {es : List Enclosing} (hstop : c.stop ≤ c.pos)
    (haround : c.around = e :: es) : c.answer b = (c.leave e es).answer b := by
  rw [answer_of_le hstop, haround, resume, leave]
  cases harm : e.arm <;>
    simp only [completed, harm, close, answer, resume, ok_bind, bind_assoc, pure_bind,
      List.append_assoc, List.singleton_append, List.nil_append]

/-- What the recursion makes of the code, from the end of some steps on. -/
def Course.answer (b : Body) : Course → Answer
  | .running c => c.answer b
  | .ended r => r

/-- **A step leaves the answer as it is**, and the last one gives it. -/
theorem answer_step (b : Body) (c : Cursor) : (c.step b).answer b = c.answer b := by
  rw [step]
  split
  · next hstop =>
    split
    · next hnone =>
      have hlt : ¬c.pos < b.code.size := Nat.not_lt_of_le (Array.getElem?_eq_none_iff.1 hnone)
      rw [answer, Body.compileSeq, if_pos hstop, dif_neg hlt]
      rfl
    · next i hi =>
      rw [answer_advance hstop hi]
      split
      · next hadvance =>
        rw [hadvance]
        rfl
      · next hadvance =>
        rw [hadvance]
        rfl
  · next hstop =>
    have hle := Nat.le_of_not_lt hstop
    split
    · next haround =>
      rw [answer_of_le hle, haround]
      rfl
    · next haround => exact (answer_leave hle haround).symm

theorem answer_run (b : Body) (n : Nat) (c : Cursor) : (c.run b n).answer b = c.answer b := by
  induction n generalizing c with
  | zero => rfl
  | succ n ih =>
    rw [run, ← answer_step b c]
    split
    · next c' hstep =>
      rw [hstep]
      exact ih c'
    · next hstep => rw [hstep]

/-- **The two compilers agree**, and the potential is enough for one to come to
an end. -/
theorem run_potential (b : Body) (c : Cursor) : c.run b (c.potential b) = .ended (c.answer b) := by
  obtain ⟨r, hr⟩ := ends_of_potential (Nat.le_refl (c.potential b))
  have hanswer := answer_run b (c.potential b) c
  rw [hr] at hanswer ⊢
  rw [← hanswer]
  rfl

end Cursor

end WasmEngine
