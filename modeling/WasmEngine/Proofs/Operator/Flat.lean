import WasmEngine.Proofs.Operator.Lower

/-!
# Flat code is well formed

What lowering promises to whoever runs flat code (`WasmEngine.Flat.WellFormed`),
by positions alone: a block, a loop and a conditional carry the distance to
the end that closes them, a conditional the distance to its own alternative,
which carries that to the end of both, and a branch table is followed by its
labels. Which end closes what is a matter of counting
(`WasmEngine.Flat.Direct`): a position is directly in a construct if all that
was opened behind its opening has been closed there, and not more.

Nothing is lost: the operators can be read off flat code again
(`WasmEngine.Flat.restore`).
-/

namespace WasmEngine

/-! ### Sequences of operators -/

namespace Operator

/-- **A properly nested sequence**: each construct is closed by an end, and a
conditional has at most one alternative. -/
inductive Nests : List Operator → Prop
  /-- Nothing. -/
  | nil : Nests []
  /-- An operator that stands alone. -/
  | simple {op ops} (next : Nests ops) : Nests (.simple op :: ops)
  /-- A block. -/
  | block {o body ops} (inner : Nests body) (next : Nests ops) :
    Nests (.opening o :: (body ++ .endBlock :: ops))
  /-- A conditional without an alternative. -/
  | cond {type body ops} (inner : Nests body) (next : Nests ops) :
    Nests (.cond type :: (body ++ .endBlock :: ops))
  /-- A conditional with an alternative. -/
  | condElse {type body alt ops} (yes : Nests body) (no : Nests alt) (next : Nests ops) :
    Nests (.cond type :: (body ++ .orElse :: (alt ++ .endBlock :: ops)))

theorem Nests.exists_tree {ops : List Operator} (h : Nests ops) :
    ∃ t : Tree, t.operators = ops := by
  induction h with
  | nil => exact ⟨.done, rfl⟩
  | simple _ ih =>
    obtain ⟨next, rfl⟩ := ih
    exact ⟨.simple _ next, rfl⟩
  | block _ _ ihbody ihnext =>
    obtain ⟨body, rfl⟩ := ihbody
    obtain ⟨next, rfl⟩ := ihnext
    exact ⟨.block _ body next, rfl⟩
  | cond _ _ ihbody ihnext =>
    obtain ⟨body, rfl⟩ := ihbody
    obtain ⟨next, rfl⟩ := ihnext
    exact ⟨.cond _ body next, rfl⟩
  | condElse _ _ _ ihbody ihalt ihnext =>
    obtain ⟨body, rfl⟩ := ihbody
    obtain ⟨alt, rfl⟩ := ihalt
    obtain ⟨next, rfl⟩ := ihnext
    exact ⟨.condElse _ body alt next, rfl⟩

end Operator

/-- Whether the engine has blocks of a type. -/
def BlockType.isSupported : BlockType → Bool
  | .value (.num _) | .empty | .func _ => true
  | .value _ => false

namespace Operator

/-- Whether the engine has an operator. -/
def isSupported : Operator → Bool
  | .simple (.extended _) | .opening (.tryTable _ _) => false
  | .opening (.block type) | .opening (.loop type) | .cond type => type.isSupported
  | _ => true

/-- The number of instructions that operators are lowered to. A branch table
makes one more for each of its labels. -/
def lowered : List Operator → Nat
  | [] => 0
  | .simple (.brTable labels _) :: ops => labels.length + 1 + lowered ops
  | _ :: ops => 1 + lowered ops

/-- An operator without the type of a selection. -/
def untyped : Operator → Operator
  | .simple (.selectAs _) => .simple (.plain .select)
  | op => op

end Operator

namespace Flat

/-! ### Counting -/

variable {code : List Instr} {pos : Nat}

/-- What an instruction opens or closes. -/
def level : Instr → Int
  | .block _ _ | .loop _ _ | .cond _ _ _ => 1
  | .endBlock => -1
  | _ => 0

/-- The constructs opened, less those closed. -/
def depth : List Instr → Int
  | [] => 0
  | i :: is => level i + depth is

@[simp]
theorem depth_append (is js : List Instr) : depth (is ++ js) = depth is + depth js := by
  induction is with
  | nil => simp [depth]
  | cons i is ih => simp [depth, ih, Int.add_assoc]

theorem depth_take_append (is js : List Instr) (k : Nat) :
    depth ((is ++ js).take k) = depth (is.take k) + depth (js.take (k - is.length)) := by
  rw [List.take_append, depth_append]

/-- The instructions strictly between two positions. -/
def between (code : List Instr) (i j : Nat) : List Instr := (code.drop (i + 1)).take (j - (i + 1))

/-- **A position directly in the construct that opens at another**, or at its
end: what was opened in between is closed, and the construct itself is not. -/
structure Direct (code : List Instr) (i j : Nat) : Prop where
  /-- It is behind the opening. -/
  lt : i < j
  /-- All that was opened is closed. -/
  closed : depth (between code i j) = 0
  /-- At no place before was more closed than opened. -/
  nonneg : ∀ k ≤ j, 0 ≤ depth (between code i k)

/-- **The end of a construct.** -/
def Closes (code : List Instr) (i j : Nat) : Prop := Direct code i j ∧ code[j]? = some .endBlock

/-- **Flat code whose distances are right.** -/
structure WellFormed (code : List Instr) : Prop where
  /-- A block and a loop carry the distance of their own end. -/
  blocks : ∀ {i args stop}, code[i]? = some (.block args stop) ∨ code[i]? = some (.loop args stop) →
    Closes code i (i + stop)
  /-- So does a conditional. -/
  conds : ∀ {i args alt stop}, code[i]? = some (.cond args alt stop) → Closes code i (i + stop)
  /-- Its other distance is zero if it has no alternative, and only then. -/
  noElse : ∀ {i args alt stop}, code[i]? = some (.cond args alt stop) →
    (alt = 0 ↔ ∀ j n, Direct code i j → code[j]? ≠ some (.orElse n))
  /-- Otherwise it is the distance of the alternative, and that of the
  alternative leads to the same end. -/
  ownElse : ∀ {i args alt stop}, code[i]? = some (.cond args alt stop) → alt ≠ 0 →
    Direct code i (i + alt) ∧ ∃ n, code[i + alt]? = some (.orElse n) ∧ i + alt + n = i + stop
  /-- There is no second alternative. -/
  oneElse : ∀ {i args alt stop j n}, code[i]? = some (.cond args alt stop) → Direct code i j →
    code[j]? = some (.orElse n) →
    j = i + alt
  /-- A branch table is followed by as many labels as it says, and no more. -/
  labels : ∀ {i default count}, code[i]? = some (.brTable default count) →
    (∀ k < count, ∃ d, code[i + 1 + k]? = some (.brLabel d)) ∧
    ∀ d, code[i + 1 + count]? ≠ some (.brLabel d)

/-! ### Segments -/

/-- Code that closes what it opens, and no more. -/
structure Balanced (is : List Instr) : Prop where
  /-- All that is opened is closed. -/
  closed : depth is = 0
  /-- No end comes before its opening. -/
  nonneg : ∀ k, 0 ≤ depth (is.take k)

variable {i : Instr} {is js rest : List Instr} {k n stop alt : Nat}

theorem balanced_nil : Balanced [] := ⟨rfl, by simp [depth]⟩

theorem Balanced.append (his : Balanced is) (hjs : Balanced js) : Balanced (is ++ js) := by
  refine ⟨by rw [depth_append, his.closed, hjs.closed, Int.add_zero], fun k => ?_⟩
  rw [depth_take_append]
  have := his.nonneg k
  have := hjs.nonneg (k - is.length)
  omega

theorem Balanced.cons (hi : level i = 0) (his : Balanced is) : Balanced (i :: is) := by
  refine ⟨by rw [depth, hi, his.closed, Int.add_zero], fun k => ?_⟩
  cases k with
  | zero => simp [depth]
  | succ k =>
    rw [List.take_succ_cons, depth, hi, Int.zero_add]
    exact his.nonneg k

/-- What a construct makes of its body. -/
theorem Balanced.wrap (hi : level i = 1) (his : Balanced is) :
    Balanced (i :: (is ++ [.endBlock])) := by
  have hend : level .endBlock = -1 := rfl
  refine ⟨by simp [depth, hi, his.closed, hend], fun k => ?_⟩
  cases k with
  | zero => simp [depth]
  | succ k =>
    rw [List.take_succ_cons, depth, hi, depth_take_append]
    have := his.nonneg k
    cases k - is.length <;> simp [depth, hend] <;> omega

/-- The code of a sequence: it is balanced, and each alternative is deeper
inside, in its conditional. -/
structure Segment (is : List Instr) : Prop extends Balanced is where
  /-- An alternative is not directly in the sequence. -/
  within : ∀ {k n}, is[k]? = some (.orElse n) → 0 < depth (is.take k)

theorem segment_nil : Segment [] := ⟨balanced_nil, by simp⟩

theorem Segment.append (his : Segment is) (hjs : Segment js) : Segment (is ++ js) := by
  refine ⟨his.toBalanced.append hjs.toBalanced, fun {k n} h => ?_⟩
  rw [depth_take_append]
  rcases Nat.lt_or_ge k is.length with hk | hk
  · rw [List.getElem?_append_left hk] at h
    have := his.within h
    have := hjs.nonneg (k - is.length)
    omega
  · rw [List.getElem?_append_right hk] at h
    have := hjs.within h
    rw [List.take_of_length_le hk, his.closed]
    omega

theorem Segment.single (hi : level i = 0) (hne : ∀ n, i ≠ .orElse n) : Segment [i] := by
  refine ⟨balanced_nil.cons hi, fun {k n} h => ?_⟩
  obtain ⟨-, rfl⟩ : k = 0 ∧ i = .orElse n := by simpa [List.getElem?_singleton] using h
  exact absurd rfl (hne n)

theorem Segment.wrap (hi : level i = 1) (his : Balanced is) :
    Segment (i :: (is ++ [.endBlock])) := by
  refine ⟨his.wrap hi, fun {k n} h => ?_⟩
  cases k with
  | zero =>
    obtain rfl : i = .orElse n := by simpa using h
    simp [level] at hi
  | succ k =>
    -- the last position holds the end
    have hk : k < is.length := by
      rw [List.getElem?_cons_succ] at h
      rcases Nat.lt_trichotomy k is.length with hk | rfl | hk
      · exact hk
      · simp at h
      · rw [List.getElem?_eq_none (by simp; omega)] at h
        cases h
    rw [List.take_succ_cons, depth, hi, List.take_append_of_le_length (Nat.le_of_lt hk)]
    have := his.nonneg k
    omega

theorem Segment.cons (hi : level i = 0) (hne : ∀ n, i ≠ .orElse n) (his : Segment is) :
    Segment (i :: is) :=
  (Segment.single hi hne).append his

theorem Segment.labels (his : Segment is) (labels : List Nat) :
    Segment (labels.map .brLabel ++ is) := by
  induction labels with
  | nil => exact his
  | cons d labels ih => exact ih.cons rfl (by simp)

/-- A construct in front of more code. -/
theorem Segment.construct (hi : level i = 1) (his : Balanced is) (hjs : Segment js) :
    Segment (i :: (is ++ .endBlock :: js)) := by
  have h := (Segment.wrap hi his).append hjs
  rwa [List.cons_append, List.append_assoc, List.singleton_append] at h

theorem segment_flatten (code : Nested) : Segment code.flatten := by
  induction code with
  | done => exact segment_nil
  | plain op next ih => exact ih.cons rfl (by simp)
  | brTable labels default next ih => exact (ih.labels labels).cons rfl (by simp)
  | block args body next ihbody ihnext | loop args body next ihbody ihnext
  | cond args body next ihbody ihnext =>
    exact .construct rfl ihbody.toBalanced ihnext
  | condElse args body alt next ihbody ihalt ihnext =>
    have h :=
      Segment.construct (i := .cond args (body.flatten.length + 1)
        (body.flatten.length + alt.flatten.length + 2)) rfl
      (ihbody.toBalanced.append (ihalt.toBalanced.cons (i := .orElse (alt.flatten.length + 1)) rfl))
        ihnext
    rwa [List.append_assoc, List.cons_append] at h

/-! ### What an instruction says about those behind it -/

/-- A place at the level of the start. -/
structure Level (rest : List Instr) (n : Nat) : Prop where
  /-- All that was opened is closed. -/
  closed : depth (rest.take n) = 0
  /-- At no place before was more closed than opened. -/
  nonneg : ∀ k ≤ n, 0 ≤ depth (rest.take k)

theorem Balanced.level (his : Balanced is) (rest : List Instr) : Level (is ++ rest) is.length := by
  refine ⟨by rw [List.take_left, his.closed], fun k hk => ?_⟩
  rw [List.take_append_of_le_length hk]
  exact his.nonneg k

/-- Nothing beyond the end is at the level of the body. -/
theorem Level.le_length (h : Level (is ++ .endBlock :: rest) n) (his : Balanced is) :
    n ≤ is.length := by
  refine Nat.le_of_not_lt fun hlt => ?_
  have hbeyond := h.nonneg (is.length + 1) hlt
  rw [depth_take_append, List.take_of_length_le (Nat.le_succ _), his.closed,
    Nat.add_sub_cancel_left, List.take_succ_cons, List.take_zero] at hbeyond
  exact absurd hbeyond (by decide)

/-- A place behind balanced code, seen from there. -/
theorem Level.behind (h : Level (is ++ rest) (is.length + n)) (his : Balanced is) :
    Level rest n := by
  have htake (k : Nat) : depth ((is ++ rest).take (is.length + k)) = depth (rest.take k) := by
    rw [depth_take_append, List.take_of_length_le (Nat.le_add_right _ _), his.closed,
      Nat.add_sub_cancel_left, Int.zero_add]
  refine ⟨htake n ▸ h.closed, fun k hk => ?_⟩
  exact htake k ▸ h.nonneg (is.length + k) (by omega)

/-- The end of a construct, from behind its opening. -/
def EndsIn (rest : List Instr) (stop : Nat) : Prop := ∃ n, stop = n + 1 ∧ Level rest n ∧
    rest[n]? = some .endBlock

theorem Balanced.endsIn (his : Balanced is) (rest : List Instr) :
    EndsIn (is ++ .endBlock :: rest) (is.length + 1) :=
  ⟨is.length, rfl, his.level _, by simp⟩

/-- The alternative of a conditional, from behind its opening: one with a
distance, or none. -/
structure ElseIn (rest : List Instr) (alt stop : Nat) : Prop where
  /-- A distance other than zero leads to the alternative. -/
  own : alt ≠ 0 → ∃ n s, alt = n + 1 ∧ Level rest n ∧ rest[n]? = some (.orElse s) ∧ alt + s = stop
  /-- Every alternative is the one that it leads to. -/
  one : ∀ {n s}, Level rest n → rest[n]? = some (.orElse s) → alt = n + 1

/-- Without an alternative, there is none. -/
theorem Segment.elseIn (his : Segment is) (rest : List Instr) (stop : Nat) :
    ElseIn (is ++ .endBlock :: rest) 0 stop := by
  refine ⟨fun h => absurd rfl h, fun {n s} hlevel hn => ?_⟩
  exfalso
  rcases Nat.lt_or_eq_of_le (hlevel.le_length his.toBalanced) with hlt | rfl
  · rw [List.getElem?_append_left hlt] at hn
    have hdeep := his.within hn
    rw [← List.take_append_of_le_length (Nat.le_of_lt hlt), hlevel.closed] at hdeep
    exact absurd hdeep (Int.lt_irrefl 0)
  · simp at hn

theorem Segment.elseIn_orElse (his : Segment is) (hjs : Segment js) (rest : List Instr) :
    ElseIn (is ++ .orElse (js.length + 1) :: (js ++ .endBlock :: rest)) (is.length + 1)
      (is.length + js.length + 2) := by
  refine ⟨fun _ => ⟨is.length, js.length + 1, rfl, his.toBalanced.level _, by simp, by omega⟩,
    fun {n s} hlevel hn => ?_⟩
  rcases Nat.lt_trichotomy n is.length with hlt | rfl | hlt
  · rw [List.getElem?_append_left hlt] at hn
    have hdeep := his.within hn
    rw [← List.take_append_of_le_length (Nat.le_of_lt hlt), hlevel.closed] at hdeep
    exact absurd hdeep (Int.lt_irrefl 0)
  · rfl
  · -- behind the alternative it is like a body without one
    obtain ⟨m, rfl⟩ : ∃ m, n = (is ++ [Instr.orElse (js.length + 1)]).length + m :=
      ⟨n - is.length - 1, by simp; omega⟩
    rw [← List.singleton_append, ← List.append_assoc] at hlevel hn
    have hbehind := hlevel.behind (his.toBalanced.append (balanced_nil.cons rfl))
    rw [List.getElem?_append_right (Nat.le_add_right _ _), Nat.add_sub_cancel_left] at hn
    exact absurd ((hjs.elseIn rest 0).one hbehind hn) (by omega)

/-- The labels of a branch table, from behind it. -/
structure LabelsIn (rest : List Instr) (count : Nat) : Prop where
  /-- There are that many. -/
  labels : ∀ k < count, ∃ d, rest[k]? = some (.brLabel d)
  /-- There are not more. -/
  done : ∀ d, rest[count]? ≠ some (.brLabel d)

/-- **What an instruction says about those behind it.** -/
def Tells : Instr → List Instr → Prop
  | .block _ stop, rest | .loop _ stop, rest => EndsIn rest stop
  | .cond _ alt stop, rest => EndsIn rest stop ∧ ElseIn rest alt stop
  | .brTable _ count, rest => LabelsIn rest count
  | _, _ => True

/-- All instructions say so. -/
def Sound : List Instr → Prop
  | [] => True
  | i :: is => Tells i is ∧ Sound is

theorem Sound.tells (h : Sound code) (hi : code[pos]? = some i) :
    Tells i (code.drop (pos + 1)) := by
  induction code generalizing pos with
  | nil => simp at hi
  | cons j is ih =>
    cases pos with
    | zero => exact Option.some.inj hi ▸ h.1
    | succ pos => exact ih h.2 hi

theorem Sound.labels (his : Sound is) (labels : List Nat) : Sound (labels.map .brLabel ++ is) := by
  induction labels with
  | nil => exact his
  | cons d labels ih => exact ⟨trivial, ih⟩

/-- Code that does not start with a label. -/
def Starts (is : List Instr) : Prop := ∀ d, is[0]? ≠ some (.brLabel d)

theorem starts_flatten (code : Nested) (h : Starts rest) : Starts (code.flatten ++ rest) := by
  cases code with
  | done => exact h
  | plain | brTable | block | loop | cond | condElse => intro d; simp [Nested.flatten]

/-- **Flattened code is sound**, whatever sound code is behind it. -/
theorem sound_flatten (code : Nested) (hrest : Sound rest) (hstarts : Starts rest) :
    Sound (code.flatten ++ rest) := by
  induction code generalizing rest with
  | done => exact hrest
  | plain op next ih => exact ⟨trivial, ih hrest hstarts⟩
  | brTable labels default next ih =>
    rw [Nested.flatten, List.cons_append, List.append_assoc]
    refine ⟨⟨fun k hk => ?_, fun d => ?_⟩, (ih hrest hstarts).labels labels⟩
    · exact ⟨labels[k], by simp [List.getElem?_append_left, hk]⟩
    · have := starts_flatten next hstarts d
      simpa [List.getElem?_append_right] using this
  | block args body next ihbody ihnext | loop args body next ihbody ihnext =>
    rw [Nested.flatten, List.cons_append, List.append_assoc, List.cons_append]
    exact ⟨(segment_flatten body).toBalanced.endsIn _, ihbody ⟨trivial, ihnext hrest hstarts⟩
      (by simp [Starts])⟩
  | cond args body next ihbody ihnext =>
    rw [Nested.flatten, List.cons_append, List.append_assoc, List.cons_append]
    exact ⟨⟨(segment_flatten body).toBalanced.endsIn _, (segment_flatten body).elseIn _ _⟩,
      ihbody ⟨trivial, ihnext hrest hstarts⟩ (by simp [Starts])⟩
  | condElse args body alt next ihbody ihalt ihnext =>
    have hbody := segment_flatten body
    have halt := segment_flatten alt
    rw [Nested.flatten, List.cons_append, List.append_assoc, List.cons_append,
      List.append_assoc, List.cons_append]
    refine ⟨⟨?_, hbody.elseIn_orElse halt _⟩,
      ihbody ⟨trivial, ihalt ⟨trivial, ihnext hrest hstarts⟩ (by simp [Starts])⟩ (by simp [Starts])⟩
    have h :=
      (hbody.toBalanced.append (halt.toBalanced.cons (i := .orElse (alt.flatten.length + 1))
        rfl)).endsIn (next.flatten ++ rest)
    rwa [List.append_assoc, List.cons_append, List.length_append, List.length_cons] at h

/-! ### Positions -/

theorem direct_iff : Direct code pos (pos + 1 + n) ↔ Level (code.drop (pos + 1)) n := by
  have hbetween (k : Nat) : between code pos (pos + 1 + k) = (code.drop (pos + 1)).take k := by
    rw [between, Nat.add_sub_cancel_left]
  constructor
  · intro h
    exact ⟨hbetween n ▸ h.closed, fun k hk => hbetween k ▸ h.nonneg _ (by omega)⟩
  · intro h
    refine ⟨by omega, (hbetween n).symm ▸ h.closed, fun k hk => ?_⟩
    exact h.nonneg (k - (pos + 1)) (by omega)

theorem EndsIn.closes (h : EndsIn (code.drop (pos + 1)) stop) : Closes code pos (pos + stop) := by
  obtain ⟨n, rfl, hlevel, hend⟩ := h
  rw [List.getElem?_drop] at hend
  rw [Nat.add_comm n, ← Nat.add_assoc]
  exact ⟨direct_iff.2 hlevel, hend⟩

section

variable {code : List Instr} {pos : Nat} {args : BlockArgs}

theorem Sound.ownElse (h : Sound code) (hi : code[pos]? = some (.cond args alt stop))
    (hne : alt ≠ 0) :
    Direct code pos (pos + alt) ∧ ∃ n, code[pos + alt]? = some (.orElse n) ∧
    pos + alt + n = pos + stop := by
  obtain ⟨n, s, rfl, hlevel, hn, hs⟩ := (h.tells hi).2.own hne
  rw [List.getElem?_drop] at hn
  rw [Nat.add_comm n, ← Nat.add_assoc]
  exact ⟨direct_iff.2 hlevel, s, hn, by omega⟩

theorem Sound.oneElse (h : Sound code) (hi : code[pos]? = some (.cond args alt stop))
    (hdirect : Direct code pos k) (hk : code[k]? = some (.orElse n)) : k = pos + alt := by
  obtain ⟨m, rfl⟩ : ∃ m, k = pos + 1 + m := ⟨k - (pos + 1), by have := hdirect.lt; omega⟩
  rw [← List.getElem?_drop] at hk
  have := (h.tells hi).2.one (direct_iff.1 hdirect) hk
  omega

theorem Sound.wellFormed (h : Sound code) : WellFormed code where
  blocks := by
    rintro pos args stop (hi | hi)
    · exact EndsIn.closes (h.tells hi)
    · exact EndsIn.closes (h.tells hi)
  conds hi := (h.tells hi).1.closes
  noElse := by
    intro pos args alt stop hi
    constructor
    · rintro rfl j n hdirect hj
      exact absurd (h.oneElse hi hdirect hj) (Nat.ne_of_gt hdirect.lt)
    · intro hnone
      refine Decidable.byContradiction fun hne => ?_
      obtain ⟨hdirect, n, hn, -⟩ := h.ownElse hi hne
      exact hnone _ _ hdirect hn
  ownElse := h.ownElse
  oneElse := h.oneElse
  labels := by
    intro pos default count hi
    have hlabels := h.tells hi
    simp only [← List.getElem?_drop]
    exact ⟨hlabels.labels, hlabels.done⟩

end

end Flat

/-! ### Reading the operators off flat code -/

/-- The type of a block, from its signature. -/
def BlockArgs.source : BlockArgs → BlockType
  | .empty => .empty
  | .value t => .value (.num t)
  | .func i => .func i

namespace Flat

/-- An instruction in front of operators that have been read already. Its
distances are dropped; a label waits for its table, and nothing else stands
between the two. -/
def prepend (i : Instr) (labels : List Nat) (ops : List Operator) :
    Option (List Nat × List Operator) :=
  match i, labels with
  | .brLabel d, _ => some (d :: labels, ops)
  | .brTable default count, _ =>
    if labels.length = count then some ([], .simple (.brTable labels default) :: ops) else none
  | .plain op, [] => some ([], .simple (.plain op) :: ops)
  | .block args _, [] => some ([], .opening (.block args.source) :: ops)
  | .loop args _, [] => some ([], .opening (.loop args.source) :: ops)
  | .cond args _ _, [] => some ([], .cond args.source :: ops)
  | .orElse _, [] => some ([], .orElse :: ops)
  | .endBlock, [] => some ([], .endBlock :: ops)
  | _, _ :: _ => none

/-- The labels in front of flat code, and the operators behind them. -/
def collect : List Instr → Option (List Nat × List Operator)
  | [] => some ([], [])
  | i :: is => (collect is).bind fun (labels, ops) => prepend i labels ops

/-- **The operators of flat code.** -/
def restore (code : List Instr) : Option (List Operator) :=
  match collect code with
  | some ([], ops) => some ops
  | _ => none

theorem collect_labels {labels waiting : List Nat} {ops : List Operator}
    (h : collect is = some (waiting, ops)) :
    collect (labels.map .brLabel ++ is) = some (labels ++ waiting, ops) := by
  induction labels with
  | nil => exact h
  | cons d labels ih => simp [collect, ih, prepend]

theorem collect_cons {op : Operator} {ops : List Operator}
    (hi : prepend i [] ops = some ([], op :: ops)) (h : collect is = some ([], ops)) :
    collect (i :: is) = some ([], op :: ops) := by
  rw [collect, h]
  exact hi

end Flat

theorem BlockType.lower_of_isSupported {type : BlockType} (h : type.isSupported) :
    ∃ args, type.lower = .ok args ∧ args.source = type := by
  cases type with
  | empty => exact ⟨.empty, rfl, rfl⟩
  | func i => exact ⟨.func i, rfl, rfl⟩
  | value t =>
    cases t with
    | num v => exact ⟨.value v, rfl, rfl⟩
    | v128 | ref => simp [BlockType.isSupported] at h

theorem Operator.lowered_append (ops os : List Operator) :
    lowered (ops ++ os) = lowered ops + lowered os := by
  induction ops with
  | nil => simp [lowered]
  | cons op ops ih =>
    rw [List.cons_append, lowered.eq_def, lowered.eq_def (op :: ops)]
    split <;> simp_all <;> omega

namespace Flat

/-- **Code keeps operators**: it has as many instructions as they are lowered
to, and they are read off it, whatever is behind. -/
structure Keeps (ops : List Operator) (code : Nested) : Prop where
  /-- The number of instructions. -/
  size : code.size = Operator.lowered ops
  /-- The operators. -/
  collect : ∀ {rest os}, collect rest = some ([], os) →
    collect (code.flatten ++ rest) = some ([], ops.map Operator.untyped ++ os)

section

variable {body alt next : Nested} {ops os alts : List Operator} {type : BlockType}
  {args : BlockArgs}

theorem Keeps.plain (h : Keeps ops next) {op : Plain} {source : Operator}
    (hsource : source.untyped = .simple (.plain op))
    (hwidth : ∀ ops, Operator.lowered (source :: ops) = 1 + Operator.lowered ops) :
    Keeps (source :: ops) (.plain op next) where
  size := by rw [Nested.size, h.size, hwidth, Nat.add_comm]
  collect hrest := by
    rw [List.map_cons, hsource]
    exact collect_cons rfl (h.collect hrest)

theorem Keeps.brTable (h : Keeps ops next) (labels : List Nat) (default : Nat) :
    Keeps (.simple (.brTable labels default) :: ops) (.brTable labels default next) where
  size := by
    rw [Nested.size, h.size, Operator.lowered]
    omega
  collect hrest := by
    rw [Nested.flatten, List.cons_append, List.append_assoc, Flat.collect,
      collect_labels (h.collect hrest), List.append_nil]
    simp [prepend, Operator.untyped]

/-- A construct with one arm. -/
theorem Keeps.arm (hbody : Keeps os body) (hnext : Keeps ops next) {source : Operator}
    {i : Instr} {code : Nested}
    (hwidth : ∀ ops, Operator.lowered (source :: ops) = 1 + Operator.lowered ops)
    (hsource : source.untyped = source) (hi : ∀ ops, prepend i [] ops = some ([], source :: ops))
    (hsize : code.size = body.size + next.size + 2)
    (hflatten : code.flatten = i :: (body.flatten ++ .endBlock :: next.flatten)) :
    Keeps (source :: (os ++ .endBlock :: ops)) code where
  size := by
    rw [hsize, hbody.size, hnext.size, hwidth, Operator.lowered_append, Operator.lowered]
    · omega
    · simp
  collect hrest := by
    have h := hbody.collect (collect_cons (i := .endBlock) rfl (hnext.collect hrest))
    have hend : Operator.untyped .endBlock = .endBlock := rfl
    rw [hflatten]
    simpa [hsource, hend] using collect_cons (hi _) h

theorem Keeps.condElse (hbody : Keeps os body) (halt : Keeps alts alt) (hnext : Keeps ops next)
    (args : BlockArgs) :
    Keeps (.cond args.source :: (os ++ .orElse :: (alts ++ .endBlock :: ops)))
      (.condElse args body alt next) where
  size := by
    simp only [Nested.size, hbody.size, halt.size, hnext.size, Operator.lowered,
      Operator.lowered_append]
    omega
  collect hrest := by
    have h := halt.collect (collect_cons (i := .endBlock) rfl (hnext.collect hrest))
    have h := hbody.collect (collect_cons (i := .orElse (alt.flatten.length + 1)) rfl h)
    rw [Nested.flatten]
    simpa [Operator.untyped] using collect_cons rfl h

end

end Flat

open Flat in
/-- **Supported operators can be lowered, and are kept.** -/
theorem Tree.exists_lower (t : Tree) (h : ∀ op ∈ t.operators, op.isSupported) :
    ∃ code, t.lower = .ok code ∧ Keeps t.operators code := by
  induction t with
  | done => exact ⟨.done, rfl, rfl, fun h => h⟩
  | simple op next ih =>
    obtain ⟨hop, hnext⟩ := List.forall_mem_cons.1 h
    obtain ⟨code, hcode, hkeeps⟩ := ih hnext
    cases op with
    | plain op =>
      exact ⟨.plain op code, by simp only [lower, hcode]; rfl, hkeeps.plain rfl fun _ => rfl⟩
    | brTable labels default =>
      exact ⟨.brTable labels default code, by simp only [lower, hcode]; rfl,
        hkeeps.brTable labels default⟩
    | selectAs type =>
      exact ⟨.plain .select code, by simp only [lower, hcode]; rfl, hkeeps.plain rfl fun _ => rfl⟩
    | extended op => simp [Operator.isSupported] at hop
  | block o body next ihbody ihnext =>
    rw [operators, List.forall_mem_cons, List.forall_mem_append, List.forall_mem_cons] at h
    obtain ⟨hop, hbody, -, hnext⟩ := h
    obtain ⟨bodyCode, hbodyCode, hbody⟩ := ihbody hbody
    obtain ⟨nextCode, hnextCode, hnext⟩ := ihnext hnext
    cases o with
    | block type =>
      obtain ⟨args, hargs, rfl⟩ := BlockType.lower_of_isSupported hop
      exact ⟨.block args bodyCode nextCode, by simp only [lower, hargs, hbodyCode, hnextCode]; rfl,
        hbody.arm hnext (fun _ => rfl) rfl (fun _ => rfl) rfl rfl⟩
    | loop type =>
      obtain ⟨args, hargs, rfl⟩ := BlockType.lower_of_isSupported hop
      exact ⟨.loop args bodyCode nextCode, by simp only [lower, hargs, hbodyCode, hnextCode]; rfl,
        hbody.arm hnext (fun _ => rfl) rfl (fun _ => rfl) rfl rfl⟩
    | tryTable type catches => simp [Operator.isSupported] at hop
  | cond type body next ihbody ihnext =>
    rw [operators, List.forall_mem_cons, List.forall_mem_append, List.forall_mem_cons] at h
    obtain ⟨hop, hbody, -, hnext⟩ := h
    obtain ⟨bodyCode, hbodyCode, hbody⟩ := ihbody hbody
    obtain ⟨nextCode, hnextCode, hnext⟩ := ihnext hnext
    obtain ⟨args, hargs, rfl⟩ := BlockType.lower_of_isSupported hop
    exact ⟨.cond args bodyCode nextCode, by simp only [lower, hargs, hbodyCode, hnextCode]; rfl,
      hbody.arm hnext (fun _ => rfl) rfl (fun _ => rfl) rfl rfl⟩
  | condElse type body alt next ihbody ihalt ihnext =>
    rw [operators, List.forall_mem_cons, List.forall_mem_append, List.forall_mem_cons,
      List.forall_mem_append, List.forall_mem_cons] at h
    obtain ⟨hop, hbody, -, halt, -, hnext⟩ := h
    obtain ⟨bodyCode, hbodyCode, hbody⟩ := ihbody hbody
    obtain ⟨altCode, haltCode, halt⟩ := ihalt halt
    obtain ⟨nextCode, hnextCode, hnext⟩ := ihnext hnext
    obtain ⟨args, hargs, rfl⟩ := BlockType.lower_of_isSupported hop
    exact ⟨.condElse args bodyCode altCode
      nextCode, by simp only [lower, hargs, hbodyCode, haltCode,
        hnextCode]; rfl, hbody.condElse halt hnext args⟩

/-! ### Constructs without an end -/

/-- Whether an operator opens a construct. -/
def Operator.opens : Operator → Bool
  | .opening _ | .cond _ => true
  | _ => false

/-- **A sequence that leaves a construct open**: behind the opening there are
nowhere more ends than openings. -/
def Operator.LeavesOpen (ops : List Operator) : Prop :=
  ∃ before op behind, ops = before ++ op :: behind ∧ op.opens = true ∧
    ∀ k ≤ behind.length, (behind.take k).count .endBlock ≤ (behind.take k).countP Operator.opens

namespace CodeBuilder

variable {b b' : CodeBuilder}

/-- The constructs that wait for an end of their own. -/
def waiting (b : CodeBuilder) : Nat := b.opened.countP fun o => o.construct != .orElse

theorem waiting_closeCond {pos : Nat} (h : b.closeCond pos = .ok b') :
    b.waiting = b'.waiting + 1 := by
  rw [closeCond] at h
  split at h
  · cases h
  · next start construct outer hopened =>
    obtain ⟨stop, -, h⟩ := bind_eq_ok.1 h
    split at h
    · obtain rfl := pure_eq_ok.1 h
      simp [waiting, hopened]
    · cases h

/-- An end closes one construct at most. -/
theorem waiting_close (h : b.close = .ok b') : b.waiting ≤ b'.waiting + 1 := by
  rw [close] at h
  split at h
  · next hopened => simp [waiting, hopened]
  · next pos construct outer hopened =>
    obtain ⟨stop, -, h⟩ := bind_eq_ok.1 h
    split at h
    · obtain ⟨b₁, hcond, h⟩ := bind_eq_ok.1 h
      obtain rfl := pure_eq_ok.1 h
      have := waiting_closeCond hcond
      simp_all [waiting, emit]
    · obtain rfl := pure_eq_ok.1 h
      simp only [waiting, hopened, emit, List.countP_cons]
      split <;> omega

theorem waiting_enter (b : CodeBuilder) {c : Construct} (hc : c ≠ .orElse) : (b.enter c).waiting =
    b.waiting + 1 := by
  simp [waiting, enter, hc]

/-- **A step of the builder**: what is opened waits, until as many ends have
come. -/
theorem waiting_visit {op : Operator} (h : b.visit op = .ok b') :
    b.waiting + [op].countP Operator.opens ≤ b'.waiting + [op].count .endBlock := by
  cases op with
  | simple op =>
    have hopened : b'.opened = b.opened := by
      cases op with
      | plain | brTable | selectAs =>
        obtain rfl := pure_eq_ok.1 h
        rfl
      | extended => cases h
    simp [waiting, hopened, Operator.opens]
  | opening o =>
    cases o with
    | block type | loop type =>
      obtain ⟨args, -, h⟩ := bind_eq_ok.1 h
      rw [← pure_eq_ok.1 h, waiting_enter b (by simp)]
      simp [Operator.opens]
    | tryTable => cases h
  | cond type =>
    obtain ⟨args, -, h⟩ := bind_eq_ok.1 h
    rw [← pure_eq_ok.1 h, waiting_enter b (by simp)]
    simp [Operator.opens]
  | orElse =>
    rw [← pure_eq_ok.1 h]
    simp [waiting, enter, Operator.opens]
  | endBlock =>
    have := waiting_close h
    simpa [Operator.opens] using this

/-- A run of the builder. The induction is on the operators, with the count by
which the openings before them are ahead. -/
theorem waiting_visits {ops : List Operator} (h : ops.foldlM visit b = .ok b') {n : Nat}
    (hn : n ≤ b.waiting)
    (hopen : ∀ k ≤ ops.length, (ops.take k).count .endBlock < (ops.take k).countP Operator.opens +
      n) : 0 < b'.waiting := by
  induction ops generalizing b n with
  | nil =>
    have := hopen 0 (Nat.le_refl 0)
    obtain rfl := pure_eq_ok.1 h
    simp at this
    omega
  | cons op ops ih =>
    rw [List.foldlM_cons] at h
    obtain ⟨b₁, hop, h⟩ := bind_eq_ok.1 h
    have hstep := waiting_visit hop
    have hhere := hopen 1 (by simp)
    rw [List.take_succ_cons, List.take_zero] at hhere
    refine ih h (n := n + [op].countP Operator.opens - [op].count .endBlock)
      (by omega) fun k hk => ?_
    have := hopen (k + 1) (Nat.succ_le_succ hk)
    rw [List.take_succ_cons, ← List.singleton_append, List.count_append, List.countP_append] at this
    omega

end CodeBuilder

/-- A sequence that leaves a construct open is refused. -/
theorem Operator.LeavesOpen.refused {ops : List Operator} (h : LeavesOpen ops) :
    ∃ e, Operator.lower ops = .error e := by
  obtain ⟨before, op, behind, rfl, hop, hopen⟩ := h
  cases hlower : Operator.lower (before ++ op :: behind) with
  | error e => exact ⟨e, rfl⟩
  | ok code =>
    simp only [Operator.lower, List.foldlM_append, List.foldlM_cons, bind_eq_ok] at hlower
    obtain ⟨b, ⟨b₁, -, b₂, hvisit, hbehind⟩, hcode⟩ := hlower
    have hone : 1 ≤ b₂.waiting := by
      have hstep := CodeBuilder.waiting_visit hvisit
      have hne : op ≠ .endBlock := by
        rintro rfl
        cases hop
      rw [List.countP_singleton, if_pos hop, List.count_singleton,
        if_neg (by simpa using hne)] at hstep
      omega
    have hpos := CodeBuilder.waiting_visits hbehind hone fun k hk => Nat.lt_succ_of_le (hopen k hk)
    split at hcode
    · next hopened => simp [CodeBuilder.waiting, hopened] at hpos
    · cases hcode

/-- **Lowering loses nothing and gets all distances right.** A properly nested
sequence of operators that the engine has, closed by the end of the function, is
lowered to well-formed flat code that ends with a return and from which the
operators can be read off, selections without their types. A sequence that
leaves a construct open is refused. -/
theorem Operator.lower_wellFormed (ops : List Operator) :
    (Nests ops → (∀ op ∈ ops, op.isSupported = true) → lowered (ops ++ [.endBlock]) < 0x100000000 →
      ∃ code, Operator.lower (ops ++ [.endBlock]) = .ok (code ++ [Instr.plain .ret]).toArray ∧
        Flat.WellFormed (code ++ [.plain .ret]) ∧ Flat.restore code = some (ops.map untyped)) ∧
    (LeavesOpen ops → ∃ e, Operator.lower ops = .error e) := by
  refine ⟨fun hnests hsupported hsize => ?_, LeavesOpen.refused⟩
  obtain ⟨t, rfl⟩ := hnests.exists_tree
  obtain ⟨body, hbody, hkeeps⟩ := t.exists_lower hsupported
  refine ⟨body.flatten, ?_, ?_, ?_⟩
  · have hfits : body.Fits := by
      refine Nested.fits_of_size (Nat.lt_of_le_of_lt ?_ hsize)
      rw [hkeeps.size, lowered_append]
      exact Nat.le_add_right _ _
    exact lower_iff.2 ⟨body, hbody, hfits, rfl⟩
  · have hsound : Flat.Sound (body.flatten ++ [.plain .ret]) :=
      Flat.sound_flatten body ⟨trivial, trivial⟩ (by simp [Flat.Starts])
    exact hsound.wellFormed
  · have h : Flat.collect (body.flatten ++ []) = some ([], t.operators.map untyped ++ []) :=
      hkeeps.collect rfl
    rw [List.append_nil, List.append_nil] at h
    rw [Flat.restore, h]

/-- A conditional with a branch table in its first arm and a loop in its
alternative. -/
def Operator.chooser : List Operator :=
  [.simple (.plain (.localGet 0)), .cond .empty,
    .opening (.block .empty), .simple (.plain (.localGet 0)), .simple (.brTable [0, 1] 0),
    .endBlock, .orElse, .opening (.loop (.value (.num .i32))), .simple (.plain (.const (.i32 1))),
    .simple (.plain (.const (.i32 2))), .simple (.plain (.localGet 0)),
    .simple (.selectAs (.num .i32)), .endBlock, .simple (.plain .drop), .endBlock]

theorem Operator.nests_chooser : Nests chooser :=
  .simple (@Nests.condElse .empty
    [.opening (.block .empty), .simple (.plain (.localGet 0)),
      .simple (.brTable [0, 1] 0), .endBlock]
    [.opening (.loop (.value (.num .i32))), .simple (.plain (.const (.i32 1))),
      .simple (.plain (.const (.i32 2))), .simple (.plain (.localGet 0)),
      .simple (.selectAs (.num .i32)), .endBlock, .simple (.plain .drop)] []
    (@Nests.block (.block .empty) [.simple (.plain (.localGet 0)), .simple (.brTable [0, 1] 0)] []
      (.simple (.simple .nil)) .nil) (@Nests.block (.loop (.value (.num .i32)))
      [.simple (.plain (.const (.i32 1))), .simple (.plain (.const (.i32 2))),
        .simple (.plain (.localGet 0)), .simple (.selectAs (.num .i32))] [.simple (.plain .drop)]
      (.simple (.simple (.simple (.simple .nil)))) (.simple .nil))
    .nil)

/-- The chooser is lowered, and without the end of its conditional it is not. -/
theorem Operator.chooser_wellFormed :
    (Nests chooser ∧
      (∃ code, Operator.lower (chooser ++ [.endBlock]) = .ok (code ++ [Instr.plain .ret]).toArray ∧
      Flat.WellFormed (code ++ [.plain .ret]) ∧ Flat.restore code = some (chooser.map untyped))) ∧
    LeavesOpen chooser.dropLast ∧ ∃ e, Operator.lower chooser.dropLast = .error e := by
  have hopen : LeavesOpen chooser.dropLast :=
    ⟨[.simple (.plain (.localGet 0))], .cond .empty, chooser.dropLast.drop 2, rfl, rfl, by decide⟩
  exact ⟨⟨nests_chooser, (lower_wellFormed chooser).1 nests_chooser (by decide) (by decide)⟩, hopen,
    (lower_wellFormed chooser.dropLast).2 hopen⟩

end WasmEngine
