import WasmEngine.Operator.Lower
import WasmEngine.Operator.Tree
import WasmEngine.Proofs.Except
import WasmEngine.Proofs.Typing.Code

/-!
# Lowering goes by the tree

What the code builder makes of the operators of a tree, without its stack:
nested code by recursion on the tree (`WasmEngine.Tree.lower`), written out flat
(`WasmEngine.Nested.flatten`). The two agree from any state of the builder
(`WasmEngine.CodeBuilder.lowersTo`), and one succeeds exactly if the other does
and all distances fit (`WasmEngine.Nested.Fits`).

The point is that a body is visited on top of what is already open and leaves
the stack as it found it. So when an end is met, what is innermost on the stack
is the construct that the end belongs to, and the instructions since its opening
are those of its body.
-/

namespace WasmEngine

namespace Tree

/-- The nested code of a sequence. -/
def lower : Tree → Except ParseError Nested
  | .done => .ok .done
  | .simple op next =>
    match op with
    | .plain op => return .plain op (← next.lower)
    | .brTable labels default => return .brTable labels default (← next.lower)
    | .selectAs _ => return .plain .select (← next.lower)
    | .extended op => .error (.unsupportedOperator op.name)
  | .block o body next =>
    match o with
    | .block type => return .block (← type.lower) (← body.lower) (← next.lower)
    | .loop type => return .loop (← type.lower) (← body.lower) (← next.lower)
    | .tryTable _ _ => .error (.unsupportedOperator o.name)
  | .cond type body next => return .cond (← type.lower) (← body.lower) (← next.lower)
  | .condElse type body alt next =>
    return .condElse (← type.lower) (← body.lower) (← alt.lower) (← next.lower)

end Tree

namespace Nested

variable {code : Nested}

/-- All distances fit 32 bits. -/
def Fits : Nested → Prop
  | .done => True
  | .plain _ next | .brTable _ _ next => next.Fits
  | .block _ body next | .loop _ body next | .cond _ body next =>
    body.Fits ∧ body.size + 1 < 0x100000000 ∧ next.Fits
  | .condElse _ body alt next =>
    body.Fits ∧ alt.Fits ∧ body.size + alt.size + 2 < 0x100000000 ∧ next.Fits

theorem Fits.narrow (h : code.Fits) : code.Narrow := by
  induction code with
  | done => trivial
  | plain op next ih => exact ih h
  | brTable labels default next ih => exact ih h
  | block args body next ihbody ihnext | loop args body next ihbody ihnext
  | cond args body next ihbody ihnext =>
    exact ⟨ihbody h.1, ihnext h.2.2⟩
  | condElse args body alt next ihbody ihalt ihnext =>
    obtain ⟨hbody, halt, hsize, hnext⟩ := h
    exact ⟨by omega, ihbody hbody, ihalt halt, ihnext hnext⟩

/-- No distance is larger than all of the code. -/
theorem fits_of_size (h : code.size < 0x100000000) : code.Fits := by
  induction code with
  | done => trivial
  | plain op next ih | brTable labels default next ih =>
    rw [size] at h
    exact ih (by omega)
  | block args body next ihbody ihnext | loop args body next ihbody ihnext
  | cond args body next ihbody ihnext =>
    rw [size] at h
    exact ⟨ihbody (by omega), by omega, ihnext (by omega)⟩
  | condElse args body alt next ihbody ihalt ihnext =>
    rw [size] at h
    exact ⟨ihbody (by omega), ihalt (by omega), by omega, ihnext (by omega)⟩

end Nested

namespace CodeBuilder

variable {b b' : CodeBuilder} {c : Construct} {args : BlockArgs} {is js : List Instr}

/-! ### Ends -/

/-- More instructions, with nothing opened or closed. -/
def append (b : CodeBuilder) (is : List Instr) : CodeBuilder :=
  { b with code := b.code ++ is.toArray }

theorem append_append (b : CodeBuilder) (is js : List Instr) : (b.append is).append js =
    b.append (is ++ js) := by
  simp [append]

theorem append_nil (b : CodeBuilder) : b.append [] = b := by
  simp [append]

theorem emit_eq (b : CodeBuilder) (i : Instr) : b.emit i = b.append [i] := by
  simp [emit, append]

theorem enter_append (b : CodeBuilder) (c : Construct) (is : List Instr) :
    (b.enter c).append is =
    ⟨b.code ++ (c.instr 0 0 :: is).toArray, ⟨b.code.size, c⟩ :: b.opened⟩ := by
  simp [enter, append]

/-- The instruction behind given ones is replaced. -/
theorem patch_append (xs : Array Instr) (i j : Instr) (is : List Instr) :
    (xs ++ (i :: is).toArray).setIfInBounds xs.size j = xs ++ (j :: is).toArray := by
  rw [Array.setIfInBounds_append_right (Nat.le_refl _)]
  simp

theorem distance_append (xs : Array Instr) (is : List Instr) (opened : List Opened) (n : Nat) :
    distance ⟨xs ++ is.toArray, opened⟩ xs.size = .ok n ↔ is.length < 0x100000000 ∧
    is.length = n := by
  rw [distance, Array.size_append, List.size_toArray, Nat.add_sub_cancel_left]
  split <;> simp_all

/-- The end of a body closes the construct that was opened before it. -/
theorem close_enter (hc : c ≠ .orElse) :
    ((b.enter c).append is).close = .ok b' ↔
      is.length + 1 < 0x100000000 ∧
      b.append (c.instr 0 (is.length + 1) :: (is ++ [.endBlock])) = b' := by
  have hpatched (n : Nat) : emit ⟨b.code ++ (c.instr 0 n :: is).toArray, b.opened⟩ .endBlock =
      b.append (c.instr 0 n :: (is ++ [.endBlock])) := by
    simp [emit, append]
  rw [enter_append, close]
  cases c with
  | orElse => exact absurd rfl hc
  | block | loop | cond =>
    simp only [bind_eq_ok, distance_append, patch_append, hpatched, pure_eq_ok, List.length_cons,
      and_assoc, exists_and_left, exists_eq_left']

theorem closeCond_append (xs : Array Instr) (is : List Instr) (outer : List Opened) (pos : Nat) :
    closeCond ⟨xs ++ (.cond args 0 0 :: is).toArray, ⟨xs.size, .cond args⟩ :: outer⟩ pos = .ok b' ↔
      is.length + 1 < 0x100000000 ∧
      ⟨xs ++ (.cond args (pos - xs.size) (is.length + 1) :: is).toArray, outer⟩ = b' := by
  simp only [closeCond, bind_eq_ok, distance_append, patch_append, pure_eq_ok, List.length_cons,
    and_assoc, exists_and_left, exists_eq_left']

/-- The end of an alternative closes its conditional as well. -/
theorem close_enter_orElse :
    ((((b.enter (.cond args)).append is).enter .orElse).append js).close = .ok b' ↔
      is.length + js.length + 2 < 0x100000000 ∧
        b.append (.cond args (is.length + 1) (is.length + js.length + 2) ::
          (is ++ .orElse (js.length + 1) :: (js ++ [.endBlock]))) = b' := by
  have hwhole (n : Nat) :
    b.code ++ ((Construct.cond args).instr 0 0 :: is).toArray ++
    (Construct.orElse.instr 0 n :: js).toArray =
      b.code ++ (Instr.cond args 0 0 :: (is ++ .orElse n :: js)).toArray := by
    simp [Construct.instr]
  have hpos : (b.code ++ ((Construct.cond args).instr 0 0 :: is).toArray).size - b.code.size =
      is.length + 1 := by
    simp
  have hlength : (is ++ Instr.orElse (js.length + 1) :: js).length + 1 =
      is.length + js.length + 2 := by
    simp
    omega
  rw [enter_append, enter_append, close]
  simp only [bind_eq_ok, distance_append, patch_append, pure_eq_ok, List.length_cons, and_assoc,
    exists_and_left, exists_eq_left']
  simp only [hwhole, closeCond_append, hpos, hlength, and_assoc, exists_and_left, exists_eq_left']
  simp only [append, emit]
  constructor
  · rintro ⟨-, hlt, rfl⟩
    simp [hlt]
  · -- the distance of the alternative is less than that of its conditional
    rintro ⟨hlt, rfl⟩
    refine ⟨by omega, hlt, ?_⟩
    simp

theorem visit_endBlock (b : CodeBuilder) : b.visit .endBlock = b.close := rfl

/-! ### Trees -/

/-- **Operators are lowered to nested code**, where there is any and its
distances fit, from any state and with the stack as it was. -/
def LowersTo (ops : List Operator) (x : Except ParseError Nested) : Prop :=
  ∀ b b', ops.foldlM visit b = .ok b' ↔ ∃ code, x = .ok code ∧ code.Fits ∧
    b.append code.flatten = b'

section

variable {op : Operator} {type : BlockType} {ops os alts : List Operator}
  {x y z : Except ParseError Nested}

theorem lowersTo_done : LowersTo [] (.ok .done) := by
  intro b b'
  simp [Nested.Fits, Nested.flatten, append_nil, pure_eq_ok]

theorem lowersTo_error (hop : ∀ b, ∃ e, visit b op = .error e) (e : ParseError) :
    LowersTo (op :: ops) (.error e) := by
  intro b b'
  obtain ⟨e', he⟩ := hop b
  simp [List.foldlM_cons, bind_eq_ok, he]

/-- An operator that adds instructions. -/
theorem LowersTo.simple (hnext : LowersTo ops y) (hop : ∀ b, visit b op = .ok (b.append is))
    {wrap : Nested → Nested} (hfits : ∀ next, (wrap next).Fits ↔ next.Fits)
    (hflatten : ∀ next, (wrap next).flatten = is ++ next.flatten) :
    LowersTo (op :: ops) (do return wrap (← y)) := by
  intro b b'
  simp only [List.foldlM_cons, hop, ok_bind, hnext _ _, bind_eq_ok, pure_eq_ok, append_append]
  constructor
  · rintro ⟨next, hnext, hfit, rfl⟩
    exact ⟨_, ⟨next, hnext, rfl⟩, (hfits next).2 hfit, by rw [hflatten]⟩
  · rintro ⟨_, ⟨next, hnext, rfl⟩, hfit, rfl⟩
    exact ⟨next, hnext, (hfits next).1 hfit, by rw [hflatten]⟩

/-- A construct with one arm. -/
theorem LowersTo.arm (hbody : LowersTo os x) (hnext : LowersTo ops y) {c : BlockArgs → Construct}
    (hc : ∀ args, c args ≠ .orElse) (hop : ∀ b, visit b op = do return b.enter (c (← type.lower)))
    {wrap : BlockArgs → Nested → Nested → Nested}
    (hfits : ∀ args body next, (wrap args body next).Fits ↔
      body.Fits ∧ body.size + 1 < 0x100000000 ∧ next.Fits)
    (hflatten : ∀ args body next, (wrap args body next).flatten =
      (c args).instr 0 (body.flatten.length + 1) :: (body.flatten ++ .endBlock :: next.flatten)) :
    LowersTo (op :: (os ++ .endBlock :: ops)) (do return wrap (← type.lower) (← x) (← y)) := by
  intro b b'
  simp only [List.foldlM_cons, List.foldlM_append, hop, visit_endBlock, bind_eq_ok, pure_eq_ok]
  constructor
  · rintro ⟨_, ⟨args, hargs, rfl⟩, b₁, h₁, b₂, h₂, h₃⟩
    obtain ⟨body, hbody, hfit, rfl⟩ := (hbody _ _).1 h₁
    obtain ⟨hlt, rfl⟩ := (close_enter (hc args)).1 h₂
    obtain ⟨next, hnext, hfit', rfl⟩ := (hnext _ _).1 h₃
    refine ⟨_, ⟨args, hargs, body, hbody, next, hnext, rfl⟩, (hfits _ _ _).2 ⟨hfit, ?_, hfit'⟩, ?_⟩
    · rwa [← Nested.length_flatten]
    · rw [hflatten, append_append]
      simp
  · rintro ⟨_, ⟨args, hargs, body, hbody', next, hnext', rfl⟩, hfit, rfl⟩
    obtain ⟨hfit, hlt, hfit'⟩ := (hfits _ _ _).1 hfit
    rw [← Nested.length_flatten] at hlt
    refine ⟨_, ⟨args, hargs, rfl⟩, _, (hbody _ _).2 ⟨body, hbody', hfit, rfl⟩, _,
      (close_enter (hc args)).2 ⟨hlt, rfl⟩, (hnext _ _).2 ⟨next, hnext', hfit', ?_⟩⟩
    rw [hflatten, append_append]
    simp

/-- A conditional with an alternative. -/
theorem LowersTo.arms (hbody : LowersTo os x) (halt : LowersTo alts y) (hnext : LowersTo ops z) :
    LowersTo (.cond type :: (os ++ .orElse :: (alts ++ .endBlock :: ops)))
      (do return .condElse (← type.lower) (← x) (← y) (← z)) := by
  intro b b'
  simp only [List.foldlM_cons, List.foldlM_append, visit, bind_eq_ok, pure_eq_ok]
  constructor
  · rintro ⟨_, ⟨args, hargs, rfl⟩, b₁, h₁, _, rfl, b₂, h₂, b₃, h₃, h₄⟩
    obtain ⟨body, hbody, hfit, rfl⟩ := (hbody _ _).1 h₁
    obtain ⟨alt, halt, hfit', rfl⟩ := (halt _ _).1 h₂
    obtain ⟨hlt, rfl⟩ := close_enter_orElse.1 h₃
    obtain ⟨next, hnext, hfit'', rfl⟩ := (hnext _ _).1 h₄
    refine ⟨_, ⟨args, hargs, body, hbody, alt, halt, next, hnext, rfl⟩,
      ⟨hfit, hfit', ?_, hfit''⟩, ?_⟩
    · rwa [← Nested.length_flatten, ← Nested.length_flatten]
    · rw [Nested.flatten, append_append]
      simp
  · rintro ⟨_, ⟨args, hargs, body, hbody', alt, halt', next, hnext', rfl⟩,
      ⟨hfit, hfit', hlt, hfit''⟩, rfl⟩
    rw [← Nested.length_flatten, ← Nested.length_flatten] at hlt
    refine ⟨_, ⟨args, hargs, rfl⟩, _, (hbody _ _).2 ⟨body, hbody', hfit, rfl⟩, _, rfl, _,
      (halt _ _).2 ⟨alt, halt', hfit', rfl⟩, _, close_enter_orElse.2 ⟨hlt, rfl⟩,
      (hnext _ _).2 ⟨next, hnext', hfit'', ?_⟩⟩
    rw [Nested.flatten, append_append]
    simp

end

theorem visit_brTable (b : CodeBuilder) (labels : List Nat) (default : Nat) :
    b.visit (.simple (.brTable labels default)) =
      .ok (b.append (.brTable default labels.length :: labels.map .brLabel)) := by
  rw [visit, append]
  congr 2
  refine Array.toList_inj.1 ?_
  simp

/-- **The operators of a tree are lowered to its nested code.** -/
theorem lowersTo (t : Tree) : LowersTo t.operators t.lower := by
  induction t with
  | done => exact lowersTo_done
  | simple op next ih =>
    cases op with
    | plain | selectAs =>
      exact ih.simple (fun b => congrArg _ (b.emit_eq _)) (fun _ => .rfl) fun _ => rfl
    | brTable labels default =>
      exact ih.simple (fun b => b.visit_brTable _ _) (fun _ => .rfl) fun _ => rfl
    | extended op => exact lowersTo_error (fun _ => ⟨_, rfl⟩) _
  | block o body next ihbody ihnext =>
    cases o with
    | block | loop =>
      exact ihbody.arm ihnext (fun _ => by simp) (fun _ => rfl) (fun _ _ _ => .rfl) fun _ _ _ => rfl
    | tryTable type catches => exact lowersTo_error (fun _ => ⟨_, rfl⟩) _
  | cond type body next ihbody ihnext =>
    exact ihbody.arm ihnext (c := .cond) (fun _ => by simp) (fun _ => rfl)
      (fun _ _ _ => .rfl) fun _ _ _ => rfl
  | condElse type body alt next ihbody ihalt ihnext => exact ihbody.arms ihalt ihnext

end CodeBuilder

/-- **A body is lowered to the code of its tree.** -/
theorem Operator.lower_iff {t : Tree} {code : Array Instr} :
    Operator.lower (t.operators ++ [.endBlock]) = .ok code ↔ ∃ body, t.lower = .ok body ∧
    body.Fits ∧ body.code = code := by
  simp only [Operator.lower, List.foldlM_append, List.foldlM_cons, List.foldlM_nil, bind_pure,
    bind_eq_ok, CodeBuilder.lowersTo t _ _]
  constructor
  · rintro ⟨b, ⟨_, ⟨body, hbody, hfits, rfl⟩, hclose⟩, hcode⟩
    obtain rfl : CodeBuilder.emit _ _ = b := pure_eq_ok.1 hclose
    refine ⟨body, hbody, hfits, ?_⟩
    rw [← pure_eq_ok.1 hcode]
    simp [CodeBuilder.emit, CodeBuilder.append, Nested.code]
  · rintro ⟨body, hbody, hfits, rfl⟩
    refine ⟨_, ⟨_, ⟨body, hbody, hfits, rfl⟩, rfl⟩, ?_⟩
    simp [CodeBuilder.emit, CodeBuilder.append, Nested.code, pure_eq_ok]

end WasmEngine
