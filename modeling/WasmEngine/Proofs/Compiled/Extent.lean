import WasmEngine.Proofs.Closed
import WasmEngine.Proofs.Compiled.Emission

/-!
# Compiled code stays in its frame

The size of a frame is the number of locals and the greatest height that the
compiler has seen. An operation names the slots that it gets at
(`WasmEngine.Code.slots`), and all of them are in the frame
(`WasmEngine.Compiled.FuncOf.slot_lt`): its operands are below the height where
it stands, and its results below the height behind it. So apart from the
functions that it calls, code neither reads nor writes outside
(`WasmEngine.Compiled.FuncOf.inFrame`).

A function that returns has its results on the operand stack when it does, so
that its frame has room for them next to the locals
(`WasmEngine.Compiled.FuncOf.results_le`). A function that never returns may
have less.
-/

namespace WasmEngine

open Run

variable {H α : Type}

/-! ### What a run gets at -/

namespace Activation

/-- Two states with the same world and the same values in some of their slots. -/
structure Agrees (S : Nat → Prop) (a b : Activation H) : Prop where
  /-- The world. -/
  world : a.world = b.world
  /-- The slots. -/
  slots : ∀ i, S i → a.slots[i]? = b.slots[i]?

/-- **A run gets at no other slots than these.** -/
structure Touches (S : Nat → Prop) (x : Run (Activation H) α) : Prop where
  /-- It does not read the others: where it starts from states that agree in
  these, it comes to the same. -/
  reads : ∀ {a b}, Agrees S a b → (x a).1 = (x b).1 ∧ Agrees S (x a).2 (x b).2
  /-- It does not write the others. -/
  writes : ∀ a {i}, ¬S i → (x a).2.slots[i]? = a.slots[i]?

variable {S : Nat → Prop} {slots slots' : Array Raw} {i j : Nat}

theorem lt_size_iff (h : slots[i]? = slots'[i]?) : i < slots.size ↔ i < slots'.size := by
  rw [← Nat.not_le, ← Nat.not_le, ← Array.getElem?_eq_none_iff, ← Array.getElem?_eq_none_iff, h]

theorem getElem?_setIfInBounds_congr {r : Raw} (hi : slots[i]? = slots'[i]?)
    (hj : slots[j]? = slots'[j]?) :
    (slots.setIfInBounds i r)[j]? = (slots'.setIfInBounds i r)[j]? := by
  rw [Array.getElem?_setIfInBounds, Array.getElem?_setIfInBounds, hj]
  simp only [lt_size_iff hi]

theorem getElem?_writeSlots_congr {rs : List Raw} (h : ∀ i, S i → slots[i]? = slots'[i]?)
    (hi : ∀ k < rs.length, S (i + k)) (hj : S j) :
    (writeSlots slots i rs)[j]? = (writeSlots slots' i rs)[j]? := by
  induction rs generalizing slots slots' i with
  | nil => exact h j hj
  | cons r rs ih =>
    refine ih (fun j hj => getElem?_setIfInBounds_congr (h i (hi 0 (Nat.succ_pos _))) (h j hj))
      fun k hk => ?_
    rw [Nat.add_right_comm]
    exact hi (k + 1) (Nat.succ_lt_succ hk)

theorem getElem?_writeSlots_of_not {rs : List Raw} (hi : ∀ k < rs.length, S (i + k)) (hj : ¬S j) :
    (writeSlots slots i rs)[j]? = slots[j]? := by
  induction rs generalizing slots i with
  | nil => rfl
  | cons r rs ih =>
    have hne : i ≠ j := by
      rintro rfl
      exact hj (hi 0 (Nat.succ_pos _))
    rw [writeSlots, ih fun k hk => ?_, Array.getElem?_setIfInBounds_ne hne]
    rw [Nat.add_right_comm]
    exact hi (k + 1) (Nat.succ_lt_succ hk)

theorem extract_congr {src len : Nat} (h : ∀ k < len, slots[src + k]? = slots'[src + k]?)
    (hle : src + len ≤ slots.size) (hle' : src + len ≤ slots'.size) :
    (slots.extract src (src + len)).toList = (slots'.extract src (src + len)).toList := by
  refine List.ext_getElem? fun k => ?_
  rw [Array.getElem?_toList, Array.getElem?_toList, Array.getElem?_extract, Array.getElem?_extract,
    Nat.min_eq_left hle, Nat.min_eq_left hle']
  split
  · exact h k (by omega)
  · rfl

theorem add_le_size_iff {src len : Nat} (h : ∀ k < len, slots[src + k]? = slots'[src + k]?)
    (hlen : len ≠ 0) : src + len ≤ slots.size ↔ src + len ≤ slots'.size := by
  have hlast := lt_size_iff (h (len - 1) (by omega))
  omega

namespace Touches

theorem closed : Closed (Only (Touches S (H := H))) where
  pure _ := ⟨fun h => ⟨rfl, h⟩, fun _ _ _ => rfl⟩
  fail _ := ⟨fun h => ⟨rfl, h⟩, fun _ _ _ => rfl⟩
  bind {_ _ x _ _ _} hx hg := by
    constructor
    · intro a b h
      obtain ⟨hsame, hagrees⟩ := hx.reads h
      rw [bind_apply, bind_apply]
      rcases hxa : x a with ⟨e | r, a'⟩ <;> rcases hxb :
        x b with ⟨e' | r', b'⟩ <;> rw [hxa, hxb] at hsame hagrees <;> cases hsame
      · exact ⟨rfl, hagrees⟩
      · exact (hg r).reads hagrees
    · intro a i hi
      have hleft := hx.writes a hi
      rw [bind_apply]
      rcases hxa : x a with ⟨e | r, a'⟩ <;> rw [hxa] at hleft
      · exact hleft
      · exact ((hg r).writes a' hi).trans hleft

theorem get (hi : S i) : Touches S (Activation.get i : Run (Activation H) Raw) := by
  constructor
  · intro a b h
    rw [Activation.get, Activation.get, h.slots i hi]
    split <;> exact ⟨rfl, h⟩
  · intro a j _
    rw [Activation.get]
    split <;> rfl

theorem set (hi : S i) (r : Raw) : Touches S (Activation.set i r : Run (Activation H) Unit) := by
  constructor
  · intro a b h
    rw [Activation.set, Activation.set]
    simp only [lt_size_iff (h.slots i hi)]
    split
    · exact ⟨rfl, h.world, fun j hj => getElem?_setIfInBounds_congr (h.slots i hi) (h.slots j hj)⟩
    · exact ⟨rfl, h⟩
  · intro a j hj
    rw [Activation.set]
    split
    · refine Array.getElem?_setIfInBounds_ne ?_
      rintro rfl
      exact hj hi
    · rfl

theorem move {src dst len : Nat} (h : ∀ k < len, S (src + k) ∧ S (dst + k)) :
    Touches S (Activation.move src dst len : Run (Activation H) Unit) := by
  -- A write is as long as the row that was read, which may have been cut off at the end of
  -- the slots.
  have hwritten (slots : Array Raw) (k : Nat)
      (hk : k < (slots.extract src (src + len)).toList.length) : S (dst + k) := by
    rw [Array.length_toList, Array.size_extract] at hk
    exact (h k (by omega)).2
  constructor
  · intro a b hab
    rw [Activation.move, Activation.move]
    split
    · exact ⟨rfl, hab⟩
    · next hne =>
      have hsrc (k : Nat) (hk : k < len) := hab.slots _ (h k hk).1
      have hdst (k : Nat) (hk : k < len) := hab.slots _ (h k hk).2
      simp only [add_le_size_iff hsrc (by omega), add_le_size_iff hdst (by omega)]
      split
      · next hle =>
        refine ⟨rfl, hab.world, fun j hj => ?_⟩
        show (writeSlots a.slots dst _)[j]? = (writeSlots b.slots dst _)[j]?
        rw [extract_congr hsrc ((add_le_size_iff hsrc (by omega)).2 hle.1) hle.1]
        exact getElem?_writeSlots_congr hab.slots (hwritten b.slots) hj
      · exact ⟨rfl, hab⟩
  · intro a j hj
    rw [Activation.move]
    split
    · rfl
    · split
      · exact getElem?_writeSlots_of_not (hwritten a.slots) hj
      · rfl

theorem onWorld (x : Run (World H) α) : Touches S (Activation.onWorld x) := by
  constructor
  · rintro ⟨slots, w⟩ ⟨slots', w'⟩ ⟨rfl, hslots⟩
    exact ⟨rfl, rfl, hslots⟩
  · intro a i _
    rfl

theorem ample : Activation.Ample S (fun {_} _ _ => True) (Only (Touches S (H := H))) where
  toClosed := closed
  get := get
  set r hi := set hi r
  move := move
  world _ := onWorld _

end Touches

end Activation

/-- Whatever is done to the world is of the kind that contains everything. -/
theorem World.ample_true : World.Ample (G := H) (H := H) fun {_} _ _ => True where
  pure _ := trivial
  fail _ := trivial
  bind _ _ := trivial
  see _ := trivial
  setGlobal _ _ := trivial
  storeValue _ _ _ _ := trivial
  memoryGrow _ := trivial
  memoryCopy _ _ _ := trivial
  memoryFill _ _ _ := trivial

/-- **An operation gets at the slots that it names**, its parts apart. -/
theorem Compiled.dispatch_touches {env : Env H} {c : Compiled} {S : Nat → Prop}
    {seq : List Code → Run (Activation H) Flow} {again : Unit → Run (Activation H) Flow}
    {call : Nat → Nat → Run (Activation H) Unit} {fp : Nat} {op : Code}
    (hop : ∀ i ∈ op.slots c.types, S (fp + i)) (hseq : ∀ ops, Activation.Touches S (seq ops))
    (hagain : Activation.Touches S (again ()))
    (hcall : ∀ func slot, Activation.Touches S (call func slot)) :
    Activation.Touches S (dispatch env c seq again call fp op) :=
  Activation.ample_dispatch Activation.Touches.ample World.ample_true seq again call (.refl env) hop
      hseq hagain fun func args =>
    hcall func (fp + args)

/-! ### The slots of compiled code -/

/-- An operation of a sequence, or of one of its parts. -/
inductive Code.Within (op : Code) : List Code → Prop
  /-- The first operation. -/
  | head {ops} : Within op (op :: ops)
  /-- An operation behind it. -/
  | tail {op' ops} (h : Within op ops) : Within op (op' :: ops)
  /-- An operation in a block. -/
  | block {body ops} (h : Within op body) : Within op (.block body :: ops)
  /-- An operation in a loop. -/
  | loop {body ops} (h : Within op body) : Within op (.loop body :: ops)
  /-- An operation in the first arm of a conditional. -/
  | yes {slot yes no ops} (h : Within op yes) : Within op (.cond slot yes no :: ops)
  /-- An operation in the second arm of a conditional. -/
  | no {slot yes no ops} (h : Within op no) : Within op (.cond slot yes no :: ops)

theorem Jump.slot_lt {j : Jump} {size : Nat} (hsrc : j.src + j.len ≤ size)
    (hdst : j.dst + j.len ≤ size) : ∀ i ∈ j.slots, i < size := by
  intro i hi
  rcases List.mem_append.1 hi with hi | hi <;> rw [List.mem_range'_1] at hi <;> omega

theorem FuncType.slot_lt {t : FuncType} {args size : Nat} (hparams : args + t.params.length ≤ size)
    (hresults : args + t.results.length ≤ size) : ∀ i ∈ t.slots args, i < size := by
  intro i hi
  rw [FuncType.slots, List.mem_range'_1] at hi
  omega

/-- How an operation without parts is left. -/
def Code.flows : Code → List Flow
  | .unreachable => []
  | .jump j => [j.flow]
  | .jumpIf _ j => [.next, j.flow]
  | .jumpTable _ targets default => (default :: targets).map Jump.flow
  | _ => [.next]

namespace Body

variable {b : Body} {sc : CodeScope} {types : List (List ValType)} {labels : List Label}
  {under top : Nat} {ts : List ValType} {sigs : Array FuncType}

theorem slot_returnFrom_lt {height : Nat} (hresults : b.results ≤ height) :
    ∀ i ∈ (b.returnFrom height).slots, i < b.locals + height := by
  refine Jump.slot_lt ?_ ?_
  · show b.locals + (height - b.results) + b.results ≤ b.locals + height
    omega
  · show 0 + b.results ≤ b.locals + height
    omega

/-- A branch moves values from the top of the operands to a label, which is at
or below the construct at hand. -/
theorem slot_jumpFrom_lt (henc : b.Encloses types labels under) {d height : Nat} {ls : List ValType}
    (hd : types[d]? = some ls) (hh : under + ls.length ≤ height) :
    ∀ i ∈ (b.jumpFrom labels height d).slots, i < b.locals + height := by
  rcases henc.label hd with ⟨base, hlabel⟩ | ⟨hlabel, hresults⟩
  · have hbase : base ≤ under := henc.base_le hlabel
    rw [jumpFrom, hlabel]
    refine Jump.slot_lt ?_ ?_
    · show b.locals + (height - ls.length) + ls.length ≤ b.locals + height
      omega
    · show b.locals + base + ls.length ≤ b.locals + height
      omega
  · rw [jumpFrom, hlabel]
    exact slot_returnFrom_lt (by omega)

/-- What needs no operation leaves no more operands than it takes. -/
theorem length_le_of_nothing {op : Plain} {ts' : List ValType} (hmod : sc.mod = b.mod)
    (hop : op.Typed sc types ts (some ts')) (hc : b.emit labels (under + ts.length) op = .nothing) :
    ts'.length ≤ ts.length := by
  cases hop with
  | @sig op ps rs ts hop =>
    cases op with
    | nop =>
      obtain ⟨rfl, rfl⟩ := Prod.mk.inj (Option.some.inj hop)
      exact Nat.le_refl _
    | call func =>
      simp only [Plain.signature?, hmod, Option.map_eq_some_iff] at hop
      obtain ⟨t, ht, -⟩ := hop
      simp [emit, ht] at hc
    | callIndirect type table =>
      simp only [Plain.signature?, hmod, Option.ite_none_right_eq_some,
        Option.map_eq_some_iff] at hop
      obtain ⟨-, t, ht, -⟩ := hop
      simp [emit, ht] at hc
    | drop => cases hop
    | _ => cases hc
  | drop => exact Nat.le_succ _
  | select | brIf => cases hc

section

variable (hmod : sc.mod = b.mod) (hlocals : sc.locals.length = b.locals)
  (hresults : sc.results.length = b.results) (hsigs : ∀ func, sigs[func]? = b.mod.funcType? func)
  (henc : b.Encloses types labels under)
include hmod hlocals hresults hsigs henc

/-- **The slots of a plain instruction** are below the heights in front of it
and behind it. -/
theorem slot_emit_lt {op : Plain} {after : Option (List ValType)} {c : Code}
    (hop : op.Typed sc types ts after) (htop : under + ts.length ≤ top)
    (hafter : ∀ ts', after = some ts' → under + ts'.length ≤ top)
    (hc : b.emit labels (under + ts.length) op = .op c ∨
      b.emit labels (under + ts.length) op = .last c) : ∀ i ∈ c.slots sigs, i < b.locals + top := by
  cases hop with
  | @sig op ps rs ts hop =>
    have htop' := hafter _ rfl
    rw [List.length_append, List.length_reverse] at htop htop' hc
    cases op with
    | call func =>
      simp only [Plain.signature?, hmod, Option.map_eq_some_iff, Prod.mk.injEq] at hop
      obtain ⟨t, ht, rfl, rfl⟩ := hop
      simp only [emit, ht, Emit.op.injEq, or_false, reduceCtorEq] at hc
      subst hc
      rw [Code.slots, hsigs, ht]
      exact FuncType.slot_lt (by simp only [slot]; omega) (by simp only [slot]; omega)
    | callIndirect type table =>
      simp only [Plain.signature?, hmod, Option.ite_none_right_eq_some, Option.map_eq_some_iff,
        Prod.mk.injEq] at hop
      obtain ⟨-, t, ht, rfl, rfl⟩ := hop
      -- The index into the table lies on the arguments.
      rw [List.length_append, List.length_singleton] at htop hc
      simp only [emit, ht, Emit.op.injEq, or_false, reduceCtorEq] at hc
      subst hc
      refine List.forall_mem_cons.2 ⟨by simp only [slot]; omega, ?_⟩
      exact FuncType.slot_lt (by simp only [slot]; omega) (by simp only [slot]; omega)
    | localGet i | localSet i | localTee i =>
      have hi : i < b.locals := by
        obtain ⟨t, ht, -⟩ := Option.map_eq_some_iff.1 hop
        rw [← hlocals]
        exact (List.getElem?_eq_some_iff.1 ht).1
      obtain ⟨hps, hrs⟩ := Plain.length_signature? rfl hop
      simp only [Plain.effect] at hps hrs
      simp only [emit, Emit.op.injEq, or_false, reduceCtorEq] at hc
      subst hc
      intro j hj
      simp only [Code.slots, slot, List.mem_cons, List.not_mem_nil, or_false] at hj
      omega
    | globalGet | globalSet | load | store | memorySize | memoryGrow | memoryCopy | memoryFill
    | const | unary | binary =>
      obtain ⟨hps, hrs⟩ := Plain.length_signature? rfl hop
      simp only [Plain.effect] at hps hrs
      simp only [emit, Emit.op.injEq, or_false, reduceCtorEq] at hc
      subst hc
      intro j hj
      simp only [Code.slots, slot, List.mem_cons, List.not_mem_nil, or_false] at hj
      omega
    | nop => simp [emit] at hc
    | _ => simp [Plain.signature?] at hop
  | drop => simp [emit] at hc
  | select =>
    simp only [emit, Emit.op.injEq, or_false, reduceCtorEq, List.length_cons] at hc htop
    subst hc
    intro j hj
    simp only [Code.slots, slot, List.mem_cons, List.not_mem_nil, or_false] at hj
    omega
  | @brIf depth ls ts hd =>
    simp only [emit, Emit.op.injEq, or_false, reduceCtorEq, List.length_cons, List.length_append,
      List.length_reverse] at hc htop
    subst hc
    refine List.forall_mem_cons.2 ⟨by simp only [slot]; omega, fun i hi => ?_⟩
    have hlt := slot_jumpFrom_lt henc hd (by omega) i hi
    omega
  | @br depth ls ts hd =>
    simp only [emit, Emit.last.injEq, false_or, reduceCtorEq, List.length_append,
      List.length_reverse] at hc htop
    subst hc
    intro i hi
    have hlt := slot_jumpFrom_lt henc hd (by omega) i hi
    omega
  | ret =>
    simp only [emit, Emit.last.injEq, false_or, reduceCtorEq, List.length_append,
      List.length_reverse] at hc htop
    subst hc
    intro i hi
    have hlt := slot_returnFrom_lt (by omega) i hi
    omega
  | unreachable =>
    obtain rfl : c = .unreachable := by simpa [emit, eq_comm] using hc
    exact List.forall_mem_nil _

/-- **All slots of typed code are in the frame.** -/
theorem Emits.slot_lt {code : Nested} {us : List ValType} {ops : List Code}
    (h : Emits b sc top types labels under code ts us ops) (htop : under + ts.length ≤ top)
    {op : Code} (hop : op.Within ops) : ∀ i ∈ op.slots sigs, i < b.locals + top := by
  induction h with
  | done => cases hop
  | @op types labels under op' next ts ts' us c ops htyped hc hafter _ ih =>
    have hconstruct := isConstruct_of_emit (.inl hc)
    cases hop with
    | head =>
      refine slot_emit_lt hmod hlocals hresults hsigs henc htyped htop (fun ts'' h => ?_) (.inl hc)
      obtain rfl := Option.some.inj h
      exact hafter
    | tail hop => exact ih henc hafter hop
    | block | loop | yes | no => cases hconstruct
  | nothing htyped hc _ ih =>
    -- What becomes no operation does not make the stack higher.
    have hle := length_le_of_nothing hmod htyped hc
    exact ih henc (by omega) hop
  | last htyped hc =>
    have hconstruct := isConstruct_of_emit (.inr hc)
    cases hop with
    | head =>
      exact slot_emit_lt hmod hlocals hresults hsigs henc htyped htop
        (fun _ h => nomatch h) (.inr hc)
    | tail hop => cases hop
    | block | loop | yes | no => cases hconstruct
  | @brTable types labels under targets default next ts us htargets =>
    rw [List.length_cons] at htop
    cases hop with
    | head =>
      refine List.forall_mem_cons.2 ⟨by simp only [slot]; omega, fun i hi => ?_⟩
      obtain ⟨j, hj, hi⟩ := List.mem_flatMap.1 hi
      rw [← List.map_cons] at hj
      obtain ⟨d, hd, rfl⟩ := List.mem_map.1 hj
      obtain ⟨ls, rest, hls, rfl⟩ := htargets d hd
      rw [List.length_append, List.length_reverse] at htop hi
      have hlt := slot_jumpFrom_lt henc hls (by omega) i hi
      omega
    | tail hop => cases hop
  | block _ hafter _ _ ihbody ihnext =>
    rw [List.length_append, List.length_reverse] at htop
    cases hop with
    | head => exact List.forall_mem_nil _
    | block hop =>
      exact ihbody (henc.construct (Nat.le_add_right _ _) rfl)
        (by rw [List.length_reverse]; omega) hop
    | tail hop => exact ihnext henc (by rw [List.length_append, List.length_reverse]; omega) hop
  | loop _ hafter _ _ ihbody ihnext =>
    rw [List.length_append, List.length_reverse] at htop
    cases hop with
    | head => exact List.forall_mem_nil _
    | loop hop =>
      exact ihbody (henc.construct (Nat.le_add_right _ _) rfl)
        (by rw [List.length_reverse]; omega) hop
    | tail hop => exact ihnext henc (by rw [List.length_append, List.length_reverse]; omega) hop
  | cond _ hafter _ _ ihbody ihnext =>
    rw [List.length_cons, List.length_append, List.length_reverse] at htop
    cases hop with
    | head => exact List.forall_mem_cons.2 ⟨by simp only [slot]; omega, List.forall_mem_nil _⟩
    | yes hop =>
      exact ihbody (henc.construct (Nat.le_add_right _ _) rfl)
        (by rw [List.length_reverse]; omega) hop
    | no hop => cases hop
    | tail hop => exact ihnext henc (by rw [List.length_append, List.length_reverse]; omega) hop
  | condElse _ hafter _ _ _ ihyes ihno ihnext =>
    rw [List.length_cons, List.length_append, List.length_reverse] at htop
    cases hop with
    | head => exact List.forall_mem_cons.2 ⟨by simp only [slot]; omega, List.forall_mem_nil _⟩
    | yes hop =>
      exact ihyes (henc.construct (Nat.le_add_right _ _) rfl)
        (by rw [List.length_reverse]; omega) hop
    | no hop =>
      exact ihno (henc.construct (Nat.le_add_right _ _) rfl)
        (by rw [List.length_reverse]; omega) hop
    | tail hop => exact ihnext henc (by rw [List.length_append, List.length_reverse]; omega) hop

end

/-! ### How code is left -/

/-- **How typed code may be left**: to a label in scope, or, from a function
whose results have been on the stack, out of the function. -/
def Leaves (b : Body) (top : Nat) (labels : List Label) : Flow → Prop
  | .next => True
  | .branch depth => depth < labels.length
  | .ret => b.results ≤ top

/-- A block is left to a label around it. -/
theorem Leaves.leaveBlock {l : Label} {flow : Flow} (h : b.Leaves top (l :: labels) flow) :
    b.Leaves top labels flow.leaveBlock := by
  rcases flow with _ | _ | _
  · trivial
  · next depth =>
    cases depth with
    | zero => trivial
    | succ depth => exact Nat.lt_of_succ_lt_succ h
  · exact h

/-- A branch leaves code, and does not go on behind it. -/
theorem leaves_jumpFrom (henc : b.Encloses types labels under) {d height : Nat} {ls : List ValType}
    (hd : types[d]? = some ls) (hh : ls.length ≤ height) (htop : height ≤ top) :
    b.Leaves top labels (b.jumpFrom labels height d).flow ∧
    (b.jumpFrom labels height d).flow ≠ .next := by
  rcases henc.label hd with ⟨base, hlabel⟩ | ⟨hlabel, hresults⟩
  · rw [jumpFrom, hlabel]
    exact ⟨(List.getElem?_eq_some_iff.1 hlabel).1, Flow.noConfusion⟩
  · rw [jumpFrom, hlabel]
    refine ⟨?_, Flow.noConfusion⟩
    show b.results ≤ top
    omega

/-- An instruction with a signature goes on. -/
theorem flows_of_emit {op : Plain} {sig : List ValType × List ValType} {height : Nat} {c : Code}
    (hop : op.signature? sc = some sig)
    (hc : b.emit labels height op = .op c ∨ b.emit labels height op = .last c) :
    c.flows = [.next] := by
  cases op with
  | call | callIndirect =>
    simp only [emit] at hc
    split at hc
    · rcases hc with hc | hc
      · cases hc
        rfl
      · cases hc
    · rcases hc with hc | hc <;> cases hc
  | unreachable | br | brIf | ret | drop | select => cases hop
  | nop => rcases hc with hc | hc <;> cases hc
  | _ =>
    rcases hc with hc | hc
    · cases hc
      rfl
    · cases hc

/-- A plain instruction leaves code as the labels allow, and only one that goes
on leads to what is behind it. -/
theorem leaves_emit (hresults : sc.results.length = b.results)
    (henc : b.Encloses types labels under) {op : Plain} {after : Option (List ValType)} {c : Code}
    (hop : op.Typed sc types ts after) (htop : under + ts.length ≤ top)
    (hc : b.emit labels (under + ts.length) op = .op c ∨
      b.emit labels (under + ts.length) op = .last c) {flow : Flow}
    (hflow : flow ∈ c.flows) : b.Leaves top labels flow ∧ (after = none → flow ≠ .next) := by
  cases hop with
  | @sig op ps rs ts hop =>
    rw [flows_of_emit hop hc, List.mem_singleton] at hflow
    subst hflow
    exact ⟨trivial, fun h => absurd h (Option.some_ne_none _)⟩
  | drop => simp [emit] at hc
  | select =>
    simp only [emit, Emit.op.injEq, or_false, reduceCtorEq] at hc
    subst hc
    obtain rfl := List.mem_singleton.1 hflow
    exact ⟨trivial, fun h => absurd h (Option.some_ne_none _)⟩
  | @brIf depth ls ts hd =>
    simp only [emit, Emit.op.injEq, or_false, reduceCtorEq, List.length_cons, List.length_append,
      List.length_reverse] at hc htop
    subst hc
    refine ⟨?_, fun h => absurd h (Option.some_ne_none _)⟩
    rcases List.mem_cons.1 hflow with rfl | hflow
    · trivial
    · obtain rfl := List.mem_singleton.1 hflow
      exact (leaves_jumpFrom henc hd (by omega) (by omega)).1
  | @br depth ls ts hd =>
    simp only [emit, Emit.last.injEq, false_or, reduceCtorEq, List.length_append,
      List.length_reverse] at hc htop
    subst hc
    obtain rfl := List.mem_singleton.1 hflow
    exact (leaves_jumpFrom henc hd (by omega) htop).imp_right fun hne _ => hne
  | ret =>
    simp only [emit, Emit.last.injEq, false_or, reduceCtorEq, List.length_append,
      List.length_reverse] at hc htop
    subst hc
    obtain rfl := List.mem_singleton.1 hflow
    refine ⟨?_, fun _ => Flow.noConfusion⟩
    show b.results ≤ top
    omega
  | unreachable =>
    obtain rfl : c = .unreachable := by simpa [emit, eq_comm] using hc
    cases hflow

end Body

namespace Compiled

open Activation

variable {env : Env H} {c : Compiled} {fp : Nat} {a a' : Activation H} {flow : Flow}

theorem flow_of_take {j : Jump} (h : take fp j a = (.ok flow, a')) : flow = j.flow := by
  obtain ⟨_, _, -, h⟩ := Run.bind_eq_ok.1 h
  exact (Except.ok.inj (Prod.mk.inj h).1).symm

theorem mem_flows_of_dispatch {seq : List Code → Run (Activation H) Flow}
    {again : Unit → Run (Activation H) Flow} {call : Nat → Nat → Run (Activation H) Unit}
    {op : Code} (hop : op.isConstruct = false)
    (h : dispatch env c seq again call fp op a = (.ok flow, a')) : flow ∈ op.flows := by
  have hnext {β : Type} {x : Run (Activation H) β} {b b' : Activation H}
    (h : (x >>= fun _ => Pure.pure Flow.next) b = (.ok flow, b')) :
      flow = .next := by
    obtain ⟨_, _, -, h⟩ := Run.bind_eq_ok.1 h
    exact (Except.ok.inj (Prod.mk.inj h).1).symm
  cases op with
  | block | loop | cond => cases hop
  | unreachable => cases h
  | jump j => exact List.mem_singleton.2 (flow_of_take h)
  | jumpIf slot j =>
    obtain ⟨r, a₁, -, h⟩ := Run.bind_eq_ok.1 h
    split at h
    · exact List.mem_cons_of_mem _ (List.mem_singleton.2 (flow_of_take h))
    · obtain rfl := Except.ok.inj (Prod.mk.inj h).1
      exact List.mem_cons_self
  | jumpTable slot targets default =>
    obtain ⟨r, a₁, -, h⟩ := Run.bind_eq_ok.1 h
    refine List.mem_map.2 ⟨_, ?_, (flow_of_take h).symm⟩
    cases htarget : targets[r.low.toNat]? with
    | none => exact List.mem_cons_self
    | some j => exact List.mem_cons_of_mem _ (List.mem_of_getElem? htarget)
  | callIndirect expected table slot args =>
    obtain ⟨r, a₁, -, h⟩ := Run.bind_eq_ok.1 h
    obtain ⟨func, a₂, -, h⟩ := Run.bind_eq_ok.1 h
    obtain ⟨actual, a₃, -, h⟩ := Run.bind_eq_ok.1 h
    split at h
    · exact List.mem_singleton.2 (hnext h)
    · cases h
  | _ => exact List.mem_singleton.2 (hnext h)

variable {b : Body} {sc : CodeScope} {top : Nat} {types : List (List ValType)} {labels : List Label}
  {under : Nat} {code : Nested} {ts us : List ValType} {ops : List Code}

/-- How a sequence is left, in runs below a bound. -/
def SeqLeaves (env : Env H) (c : Compiled) (fp : Nat) (b : Body) (top : Nat) (labels : List Label)
    (n : Nat) (ops : List Code) : Prop :=
  ∀ m < n, ∀ {a a' flow}, runSeq env c m fp ops a = (.ok flow, a') → b.Leaves top labels flow

/-- How an operation is left, in runs below a bound. -/
def OpLeaves (env : Env H) (c : Compiled) (fp : Nat) (b : Body) (top : Nat) (labels : List Label)
    (n : Nat) (op : Code) : Prop :=
  ∀ m < n, ∀ {a a' flow}, runOp env c m fp op a = (.ok flow, a') → b.Leaves top labels flow

section

variable {n : Nat} {l : Label}

theorem seqLeaves_nil (n : Nat) : SeqLeaves env c fp b top labels n [] := by
  intro m _ a a' flow h
  cases m with
  | zero => cases h
  | succ m =>
    rw [runSeq] at h
    obtain rfl := Except.ok.inj (Prod.mk.inj h).1
    trivial

theorem SeqLeaves.block (hseq : SeqLeaves env c fp b top (l :: labels) n ops) :
    OpLeaves env c fp b top labels n (.block ops) := by
  intro m hm a a' flow h
  cases m with
  | zero => cases h
  | succ m =>
    rw [runOp] at h
    obtain ⟨flow', a₁, hrun, h⟩ := Run.bind_eq_ok.1 h
    obtain rfl := Except.ok.inj (Prod.mk.inj h).1
    exact (hseq m (Nat.lt_of_succ_lt hm) hrun).leaveBlock

/-- The induction is on the bound, which decreases with each round of the loop. -/
theorem SeqLeaves.loop (hseq : SeqLeaves env c fp b top (l :: labels) n ops) :
    OpLeaves env c fp b top labels n (.loop ops) := by
  intro m hm a a' flow h
  induction m generalizing a with
  | zero => cases h
  | succ m ih =>
    rw [runOp] at h
    obtain ⟨flow', a₁, hrun, h⟩ := Run.bind_eq_ok.1 h
    have hleaves := (hseq m (Nat.lt_of_succ_lt hm) hrun).leaveBlock
    rcases flow' with _ | _ | _
    · obtain rfl := Except.ok.inj (Prod.mk.inj h).1
      exact hleaves
    · next depth =>
      cases depth with
      | zero => exact ih (Nat.lt_of_succ_lt hm) h
      | succ depth =>
        obtain rfl := Except.ok.inj (Prod.mk.inj h).1
        exact hleaves
    · obtain rfl := Except.ok.inj (Prod.mk.inj h).1
      exact hleaves

theorem SeqLeaves.cond {slot : Nat} {yes no : List Code}
    (hyes : SeqLeaves env c fp b top (l :: labels) n yes)
    (hno : SeqLeaves env c fp b top (l :: labels) n no) :
    OpLeaves env c fp b top labels n (.cond slot yes no) := by
  intro m hm a a' flow h
  cases m with
  | zero => cases h
  | succ m =>
    rw [runOp] at h
    obtain ⟨r, a₁, -, h⟩ := Run.bind_eq_ok.1 h
    obtain ⟨flow', a₂, hrun, h⟩ := Run.bind_eq_ok.1 h
    obtain rfl := Except.ok.inj (Prod.mk.inj h).1
    split at hrun
    · exact (hyes m (Nat.lt_of_succ_lt hm) hrun).leaveBlock
    · exact (hno m (Nat.lt_of_succ_lt hm) hrun).leaveBlock

theorem mem_flows_of_runOp {op : Code} (hop : op.isConstruct = false)
    (h : runOp env c n fp op a = (.ok flow, a')) : flow ∈ op.flows := by
  cases n with
  | zero => cases h
  | succ n =>
    rw [runOp] at h
    exact mem_flows_of_dispatch hop h

/-- A sequence is left by its first operation, or the operations behind it are
run. -/
theorem runSeq_cases {op : Code} (h : runSeq env c n fp (op :: ops) a = (.ok flow, a')) :
    ∃ m < n, ∃ first a₁, runOp env c m fp op a = (.ok first, a₁) ∧
      (first ≠ .next ∧ flow = first ∨ first = .next ∧
        runSeq env c m fp ops a₁ = (.ok flow, a')) := by
  cases n with
  | zero => cases h
  | succ n =>
    refine ⟨n, Nat.lt_succ_self n, ?_⟩
    rw [runSeq] at h
    rcases hop : runOp env c n fp op a with ⟨_ | _ | _ | _, a₁⟩ <;> simp only [hop] at h
    · cases h
    · exact ⟨_, _, rfl, .inr ⟨rfl, h⟩⟩
    · exact ⟨_, _, rfl, .inl ⟨Flow.noConfusion, (Except.ok.inj (Prod.mk.inj h).1).symm⟩⟩
    · exact ⟨_, _, rfl, .inl ⟨Flow.noConfusion, (Except.ok.inj (Prod.mk.inj h).1).symm⟩⟩

/-- What is true of how a sequence is left, from how its first operation is and
how those behind it are. -/
theorem OpLeaves.cons {op : Code} {height : Nat} (hop : OpLeaves env c fp b top labels n op)
    (hrest : ∀ m < n, ∀ {a}, runSeq env c m fp ops a = (.ok flow, a') → b.Leaves top labels flow ∧
      (flow = .next → height ≤ top))
    (h : runSeq env c n fp (op :: ops) a = (.ok flow, a')) : b.Leaves top labels flow ∧
    (flow = .next → height ≤ top) := by
  obtain ⟨m, hm, first, a₁, hfirst, ⟨hne, rfl⟩ | ⟨-, hrun⟩⟩ := runSeq_cases h
  · exact ⟨hop m hm hfirst, fun hnext => absurd hnext hne⟩
  · exact hrest m hm hrun

/-- The last operation of a sequence does not go on behind it. -/
theorem last_leaves {op : Code} (hconstruct : op.isConstruct = false)
    (hop : ∀ flow ∈ op.flows, b.Leaves top labels flow ∧ flow ≠ .next)
    (h : runSeq env c n fp [op] a = (.ok flow, a')) : b.Leaves top labels flow ∧ flow ≠ .next := by
  obtain ⟨m, -, first, a₁, hfirst, ⟨-, rfl⟩ | ⟨rfl, -⟩⟩ := runSeq_cases h
  · exact hop _ (mem_flows_of_runOp hconstruct hfirst)
  · exact absurd rfl (hop _ (mem_flows_of_runOp hconstruct hfirst)).2

/-- **How emitted code is left.** Where it goes on behind its end, all operands
that it leaves are below the greatest height. The induction is on the bound;
instructions without an operation do not take from it. -/
theorem emits_leaves (hmod : sc.mod = b.mod) (hresults : sc.results.length = b.results)
    (hemits : b.Emits sc top types labels under code ts us ops)
    (henc : b.Encloses types labels under) (htop : under + ts.length ≤ top)
    (h : runSeq env c n fp ops a = (.ok flow, a')) : b.Leaves top labels flow ∧
    (flow = .next → under + us.length ≤ top) := by
  induction n using Nat.strongRecOn generalizing types labels under code ts us ops a a' flow with
  | ind n ih =>
    have hpart {types labels under code ts us ops}
      (hemits : b.Emits sc top types labels under code ts us ops)
        (henc : b.Encloses types labels under) (htop : under + ts.length ≤ top) :
        SeqLeaves env c fp b top labels n ops :=
      fun m hm _ _ _ hrun => (ih m hm hemits henc htop hrun).1
    induction hemits with
    | done =>
      cases n with
      | zero => cases h
      | succ n =>
        rw [runSeq] at h
        obtain rfl := Except.ok.inj (Prod.mk.inj h).1
        exact ⟨trivial, fun _ => htop⟩
    | op htyped hc hafter hrest _ =>
      refine OpLeaves.cons (fun m _ _ _ _ hrun => ?_)
        (fun m hm _ hrun => ih m hm hrest henc hafter hrun) h
      have hflow := mem_flows_of_runOp (Body.isConstruct_of_emit (.inl hc)) hrun
      exact (Body.leaves_emit hresults henc htyped htop (.inl hc) hflow).1
    | nothing htyped hc _ ihrest =>
      -- The bound is the same here, only the code is shorter.
      have hle := Body.length_le_of_nothing hmod htyped hc
      exact ihrest henc (by omega) h
    | last htyped hc =>
      have hleaves := last_leaves (Body.isConstruct_of_emit (.inr hc))
        (fun flow hflow => (Body.leaves_emit hresults henc htyped htop (.inr hc) hflow).imp_right
          fun hne => hne rfl) h
      exact hleaves.imp_right fun hne hnext => absurd hnext hne
    | @brTable types labels under targets default next ts us htargets =>
      rw [List.length_cons] at htop
      refine (last_leaves rfl (fun flow hflow => ?_) h).imp_right fun hne hnext => absurd hnext hne
      rw [Code.flows, ← List.map_cons, List.map_map] at hflow
      obtain ⟨d, hd, rfl⟩ := List.mem_map.1 hflow
      obtain ⟨ls, rest, hls, rfl⟩ := htargets d hd
      rw [List.length_append, List.length_reverse] at htop
      exact Body.leaves_jumpFrom henc hls (by simp; omega) (by simp; omega)
    | block _ hafter hbody hrest _ _ =>
      -- A branch out of the body may lead behind the block, where the results are; so that
      -- height was counted.
      rw [List.length_append, List.length_reverse] at htop
      have hin := hpart hbody (henc.construct (Nat.le_add_right _ _) rfl)
        (by rw [List.length_reverse]; omega)
      refine hin.block.cons (fun m hm _ hrun => ih m hm hrest henc ?_ hrun) h
      rw [List.length_append, List.length_reverse]
      omega
    | loop _ hafter hbody hrest _ _ =>
      rw [List.length_append, List.length_reverse] at htop
      have hin := hpart hbody (henc.construct (Nat.le_add_right _ _) rfl)
        (by rw [List.length_reverse]; omega)
      refine hin.loop.cons (fun m hm _ hrun => ih m hm hrest henc ?_ hrun) h
      rw [List.length_append, List.length_reverse]
      omega
    | cond _ hafter hbody hrest _ _ =>
      rw [List.length_cons, List.length_append, List.length_reverse] at htop
      have hin := hpart hbody (henc.construct (Nat.le_add_right _ _) rfl)
        (by rw [List.length_reverse]; omega)
      refine (hin.cond (seqLeaves_nil n)).cons (fun m hm _ hrun => ih m hm hrest henc ?_ hrun) h
      rw [List.length_append, List.length_reverse]
      omega
    | condElse _ hafter hyes hno hrest _ _ _ =>
      rw [List.length_cons, List.length_append, List.length_reverse] at htop
      have hin := hpart hyes (henc.construct (Nat.le_add_right _ _) rfl)
        (by rw [List.length_reverse]; omega)
      have hin' := hpart hno (henc.construct (Nat.le_add_right _ _) rfl)
        (by rw [List.length_reverse]; omega)
      refine (hin.cond hin').cons (fun m hm _ hrun => ih m hm hrest henc ?_ hrun) h
      rw [List.length_append, List.length_reverse]
      omega

end

/-! ### Functions -/

/-- A function can return: one of its runs comes to an end. -/
def Returns (c : Compiled) (func : Nat) : Prop :=
  ∃ (H : Type) (env : Env H) (n fp : Nat) (a a' : Activation H),
    execute env c n func fp a = (.ok (), a')

/-- **A compiled function stays in its frame.** -/
structure InFrame (c : Compiled) (func : Nat) (t : FuncType) (cf : CompiledFunc) : Prop where
  /-- There is room for the locals. -/
  locals : cf.locals ≤ cf.frameSize
  /-- There is room for the results next to them, if it can return. -/
  results : c.Returns func → cf.locals + t.results.length ≤ cf.frameSize
  /-- All slots that its operations name are in the frame. -/
  slots : ∀ {op : Code}, op.Within cf.body → ∀ i ∈ op.slots c.types, i < cf.frameSize
  /-- Its operations neither read nor write outside of the frame, unless their
  parts or the functions that they call do. -/
  touches :
    ∀ {H : Type} {env : Env H} {seq : List Code → Run (Activation H) Flow}
    {again : Unit → Run (Activation H) Flow}
    {call : Nat → Nat → Run (Activation H) Unit} {fp : Nat} {op : Code} {S : Nat → Prop},
    op.Within cf.body →
    (∀ i, fp ≤ i → i < fp + cf.frameSize → S i) → (∀ ops, Touches S (seq ops)) →
    Touches S (again ()) →
    (∀ func slot, Touches S (call func slot)) → Touches S (dispatch env c seq again call fp op)

namespace FuncOf

variable {m : Module} {f : Func} {t : FuncType} {body : Nested} {cf : CompiledFunc}

theorem locals_le (h : FuncOf m f t body cf) : cf.locals ≤ cf.frameSize := by
  obtain ⟨top, hsize, -⟩ := h.body
  omega

theorem slot_lt (h : FuncOf m f t body cf) (hsigs : ∀ func, c.types[func]? = m.funcType? func)
    {op : Code} (hop : op.Within cf.body) : ∀ i ∈ op.slots c.types, i < cf.frameSize := by
  obtain ⟨top, hsize, hemits⟩ := h.body
  have hlocals : (t.params ++ f.locals).length = cf.locals := by rw [List.length_append, h.locals]
  rw [hsize]
  exact hemits.slot_lt rfl hlocals rfl hsigs (.function rfl) (Nat.zero_le _) hop

/-- **The results of a function that returns have been on the operand stack**,
whether it ends or is left by a branch. -/
theorem results_le (h : FuncOf m f t body cf) {n : Nat}
    (hrun : runSeq env c n fp cf.body a = (.ok flow, a')) :
    cf.locals + t.results.length ≤ cf.frameSize := by
  obtain ⟨top, hsize, hemits⟩ := h.body
  obtain ⟨hleaves, hnext⟩ := emits_leaves rfl rfl hemits (.function rfl) (Nat.zero_le _) hrun
  rw [hsize]
  rcases flow with _ | _ | _
  · have hle := hnext rfl
    rw [List.length_reverse] at hle
    omega
  · exact absurd hleaves (Nat.not_lt_zero _)
  · exact Nat.add_le_add_left hleaves _

theorem inFrame (h : FuncOf m f t body cf)
    (hsigs : ∀ func, c.types[func]? = m.funcType? func) {i : Nat} (hcf : c.funcs[i]? = some cf) :
    c.InFrame (i + c.imported) t cf where
  locals := h.locals_le
  results := by
    rintro ⟨H, env, n, fp, a, a', hrun⟩
    cases n with
    | zero => cases hrun
    | succ n =>
      rw [execute, if_neg (by omega), Nat.add_sub_cancel, hcf] at hrun
      obtain ⟨_, _, hneed, hrun⟩ := Run.bind_eq_ok.1 hrun
      obtain rfl := Except.ok.inj (Prod.mk.inj hneed).1
      obtain ⟨_, _, -, hrun⟩ := Run.bind_eq_ok.1 hrun
      obtain ⟨_, _, hrun, -⟩ := Run.bind_eq_ok.1 hrun
      exact h.results_le hrun
  slots := h.slot_lt hsigs
  touches hop hS hseq hagain hcall := by
    refine dispatch_touches (fun i hi => hS _ (Nat.le_add_right _ _) ?_) hseq hagain hcall
    exact Nat.add_lt_add_left (h.slot_lt hsigs hop i hi) _

end FuncOf

end Compiled

end WasmEngine
