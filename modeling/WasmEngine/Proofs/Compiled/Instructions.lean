import WasmEngine.Proofs.Compiled.Emission
import WasmEngine.Proofs.Mirrors

/-!
# Compiled instructions

What compiled code does for one instruction of the reference semantics.
Operations that neither branch nor call leave the slots holding the state that
the reference semantics ends in (`WasmEngine.Compiled.operate_matches`); a
branch moves what its label carries to where the construct that it reaches
expects it (`WasmEngine.Compiled.jump_leaves`).
-/

namespace WasmEngine

open Run Structured

variable {H : Type}

namespace Activation

theorem get_ok {i : Nat} {r : Raw} {a : Activation H} (h : a.slots[i]? = some r) :
    get i a = (.ok r, a) := by
  simp only [get, h]

theorem set_ok {i : Nat} {a : Activation H} (h : i < a.slots.size) (r : Raw) :
    set i r a = (.ok (), ⟨a.slots.setIfInBounds i r, a.world⟩) := by
  simp only [set, h, if_true]

theorem onWorld_matches {α : Type} (x : Run (World H) α) (slots : Array Raw) (w : World H) :
    Matches (fun r w' r' a => r = r' ∧ a = ⟨slots, w'⟩) (fun w' a => a.world = w') (x w)
      (onWorld x ⟨slots, w⟩) := by
  simp only [onWorld]
  rcases x w with ⟨_ | r, w'⟩
  · exact ⟨rfl, rfl⟩
  · exact ⟨rfl, rfl⟩

end Activation

namespace Compiled

open Activation

/-- **A state of the reference semantics in a world, held by slots** that were
once others. -/
structure Shows (fp : Nat) (under : List Raw) (start : Array Raw) (s : State) (w : World H)
    (a : Activation H) : Prop where
  /-- The same world. -/
  world : a.world = w
  /-- What belongs to callers is as it was. -/
  kept : Kept fp start a.slots
  /-- The slots hold the state. -/
  holds : Holds fp under s a.slots

variable {fp : Nat} {under : List Raw} {start slots : Array Raw} {locals : Array Raw}
  {vs : List Raw} {b : Body} {w : World H}

/-! ### Operations -/

theorem get_top {v : Raw} (hlocals : b.locals = locals.size)
    (h : Holds fp under ⟨locals, v :: vs⟩ slots) (w : World H) :
    get (fp + b.slot (under.length + vs.length)) (⟨slots, w⟩ : Activation H) =
    (.ok v, ⟨slots, w⟩) :=
  get_ok (by rw [Body.slot, hlocals]; exact h.pop.1)

/-- The top operand is read. -/
theorem get_top_bind {α β τ : Type} {R : α → τ → β → Activation H → Prop}
    {S : τ → Activation H → Prop} {r : Except Halt α × τ} {f : Raw → Run (Activation H) β} {v : Raw}
    (hlocals : b.locals = locals.size) (h : Holds fp under ⟨locals, v :: vs⟩ slots)
    (hf : Matches R S r (f v ⟨slots, w⟩)) :
    Matches R S r ((get (fp + b.slot (under.length + vs.length)) >>= f)
      (⟨slots, w⟩ : Activation H)) := by
  rwa [Run.bind_ok (get_top hlocals h w)]

theorem set_top (hlocals : b.locals = locals.size) (h : Holds fp under ⟨locals, vs⟩ slots)
    (hroom : fp + b.slot (under.length + vs.length) < slots.size) (r : Raw) (w : World H) :
    Matches (fun s w' (_ : Unit) a => Shows fp under slots s w' a) (fun w' a => a.world = w')
      ((Pure.pure ⟨locals, r :: vs⟩ : Run (World H) State) w)
      (set (fp + b.slot (under.length + vs.length)) r (⟨slots, w⟩ : Activation H)) := by
  rw [set_ok hroom]
  refine ⟨rfl, Kept.set slots r (Nat.le_add_right fp _), ?_⟩
  rw [Body.slot, hlocals] at hroom ⊢
  exact h.push hroom

theorem set_local {i : Nat} (hi : i < locals.size) (h : Holds fp under ⟨locals, vs⟩ slots)
    (hroom : fp + i < slots.size) (r : Raw) (w : World H) :
    Matches (fun s w' (_ : Unit) a => Shows fp under slots s w' a) (fun w' a => a.world = w')
      ((Pure.pure ⟨locals.setIfInBounds i r, vs⟩ : Run (World H) State) w)
        (set (fp + i) r (⟨slots, w⟩ : Activation H)) := by
  rw [set_ok hroom]
  exact ⟨rfl, Kept.set slots r (Nat.le_add_right fp i), h.setLocal hi hroom⟩

/-- An operation on the world whose result is pushed. -/
theorem push_matches (hlocals : b.locals = locals.size) (h : Holds fp under ⟨locals, vs⟩ slots)
    (hroom : fp + b.slot (under.length + vs.length) < slots.size)
    (x : Run (World H) Raw) (w : World H) :
    Matches (fun s w' (_ : Unit) a => Shows fp under slots s w' a) (fun w' a => a.world = w')
      ((x >>= fun r => Pure.pure ⟨locals, r :: vs⟩) w)
      ((onWorld x >>= fun r => set (fp + b.slot (under.length + vs.length)) r)
        (⟨slots, w⟩ : Activation H)) := by
  refine (onWorld_matches x slots w).bind ?_
  rintro r w' r' a ⟨rfl, rfl⟩
  exact set_top hlocals h hroom r w'

/-- An operation on the world without a result. -/
theorem effect_matches (h : Holds fp under ⟨locals, vs⟩ slots)
    (x : Run (World H) Unit) (w : World H) :
    Matches (fun s w' (_ : Unit) a => Shows fp under slots s w' a) (fun w' a => a.world = w')
      ((x >>= fun _ => Pure.pure ⟨locals, vs⟩) w) (onWorld x (⟨slots, w⟩ : Activation H)) := by
  simp only [onWorld, bind_apply]
  rcases x w with ⟨_ | r, w'⟩
  · exact ⟨rfl, rfl⟩
  · exact ⟨rfl, Kept.refl fp slots, h⟩

theorem ofTrap_eq (x : Except Trap Raw) : (Run.ofTrap x : Run (Activation H) Raw) =
    onWorld (Run.ofTrap x) := by
  funext a
  cases x <;> rfl

variable {env : Env H} {sc : CodeScope}

/-- **An operation does what the instruction does that it was emitted for.** -/
theorem operate_matches {labels : List Label} {op : Plain} {ps rs ts : List ValType}
    {s : State} {c : Code} (hop : op.signature? sc = some (ps, rs)) (hcall : op.isCall = false)
    (hs : s.Fits sc (ps.reverse ++ ts)) (hlocals : b.locals = sc.locals.length)
    (hc : b.emit labels (under.length + s.operands.length) op = .op c)
    (hroom : fp + b.slot (under.length + (rs.reverse ++ ts).length) ≤ slots.size)
    (hholds : Holds fp under s slots) (w : World H) :
    Matches (fun s w' (_ : Unit) a => Shows fp under slots s w' a) (fun w' a => a.world = w')
      (Structured.operate env op s w) (Compiled.operate env.policy fp c ⟨slots, w⟩) := by
  obtain ⟨locals, vs⟩ := s
  obtain ⟨hl, hvs⟩ := hs
  obtain ⟨hps, hrs⟩ := Plain.length_signature? hcall hop
  simp only [List.length_append, List.length_reverse, hps, hrs] at hl hvs hroom hc
  rw [← hl] at hlocals
  -- The operands are there by typing. In their slots they are read from the deepest one up.
  cases op with
  | localGet i =>
    obtain rfl := Emit.op.inj hc
    obtain ⟨t, ht, -⟩ : ∃ t, sc.locals[i]? = some t ∧ _ := by
      simpa only [Plain.signature?, Option.map_eq_some_iff] using hop
    have hi : i < locals.size := hl ▸ (List.getElem?_eq_some_iff.1 ht).1
    have hget : get (fp + i) (⟨slots, w⟩ : Activation H) = (.ok locals[i], ⟨slots, w⟩) :=
      get_ok (by rw [hholds.getLocal hi, Array.getElem?_eq_getElem hi])
    simp only [Structured.operate, Array.getElem?_eq_getElem hi, need_some, Run.pure_bind,
      Compiled.operate, Run.bind_ok hget]
    exact set_top hlocals hholds (by simp only [Plain.effect, Body.slot] at *; omega) _ w
  | globalGet | memorySize =>
    obtain rfl := Emit.op.inj hc
    exact push_matches hlocals hholds (by simp only [Plain.effect, Body.slot] at *; omega) _ w
  | const v =>
    obtain rfl := Emit.op.inj hc
    exact set_top hlocals hholds (by simp only [Plain.effect, Body.slot] at *; omega) v.toRaw w
  | localSet i | localTee i =>
    obtain ⟨t, ht, -⟩ : ∃ t, sc.locals[i]? = some t ∧ _ := by
      simpa only [Plain.signature?, Option.map_eq_some_iff] using hop
    have hi : i < locals.size := hl ▸ (List.getElem?_eq_some_iff.1 ht).1
    obtain _ | ⟨r, vs⟩ := vs
    · simp [Plain.effect] at hvs
      omega
    obtain rfl := Emit.op.inj hc
    refine get_top_bind hlocals hholds ?_
    simp only [Structured.operate, hi, if_true]
    exact set_local hi (by first | exact hholds.pop.2 | exact hholds)
      (by simp [Body.slot] at *; omega) r w
  | globalSet i =>
    obtain _ | ⟨r, vs⟩ := vs
    · simp [Plain.effect] at hvs
      omega
    obtain rfl := Emit.op.inj hc
    refine get_top_bind hlocals hholds ?_
    exact effect_matches hholds.pop.2 (World.setGlobal i r) w
  | load | memoryGrow =>
    obtain _ | ⟨r, vs⟩ := vs
    · simp [Plain.effect] at hvs
      omega
    obtain rfl := Emit.op.inj hc
    refine get_top_bind hlocals hholds ?_
    exact push_matches hlocals hholds.pop.2 (by simp [Plain.effect, Body.slot] at *; omega) _ w
  | store op arg =>
    obtain _ | ⟨r, _ | ⟨base, vs⟩⟩ := vs
    · simp [Plain.effect] at hvs
      omega
    · simp [Plain.effect] at hvs
      omega
    obtain rfl := Emit.op.inj hc
    refine get_top_bind hlocals hholds.pop.2 (get_top_bind hlocals hholds ?_)
    exact effect_matches hholds.pop.2.pop.2 (World.storeValue op arg base r) w
  | memoryCopy | memoryFill =>
    obtain _ | ⟨len, _ | ⟨src, _ | ⟨dst, vs⟩⟩⟩ := vs
    iterate 3
      · simp [Plain.effect] at hvs
        omega
    obtain rfl := Emit.op.inj hc
    refine get_top_bind hlocals hholds.pop.2.pop.2
      (get_top_bind hlocals hholds.pop.2 (get_top_bind hlocals hholds ?_))
    exact effect_matches hholds.pop.2.pop.2.pop.2 _ w
  | unary op =>
    obtain _ | ⟨a, vs⟩ := vs
    · simp [Plain.effect] at hvs
      omega
    obtain rfl := Emit.op.inj hc
    refine get_top_bind hlocals hholds ?_
    rw [ofTrap_eq]
    exact push_matches hlocals hholds.pop.2 (by simp [Plain.effect, Body.slot] at *; omega) _ w
  | binary op =>
    obtain _ | ⟨r, _ | ⟨a, vs⟩⟩ := vs
    iterate 2
      · simp [Plain.effect] at hvs
        omega
    obtain rfl := Emit.op.inj hc
    refine get_top_bind hlocals hholds.pop.2 (get_top_bind hlocals hholds ?_)
    rw [ofTrap_eq]
    exact push_matches hlocals hholds.pop.2.pop.2
      (by simp [Plain.effect, Body.slot] at *; omega) _ w
  | call | callIndirect => simp [Plain.isCall] at hcall
  | nop => simp [Body.emit] at hc
  | _ => simp [Plain.signature?] at hop

/-! ### Branches -/

/-- **What a sequence leaves in the slots**, with the flow that it ends in. A
branch has moved the values that its label carries to where its construct
starts, and a return has moved the results to where the frame starts. -/
inductive Leaves (b : Body) (labels : List Label) (fp : Nat) (under : List Raw)
    (slots : Array Raw) : Outcome → Flow → Prop
  /-- At the end. -/
  | next {s} (h : Holds fp under s slots) : Leaves b labels fp under slots (.next s) .next
  /-- By a branch to the label of a construct. -/
  | branch {depth s l} (hl : labels[depth]? = some l)
    (h : Holds fp (under.drop (under.length - l.base)) ⟨s.locals, s.operands.take l.arity⟩ slots) :
    Leaves b labels fp under slots (.branch depth s) (.branch depth)
  /-- By a branch out of all constructs. -/
  | leave {depth s} (hl : labels[depth]? = none)
    (h : Row slots fp (s.operands.take b.results).reverse) :
    Leaves b labels fp under slots (.branch depth s) .ret
  /-- By a return. -/
  | ret {s} (h : Row slots fp (s.operands.take b.results).reverse) :
    Leaves b labels fp under slots (.ret s) .ret

variable {labels : List Label}

/-- The operands on top are moved down, to a slot that is not above them. -/
theorem take_top (dst : Nat) {s : State} {k : Nat} (hlocals : b.locals = s.locals.size)
    (h : Holds fp under s slots) (hk : k ≤ s.operands.length) (hdst : dst ≤ b.slot under.length)
    (hroom : fp + b.slot (under.length + s.operands.length) ≤ slots.size)
    (flow : Flow) (w : World H) :
    ∃ slots', take fp ⟨b.slot (under.length + s.operands.length - k), dst, k, flow⟩
    (⟨slots, w⟩ : Activation H) = (.ok flow, ⟨slots', w⟩) ∧ Kept fp slots slots' ∧
      Row slots' fp
        ((s.locals.toList ++ under.reverse).take dst ++ (s.operands.take k).reverse) := by
  obtain ⟨locals, vs⟩ := s
  simp only [Body.slot, hlocals] at hk hdst hroom ⊢
  have hlen := Holds.length_row locals vs under
  obtain ⟨slots', hmove, hkept, hrow⟩ :=
    move_row (k := locals.size + (under.length + vs.length - k)) (d := dst)
    (a := (⟨slots, w⟩ : Activation H)) h (by omega) (by rw [hlen]; omega)
      (by rw [hlen]; exact hroom)
  rw [show (locals.toList ++ (vs ++ under).reverse).length -
      (locals.size + (under.length + vs.length - k)) = k by
    rw [hlen]; omega] at hmove
  refine ⟨slots', ?_, hkept, ?_⟩
  · rw [take, Run.bind_ok hmove]
    rfl
  · have hdrop :
      (locals.toList ++ (vs ++ under).reverse).drop (locals.size + (under.length + vs.length - k)) =
        (vs.take k).reverse := by
      rw [← Array.length_toList, List.drop_append, List.drop_eq_nil_of_le (by omega),
        List.nil_append, List.drop_reverse, Nat.add_sub_cancel_left, List.length_append,
        Nat.add_comm vs.length, Nat.sub_sub_self (by omega), List.take_append_of_le_length hk]
    have htake : (locals.toList ++ (vs ++ under).reverse).take dst =
        (locals.toList ++ under.reverse).take dst := by
      rw [List.reverse_append, ← List.append_assoc,
        List.take_append_of_le_length (by simpa using hdst)]
    rwa [hdrop, htake] at hrow

/-- A branch to a label. -/
theorem jump_leaves {types : List (List ValType)} {ls : List ValType} {depth : Nat} {s : State}
    (henc : b.Encloses types labels under.length) (hlocals : b.locals = s.locals.size)
    (hls : types[depth]? = some ls) (hlen : ls.length ≤ s.operands.length)
    (h : Holds fp under s slots)
    (hroom : fp + b.slot (under.length + s.operands.length) ≤ slots.size) (w : World H) :
    ∃ flow slots', take fp (b.jumpFrom labels (under.length + s.operands.length) depth)
    (⟨slots, w⟩ : Activation H) =
        (.ok flow, ⟨slots', w⟩) ∧ Kept fp slots slots' ∧ Leaves b labels fp under slots'
          (.branch depth s) flow := by
  rw [Body.jumpFrom]
  rcases henc.label hls with ⟨base, hl⟩ | ⟨hl, hresults⟩
  · rw [hl]
    obtain ⟨slots', htake, hkept, hrow⟩ := take_top (b.slot base) hlocals h hlen
      (Nat.add_le_add_left (henc.base_le hl) _) hroom (.branch depth) w
    refine ⟨_, slots', htake, hkept, .branch hl ?_⟩
    rwa [Body.slot, hlocals, ← Array.length_toList, List.take_length_add_append, List.take_reverse,
      List.append_assoc, ← List.reverse_append] at hrow
  · rw [hl]
    obtain ⟨slots', htake, hkept, hrow⟩ := take_top 0 hlocals h (hresults ▸ hlen)
      (Nat.zero_le _) hroom .ret w
    exact ⟨_, slots', htake, hkept, .leave hl hrow⟩

/-- A return. -/
theorem return_leaves {s : State} (hlocals : b.locals = s.locals.size)
    (hlen : b.results ≤ s.operands.length) (h : Holds fp under s slots)
    (hroom : fp + b.slot (under.length + s.operands.length) ≤ slots.size) (w : World H) :
    ∃ slots', take fp (b.returnFrom (under.length + s.operands.length))
    (⟨slots, w⟩ : Activation H) =
        (.ok .ret, ⟨slots', w⟩) ∧ Kept fp slots slots' ∧ Leaves b labels fp under slots'
          (.ret s) .ret := by
  obtain ⟨slots', htake, hkept, hrow⟩ := take_top 0 hlocals h hlen (Nat.zero_le _) hroom .ret w
  exact ⟨slots', htake, hkept, .ret hrow⟩

/-! ### Ends of constructs -/

section Constructs

variable {below : List Raw} {arity : Nat} {types : List (List ValType)} {o : Outcome} {flow : Flow}

/-- A construct that is left by a branch to its own label ends there, and one
that is left by another branch goes on with it. -/
theorem Leaves.leaveBlock (henc : b.Encloses types labels under.length)
    (h : Leaves b (⟨(below ++ under).length, arity⟩ :: labels) fp (below ++ under) slots o flow) :
    Leaves b labels fp under slots (o.leave arity below) flow.leaveBlock := by
  cases h with
  | @next s h =>
    refine .next ?_
    rwa [Holds, ← List.append_assoc] at h
  | @branch depth s l hl h =>
    cases depth with
    | zero =>
      obtain rfl : _ = l := Option.some.inj hl
      refine .next ?_
      rwa [Nat.sub_self, List.drop_zero, Holds, ← List.append_assoc] at h
    | succ depth =>
      refine .branch hl ?_
      have hbase : l.base ≤ under.length := henc.base_le hl
      rwa [List.length_append, Nat.add_sub_assoc hbase, List.drop_length_add_append] at h
  | @leave depth s hl h =>
    cases depth with
    | zero => simp at hl
    | succ depth => exact .leave hl h
  | ret h => exact .ret h

end Constructs

end Compiled

end WasmEngine
