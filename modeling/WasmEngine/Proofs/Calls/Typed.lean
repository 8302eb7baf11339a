import WasmEngine.Proofs.Calls.CutShort
import WasmEngine.Proofs.Compiled.Typed
import WasmEngine.Proofs.Interpreter.Typed
import WasmEngine.Proofs.Keeps

/-!
# All states of a call are typed

A condition on values that is upheld where values are made holds of all words,
in every state that a call goes through, in the interpreter and in compiled code
(`WasmEngine.Site.Typed.carries`). The words alone do not carry the
argument: where the engine goes from here depends on the code that is left and
on the functions that wait. So what is kept from one site to the next is that
the site is typed (`WasmEngine.Site.Typed`). What the parts of a run come to
that are gone over in one step is known from the reference semantics.
-/

namespace WasmEngine

open Run

variable {H : Type}

namespace Site

/-- **A site is typed**, and its words meet a condition on their types. -/
def Typed (V : ValType → Raw → Prop) (m : Module) (bodies : Nat → Nested) : Site H → Prop
  | .call func args w =>
    w.store.Carries V m ∧ ∃ t, m.funcType? func = some t ∧ args.map Value.type = t.params
  | .host _ w => w.store.Carries V m
  | .machine funcs x w => w.store.Carries V m ∧ Machine.Typed V m bodies funcs x
  | .code here outer ops a =>
    a.world.store.Carries V m ∧ Compiled.Stands V m bodies a.slots here ops ∧
    ∃ t, m.funcType? here.func = some t ∧ Spot.Carry V m bodies a.slots here.fp
      t.results.length outer

variable {V : ValType → Raw → Prop} {m : Module} {bodies : Nat → Nested} {σ σ' : Site H}

theorem Typed.carries (h : σ.Typed V m bodies) : σ.Carries V m bodies := by
  cases σ with
  | call func args w => exact h.1
  | host p w => exact h
  | machine funcs x w => exact ⟨h.1, h.2.carries⟩
  | code here outer ops a => exact ⟨h.1, h.2.1.active, h.2.2⟩

theorem Carries.store (h : σ.Carries V m bodies) : σ.world.store.Carries V m := by
  cases σ with
  | call | host => exact h
  | machine | code => exact h.1

variable {env : Env H} {r : Runtime}

theorem length_of_nextCall? {x : Machine} {w : World H} {func : Nat} {rs : List Raw} {t : FuncType}
    (hcall : x.nextCall? env w = some ⟨func, rs⟩) (ht : env.mod.funcType? func = some t) :
    rs.length = t.params.length := by
  have hof {callee vs} (h : Machine.callOf? env callee vs = some ⟨func, rs⟩) :
      rs.length = t.params.length := by
    simp only [Machine.callOf?, Option.bind_eq_bind, Option.bind_eq_some_iff] at h
    obtain ⟨t', ht', h⟩ := h
    split at h
    · cases h
    · next hle =>
      obtain ⟨rfl, rfl⟩ := Call.mk.inj (Option.some.inj h)
      obtain rfl := Option.some.inj (ht'.symm.trans ht)
      rw [List.length_reverse, List.length_take]
      omega
  rw [Machine.nextCall?] at hcall
  split at hcall
  · exact hof hcall
  · split at hcall
    · split at hcall
      · split at hcall
        · exact hof hcall
        · cases hcall
      · cases hcall
    · cases hcall
  · cases hcall

/-- **From a typed site to the next.** -/
theorem Next.typed (hp : env.policy.Upholds V) (hlinked : env.Linked) (hb : env.mod.Bodies bodies)
    (hr : r.Renders env.mod bodies) (h : Next env r σ σ') (hσ : σ.Typed V env.mod bodies) :
    σ'.Typed V env.mod bodies := by
  have hc := hlinked.contract_carries hp
  have hinvoke (n : Nat) {func : Nat} {t : FuncType} {args : List Value}
    (ht : env.mod.funcType? func = some t)
      (hargs : args.map Value.type = t.params) := Runtime.invoke_meets hc hb hlinked hr ht hargs n
  have henter (w w' : World H) (hw : w.store.Carries V env.mod) (h : World.enter w = (.ok (), w')) :
      w'.store.Carries V env.mod :=
    (World.enter_meets (P := Store.Carries V env.mod) (E := fun _ => True) hc.trap).keeps_of_ok hw h
  cases h with
  | look => exact hσ
  | setHost => exact hσ
  | @memory _ op _ _ _ _ h =>
    have hmeets := hc.onMemory (f := fun m => m.apply op) (Q := fun _ => True)
      (fun _ _ _ => trivial) fun _ _ _ => trivial
    exact hmeets.catching.keeps_of_ok (E := fun _ => True) hσ h
  | reenter hfunc ht hargs => exact ⟨hσ, _, ht, FuncType.types_of_checkArguments hargs⟩
  | resume h =>
    exact (hc.callExport_meets (hinvoke _) _ _).catching.keeps_of_ok (E := fun _ => True) hσ h
  | host hfunc hf hw => exact henter _ _ hσ.1 hw
  | start hf hw =>
    obtain ⟨hstore, t, ht, hargs⟩ := hσ
    obtain rfl := Option.some.inj (ht.symm.trans (Env.of_defined hf).2.2)
    exact ⟨henter _ _ hstore hw, Machine.start_typed hp hb hf hargs⟩
  | step h => exact Machine.step_typed hc hb (hinvoke _) hσ.2 hσ.1 h
  | foreign hcall hfunc ht => exact ⟨hσ.1, _, ht, map_type_zipWith (length_of_nextCall? hcall ht)⟩
  | launch hfunc hf hw =>
    obtain ⟨hstore, t, ht, hargs⟩ := hσ
    obtain ⟨slots, hopen, -, hstands⟩ := Compiled.stands_entry hp hb hr hfunc hf ht
      (a := ⟨_, _⟩) row_toArray (hargs ▸ hp.values _) (Nat.zero_le _)
    rw [hopen]
    exact ⟨henter _ _ hstore hw, hstands, t, ht, trivial⟩
  | behind h =>
    obtain ⟨hstore, hstands, t, ht, houter⟩ := hσ
    obtain ⟨hstore, hkept, hstands⟩ := hstands.behind hc hlinked hb hr hstore h
    exact ⟨hstore, hstands, t, ht, hkept.carry houter⟩
  | block | loop => exact ⟨hσ.1, hσ.2.1.parts hb, hσ.2.2⟩
  | again h =>
    obtain ⟨hstore, hstands, t, ht, houter⟩ := hσ
    obtain ⟨hstore, hkept, hstands⟩ := hstands.again hc hlinked hb hr hstore h
    exact ⟨hstore, hstands, t, ht, hkept.carry houter⟩
  | yes => exact ⟨hσ.1, (hσ.2.1.parts hb).1, hσ.2.2⟩
  | no =>
    obtain ⟨hstore, hstands, t, ht, houter⟩ := hσ
    exact ⟨hstore, (hstands.parts hb).2,
      t, by rwa [Spot.otherwise_func], by rwa [Spot.otherwise_fp]⟩
  | @enter _ _ _ _ _ _ _ _ _ a' hcall hfunc hf hw =>
    -- The frame of the callee starts at its arguments, and the caller keeps what is below.
    obtain ⟨hstore, hstands, t', ht', houter⟩ := hσ
    obtain ⟨t, args, ht, hargs, hrow, hslot, hfp, locals, operands, hlocals, hlimit, hactive⟩ :=
      hstands.calls hb hr hcall
    obtain ⟨hw, hslots⟩ := Activation.onWorld_eq_iff.1 hw
    rw [← hslots] at hrow hslot hlocals houter
    obtain ⟨slots, hopen, hkept, hstands⟩ := Compiled.stands_entry hp hb hr hfunc hf
      ht hrow hargs hslot
    rw [hopen]
    exact ⟨henter _ _ hstore hw, hstands, t, ht,
      hkept.carry ⟨⟨locals, operands, hlocals, hlimit, hactive⟩, t', ht', houter⟩⟩
  | leave hcall hfunc ht hargs =>
    obtain ⟨hstore, hstands, -⟩ := hσ
    obtain ⟨t', rs, ht', hrs, hrow, -⟩ := hstands.calls hb hr hcall
    have hr : Compiled.Renders _ _ _ := hr
    obtain rfl := Option.some.inj ((hr.types _).symm.trans ht ▸ ht')
    rw [Activation.arguments_eq hrow hrs.length_eq.symm] at hargs
    obtain ⟨⟨⟩, -⟩ := Prod.mk.inj hargs
    exact ⟨hstore, _, ht', map_type_zipWith hrs.length_eq.symm⟩

theorem Reaches.typed (hp : env.policy.Upholds V) (hlinked : env.Linked)
    (hb : env.mod.Bodies bodies) (hr : r.Renders env.mod bodies) (h : Reaches env r σ σ')
    (hσ : σ.Typed V env.mod bodies) : σ'.Typed V env.mod bodies := by
  induction h with
  | refl => exact hσ
  | tail _ h ih => exact h.typed hp hlinked hb hr ih

end Site

/-- **A call leaves a store whose globals meet the condition**, whatever it
comes to, and where it is cut short as well. -/
theorem Runtime.invoke_preserves {V : ValType → Raw → Prop} {bodies : Nat → Nested} {env : Env H}
    {r : Runtime} {func : Nat} {t : FuncType} {args : List Value} (hp : env.policy.Upholds V)
    (hlinked : env.Linked) (hb : env.mod.Bodies bodies) (hr : r.Renders env.mod bodies)
    (ht : env.mod.funcType? func = some t) (hargs : args.map Value.type = t.params) (n : Nat) :
    Preserves (fun w : World H => w.store.Carries V env.mod) (r.invoke env n func args) := by
  intro w hw
  have h := invoke_meets (hlinked.contract_carries hp) hb hlinked hr ht hargs n w hw
  rcases hrun : r.invoke env n func args w with ⟨(e | _ | _) | a, w'⟩ <;> rw [hrun] at h
  · exact h.1
  · exact h.elim
  · obtain ⟨σ, hσ, hstore⟩ := Site.stops_of_exhausted hr hrun
    have hcarries := (hσ.typed hp hlinked hb hr ⟨hw, t, ht, hargs⟩).carries.store
    rwa [hstore] at hcarries
  · exact h.1

end WasmEngine
