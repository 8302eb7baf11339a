import WasmEngine.Proofs.Instance.CallDepth
import WasmEngine.Proofs.Instance.Recording

/-!
# The ceiling of an instance

The same instance is looked at **under** two ceilings of call depth
(`WasmEngine.Instance.under`), a lower and a higher one, and the same export is
invoked. If no attempt of a call is refused under the lower ceiling, then
nothing shows that there is a higher one: not the results, not the state, not
the context of the host, and not the calls of host functions in it. If one is
refused, then under the higher ceiling more calls are active at some moment than
the lower one allows (`WasmEngine.Instance.raised_ceiling`).
-/

namespace WasmEngine

open Run

variable {H : Type}

/-! ### Recorded functions are blind -/

theorem HostProg.traced_blind {p : HostProg H} (hp : p.Blind) : p.traced.Blind := by
  induction p with
  | finish r => trivial
  | look next ih =>
    intro w
    refine ⟨fun C => ?_, ih _ (hp _).2⟩
    exact congrArg HostProg.traced ((hp ⟨w.store, w.guard, w.host.1⟩).1 C)
  | setHost h next ih => exact fun w => ⟨fun _ => rfl, ih hp⟩
  | memory _ _ ih | call _ _ _ ih => exact fun r => ih r (hp r)

theorem HostFunction.recorded_blind {f : HostFunction H} (hf : f.Blind) (name : String × String) :
    (f.recorded name).Blind :=
  fun args _ => ⟨fun _ => rfl, HostProg.traced_blind (hf args)⟩

namespace Instance

/-- The instance under another ceiling, with no call active. -/
def under (C : Nat) (i : Instance H) : Instance H :=
  { i with options := { i.options with maxCallDepth := C }, guard := Guard.new C }

/-- The instance with its functions recorded, each under the names of its import. -/
def recorded (i : Instance H) : Instance (Traced H) :=
  i.record (i.hosts.mapIdx fun k f => f.recorded
    ((i.mod.imports[k]?.map fun m => (m.moduleName, m.name)).getD ("", "")))

/-- **The moments of an invocation** of an export; there are none where there is
nothing to run. -/
def InvokeDuring (i : Instance H) (bound : Nat) (name : String) (args : List Value) (h : H)
    (μ : Moment H) : Prop :=
  ∃ func results r, i.lookup "env" name args = .ok (func, results) ∧ i.runtime = some r ∧
    r.During ⟨i.mod, i.policy, i.hosts⟩ bound 0 func args ⟨i.store, i.guard, h⟩ μ

/-- **An invocation under two ceilings.** -/
structure Outgrows (i : Instance H) (C C' : Nat) (name : String) (args : List Value)
    (h : H) : Prop where
  /-- If every attempt of a call succeeds, the higher ceiling makes no
  difference. -/
  same : ∀ bound,
    (∀ μ, (i.under C).InvokeDuring bound name args h μ → μ.event = .attempt →
      (World.enter μ.world).1 = .ok ()) →
    invoke bound name args (i.under C', h) =
      ((invoke bound name args (i.under C, h)).1,
        (invoke bound name args (i.under C, h)).2.1.under C',
        (invoke bound name args (i.under C, h)).2.2)
  /-- If one fails, there are more calls active under the higher ceiling. -/
  more : C < C' → ∀ bound μ, (i.under C).InvokeDuring bound name args h μ → μ.event = .attempt →
    (World.enter μ.world).1 ≠ .ok () →
    ∃ bound' μ', (i.under C').InvokeDuring bound' name args h μ' ∧ C < μ'.active

/-- At a moment that is counted, the refused attempts are those that fail. -/
theorem refused_iff {C : Nat} {μ : Moment H} (h : μ.Counted C) (hμ : μ.event = .attempt) :
    μ.Refused C ↔ (World.enter μ.world).1 ≠ .ok () := by
  rw [enter_eq h.guard_eq]
  constructor
  · rintro ⟨-, heq⟩
    rw [if_neg (Nat.not_lt.mpr (Nat.le_of_eq heq.symm))]
    rintro ⟨⟩
  · intro hne
    refine ⟨hμ, Nat.le_antisymm h.active_le (Nat.not_lt.mp fun hlt => hne ?_)⟩
    rw [if_pos hlt]

/-- What is made of a call that ran, under another ceiling; a call that ended
with values has no call active. -/
theorem ran_under (i : Instance H) (C C' : Nat) {x : Except Halt (List Value) × World H}
    (hx : ∀ vs, x.1 = .ok vs → x.2.guard.depth = 0) :
    (i.under C').ran (x.1, x.2.under C') =
      (((i.under C).ran x).1, ((i.under C).ran x).2.1.under C', ((i.under C).ran x).2.2) := by
  obtain ⟨e | vs, store, ⟨depth, ceiling⟩, h⟩ := x
  · rfl
  · obtain rfl : depth = 0 := hx vs rfl
    rfl

/-- An invocation fails before it runs anything, or it is a call of a function
of the module. -/
theorem invoke_under (i : Instance H) (name : String) (args : List Value) (h : H) :
    (∃ e, ∀ C bound, invoke bound name args (i.under C, h) = (.error e, i.under C, h) ∧
      ∀ μ, ¬(i.under C).InvokeDuring bound name args h μ) ∨
    ∃ (func : Nat) (r : Runtime), ∀ C bound,
      invoke bound name args (i.under C, h) =
        (i.under C).ran (r.invoke ⟨i.mod, i.policy, i.hosts⟩ bound func args
          ⟨i.store, Guard.new C, h⟩) ∧
      ∀ μ, (i.under C).InvokeDuring bound name args h μ ↔
        r.During ⟨i.mod, i.policy, i.hosts⟩ bound 0 func args ⟨i.store, Guard.new C, h⟩ μ := by
  have hlookup : ∀ C, (i.under C).lookup "env" name args = i.lookup "env" name args := fun _ => rfl
  rcases hl : i.lookup "env" name args with e | ⟨func, results⟩
  · refine .inl ⟨.error e, fun C bound => ⟨?_, ?_⟩⟩
    · simp only [invoke, hlookup, hl]
    · rintro μ ⟨func, results, r, hfunc, -⟩
      rw [hlookup, hl] at hfunc
      cases hfunc
  · rcases hr : i.runtime with _ | r
    · refine .inl ⟨.error .notInitialized, fun C bound => ⟨?_, ?_⟩⟩
      · have hrC : (i.under C).runtime = none := hr
        simp only [invoke, hlookup, hl, run, hrC]
      · rintro μ ⟨func, results, r, -, hr', -⟩
        have hrC : (i.under C).runtime = none := hr
        rw [hrC] at hr'
        cases hr'
    · refine .inr ⟨func, r, fun C bound =>
        ⟨?_, fun μ => ⟨?_, fun hμ => ⟨func, results, r, (hlookup C).trans hl, hr, hμ⟩⟩⟩⟩
      · simp only [invoke, hlookup, hl]
        exact run_eq_ran (i := i.under C) hr bound func args h
      · rintro ⟨func', results', r', hfunc, hr', hμ⟩
        rw [hlookup, hl] at hfunc
        cases hfunc
        have hrC : (i.under C).runtime = some r := hr
        rw [hrC] at hr'
        cases hr'
        exact hμ

/-- A ceiling that is not raised. -/
theorem outgrows_refl (i : Instance H) (C : Nat) (name : String) (args : List Value) (h : H) :
    i.Outgrows C C name args h := by
  refine ⟨fun bound _ => ?_, fun hlt => absurd hlt (Nat.lt_irrefl C)⟩
  obtain ⟨e, hfails⟩ | ⟨func, r, hruns⟩ := i.invoke_under name args h
  · rw [(hfails C bound).1]
    rfl
  · have hends := r.guard_invoke ⟨i.mod, i.policy, i.hosts⟩ bound func args
      (w := ⟨i.store, Guard.new C, h⟩) (Nat.zero_le C)
    rw [(hruns C bound).1]
    generalize r.invoke ⟨i.mod, i.policy, i.hosts⟩ bound func args ⟨i.store, Guard.new C, h⟩ = x
      at hends ⊢
    obtain ⟨e | vs, w⟩ := x
    · rfl
    · have hw : w.guard = ⟨0, C⟩ := hends (settled_ok vs w)
      simp only [ran, under, hw, Guard.new]

theorem outgrows_of_lt {i : Instance H} (hhosts : ∀ f ∈ i.hosts, f.Blind) {C C' : Nat}
    (hlt : C < C') (name : String) (args : List Value) (h : H) : i.Outgrows C C' name args h := by
  obtain ⟨e, hfails⟩ | ⟨func, r, hruns⟩ := i.invoke_under name args h
  · constructor
    · intro bound _
      rw [(hfails C bound).1, (hfails C' bound).1]
      rfl
    · exact fun _ bound μ hμ => absurd hμ ((hfails C bound).2 μ)
  · -- The run is watched under both ceilings, and what is seen answers both questions.
    have hsees := fun bound => r.noted_holds (W := ⟨C, C', True, fun _ => hlt⟩)
      ⟨i.mod, i.policy, i.hosts⟩ (fun _ => hhosts) 0 bound func args
      ⟨i.store, Guard.new C, h⟩ rfl (Nat.zero_le C)
    have hcounted : ∀ bound μ, (i.under C).InvokeDuring bound name args h μ → μ.Counted C :=
      fun bound μ hμ => (hsees bound).counted μ (((hruns C bound).2 μ).mp hμ)
    constructor
    · intro bound hclean
      cases (hsees bound).raised trivial with
      | unseen _ same =>
        rw [r.run_noted] at same
        have hsame : r.invoke ⟨i.mod, i.policy, i.hosts⟩ bound func args
          ⟨i.store, Guard.new C', h⟩ = _ := same
        rw [(hruns C bound).1, (hruns C' bound).1, hsame]
        refine ran_under i C C' fun vs hvs => ?_
        rw [r.guard_invoke _ bound func args (Nat.zero_le C) (by rw [Settled, hvs]; rintro ⟨⟩)]
        rfl
      | higher refused _ =>
        obtain ⟨μ, hμ, href⟩ := refused
        have hduring := ((hruns C bound).2 μ).mpr hμ
        exact absurd (hclean μ hduring href.1)
          ((refused_iff (hcounted bound μ hduring) href.1).mp href)
    · intro _ bound μ hμ hattempt hfails
      have href := (refused_iff (hcounted bound μ hμ) hattempt).mpr hfails
      cases (hsees bound).raised trivial with
      | unseen clean _ => exact absurd href (clean μ (((hruns C bound).2 μ).mp hμ))
      | higher _ reached =>
        obtain ⟨μ', hμ', hmore⟩ := reached
        exact ⟨bound, μ', ((hruns C' bound).2 μ').mpr hμ', hmore⟩

/-- **Raising the ceiling of call depth is invisible to invocations that do not
hit it.** Take any instance, in any state, whose host functions see of the guard
only the depth; they may look at everything else and call back. Invoke an export
under a ceiling and under one that is not lower. If no attempt of a call fails
under the first, then under the second the outcome is the same, a value or an
error, and so are the state, the context of the host and the instance as a
whole, but for the ceiling; with recorded functions this includes all calls of
host functions, in order. If the second is higher and an attempt fails under the
first, then under the second there is a moment with more active calls than the
first allows. -/
theorem raised_ceiling (i : Instance H) (hhosts : ∀ f ∈ i.hosts, f.Blind) {C C' : Nat}
    (hle : C ≤ C') (name : String) (args : List Value) (h : H) :
    i.Outgrows C C' name args h ∧ i.recorded.Outgrows C C' name args (h, []) := by
  rcases Nat.lt_or_eq_of_le hle with hlt | rfl
  · refine ⟨outgrows_of_lt hhosts hlt name args h, outgrows_of_lt ?_ hlt name args (h, [])⟩
    intro f hf
    obtain ⟨k, hk, rfl⟩ := Array.mem_mapIdx.mp hf
    exact HostFunction.recorded_blind (hhosts _ (Array.getElem_mem hk)) _
  · exact ⟨outgrows_refl i C name args h, outgrows_refl i.recorded C name args (h, [])⟩

/-- The binary of a module with two exports: `leaf` does nothing, and `stem`
calls the import `back`. -/
def stemBytes : List UInt8 := [
  0x00, 0x61, 0x73, 0x6d, 0x01, 0x00, 0x00, 0x00,
  0x01, 0x04, 0x01, 0x60, 0x00, 0x00,
  0x02, 0x0c, 0x01, 0x03, 0x65, 0x6e, 0x76, 0x04, 0x62, 0x61, 0x63, 0x6b, 0x00, 0x00,
  0x03, 0x03, 0x02, 0x00, 0x00,
  0x07, 0x0f, 0x02, 0x04, 0x6c, 0x65, 0x61, 0x66, 0x00, 0x01, 0x04, 0x73, 0x74, 0x65, 0x6d, 0x00,
  0x02, 0x0a, 0x09, 0x02, 0x02, 0x00, 0x0b, 0x04, 0x00, 0x10, 0x00, 0x0b]

/-- The module. -/
def stem : Module where
  version := some 1
  types := #[⟨[], []⟩]
  imports := [⟨"env", "back", .func 0⟩]
  exports := [⟨"leaf", .func, 1⟩, ⟨"stem", .func, 2⟩]
  funcs := #[⟨0, [], #[.plain .ret]⟩, ⟨0, [], #[.plain (.call 0), .plain .ret]⟩]

theorem decode_stem : Module.decode stemBytes = .ok stem := rfl

/-- A host function that counts its calls, and calls `leaf` if it is called by
the entry call. -/
def back : HostFunction Nat where
  type := ⟨[], []⟩
  run _ := .look fun w => .setHost (w.host + 1)
    (if w.guard.depth = 2 then .call "leaf" [] fun _ => .finish (.ok []) else .finish (.ok []))

theorem back_blind : back.Blind := by
  intro args w
  refine ⟨fun _ => rfl, ?_⟩
  simp only [HostProg.Blind]
  split
  · exact fun _ => trivial
  · trivial

/-- The module, interpreted and set up. -/
def stemInstance : Instance Nat :=
  (fresh stem .interpreter .soft {}).through
    [⟨0, 0, .setMemory 0⟩, ⟨0, 0, .setRegistry ⟨[(("env", "back"), back)]⟩⟩, ⟨0, 9, .setUp none⟩]

theorem stemInstance_blind : ∀ f ∈ stemInstance.hosts, f.Blind := by
  have hhosts : stemInstance.hosts = #[back] := rfl
  rw [hhosts]
  intro f hf
  rw [List.mem_toArray, List.mem_singleton] at hf
  rw [hf]
  exact back_blind

/-- With a ceiling of two calls, that of `leaf` is refused: `stem` and `back`
are active. -/
theorem stem_refused : (stemInstance.under 2).InvokeDuring 9 "stem" [] 0
    ⟨2, .attempt, ⟨stemInstance.store, ⟨2, 2⟩, 1⟩⟩ :=
  ⟨2, 0, .interpreter, rfl, rfl,
    .tail _ (.tail _ (.tail _ (.tail _ (.tail _ (.tail _ (.tail _ (.head _)))))))⟩

/-- With a ceiling of one call, nothing is refused in a call of `leaf`. -/
theorem leaf_clean (μ : Moment Nat) (hμ : (stemInstance.under 1).InvokeDuring 9 "leaf" [] 0 μ)
    (hattempt : μ.event = .attempt) : (World.enter μ.world).1 = .ok () := by
  obtain ⟨func, results, r, hfunc, hr, hμ⟩ := hμ
  have hlookup : (stemInstance.under 1).lookup "env" "leaf" [] = .ok (1, 0) := rfl
  have hruntime : (stemInstance.under 1).runtime = some .interpreter := rfl
  rw [hlookup] at hfunc
  rw [hruntime] at hr
  cases hfunc
  cases hr
  -- The only instruction returns, so the entry call is the only one that is attempted.
  rcases hμ with _ | ⟨_, _ | ⟨_, _ | ⟨_, _ | ⟨_, ⟨⟩⟩⟩⟩⟩
  · rfl
  all_goals cases hattempt

/-- A ceiling of one call more goes unseen by `leaf`, and for `stem` there is
one call more. -/
theorem stem_raised_ceiling :
    Module.decode stemBytes = .ok stem ∧ stemInstance.ready = true ∧
    (∀ f ∈ stemInstance.hosts, f.Blind) ∧
      (invoke 9 "leaf" [] (stemInstance.under 2, 0)).1 =
      (invoke 9 "leaf" [] (stemInstance.under 1, 0)).1 ∧
      ∃ bound μ, (stemInstance.under 3).InvokeDuring bound "stem" [] 0 μ ∧ 2 < μ.active := by
  have hleaf :=
    (raised_ceiling stemInstance stemInstance_blind (Nat.le_succ 1) "leaf" [] 0).1.same 9 leaf_clean
  have hstem := (raised_ceiling stemInstance stemInstance_blind (Nat.le_succ 2) "stem" [] 0).1.more
    (Nat.lt_succ_self 2) 9 _
    stem_refused rfl
  refine ⟨decode_stem, by decide +kernel, stemInstance_blind, ?_, hstem ?_⟩
  · rw [hleaf]
  · rintro ⟨⟩

end Instance

end WasmEngine
