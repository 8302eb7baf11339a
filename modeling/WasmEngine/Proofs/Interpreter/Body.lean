import WasmEngine.Proofs.Interpreter.Simulation
import WasmEngine.Proofs.Module.Checked

/-!
# Flat code means what its tree means

The statement that lowering and interpretation are for: the flat code of a
checked body does, from any locals and in any world, what the reference
semantics says of the tree that the operators of the body are. Nothing depends
on the frames that wait or on what lies on the stacks below
(`WasmEngine.Interpreter.body_settles_iff_tree`).

What the machine does is said twice. Up to the return of the body, with its
calls, it is what `WasmEngine.Interpreter.runTo` does; and a whole run is the
body first and then the rest, be it the waiting frames or nothing.
-/

namespace WasmEngine

open Run Structured

variable {H : Type}

/-- What a family of results settles on that follows runs: what goes on behind a
run that ends in a value, or the halt of the run. -/
theorem exists_settled_iff_of_follows {σ τ α β : Type}
    {b : Nat → Except Halt α × σ} {delay : β → Nat} {k : β → τ → Nat → Except Halt α × σ}
    {stop : τ → σ} {x : Nat → Run τ β} {t : τ} (hb : Rising b)
    (h : ∀ n, Follows n b delay k stop (x n t)) {r : Except Halt α × σ} (hr : Settled r) :
    (∃ n, b n = r) ↔ (∃ o t', Settles x t (.ok o, t') ∧ ∃ n, k o t' n = r) ∨
      ∃ e t', Settles x t (.error e, t') ∧ r = (.error e, stop t') := by
  constructor
  · rintro ⟨n, rfl⟩
    have hn := h n
    rcases settled_cases (x n t) with ⟨o, t', hx⟩ | ⟨e, t', hx, he⟩ | ⟨t', hx⟩
    · rw [hx] at hn
      have hmore : b (n + delay o) = b n := hb.eq_of_le (Nat.le_add_right _ _) hr
      exact Or.inl ⟨o, t', ⟨settled_ok o t', n, hx⟩, n,
        (Leads.upper hn n (by rwa [hmore])).trans hmore⟩
    · rw [hx] at hn
      obtain ⟨j, hj⟩ := (follows_error he).1 hn
      refine Or.inr ⟨e, t', ⟨by simpa using he, n, hx⟩, ?_⟩
      rcases Nat.le_total n j with hnj | hjn
      · rw [← hb.eq_of_le hnj hr, hj]
      · rw [hb.eq_of_le hjn (by simp [hj, he]), hj]
    · rw [hx] at hn
      exact absurd hr hn
  · rintro (⟨o, t', ⟨-, n, hx⟩, i, rfl⟩ | ⟨e, t', ⟨he, n, hx⟩, rfl⟩)
    · exact Leads.lower (hx ▸ h n) i hr
    · exact (follows_error (by simpa using he)).1 (hx ▸ h n)

namespace Interpreter

/-- What is left to run after a return. -/
def resume (env : Env H) (n : Nat) : Progress → Run (World H) (List Raw)
  | .running m => run env n m
  | .finished values => return values

theorem resume_eq_ended (env : Env H) (n : Nat) (p : Progress) (l : Logged H) :
    resume env n p l.world = ended (onward env 0 p l n) := by
  cases p with
  | running m => exact run_eq_ended env n m l
  | finished vs => rfl

/-- The machine at the start of a function, with the stacks and the frames given
below it. -/
def atStart (f : Func) (t : FuncType) (locals : Array Raw) (callers : List Frame)
    (blocks : List Block) (under : List Raw) : Machine :=
  ⟨under, blocks, ⟨0, f.code, t.results.length, locals, blocks.length, under.length⟩, callers⟩

section

variable {env : Env H} {bodies : Nat → Nested} {i : Nat} {f : Func} {t : FuncType}
  {locals : Array Raw}

/-- A run from the start of a function is its body, and then what is left. -/
theorem run_settles_iff (hlinked : env.Linked) (hb : env.mod.Bodies bodies)
    (hf : env.mod.funcs[i]? = some f) (ht : env.mod.types[f.type]? = some t)
    (hlocals : locals.size = t.params.length + f.locals.length) (callers : List Frame)
    (blocks : List Block) (under : List Raw) (w : World H) (r : Except Halt (List Raw) × World H) :
    Settles (fun n => run env n (atStart f t locals callers blocks under)) w r ↔
      (∃ rs l, Settles (fun n => finish (Structured.run env bodies n) t.results.length (bodies i)
        locals) ⟨w, []⟩ (.ok rs, l) ∧
        Settles (fun n => resume env n (returned callers blocks under rs)) l.world r) ∨
      ∃ h l, Settles (fun n => finish (Structured.run env bodies n) t.results.length (bodies i)
        locals) ⟨w, []⟩ (.error h, l) ∧
        r = (.error h, l.world.exits callers.length) := by
  have hfollows (n : Nat) := body_follows (l := ⟨w, []⟩)
    ⟨0, f.code, t.results.length, locals, blocks.length, under.length⟩ hlinked hb
      (simulates hlinked hb n) hf ht rfl rfl rfl
    rfl hlocals (Nat.zero_le callers.length)
  have hiff {r' : Except Halt Progress × Logged H} (hr' : Settled r') :=
    exists_settled_iff_of_follows
    (x := fun n => finish (Structured.run env bodies n) t.results.length (bodies i) locals)
    (rising_runTo env 0 _ ⟨w, []⟩) hfollows hr'
  have hrun (n : Nat) : run env n (atStart f t locals callers blocks under) w =
      ended (runTo env 0 n (atStart f t locals callers blocks under) ⟨w, []⟩) :=
      run_eq_ended env n _ ⟨w, []⟩
  constructor
  · rintro ⟨hr, n, rfl⟩
    simp only [hrun] at hr ⊢
    rw [settled_ended] at hr
    rcases (hiff hr).1 ⟨n, rfl⟩ with ⟨rs, l, hset, j, hj⟩ | ⟨e, l, hset, heq⟩
    · refine Or.inl ⟨rs, l, hset, (settled_ended _).2 hr, j, ?_⟩
      exact (resume_eq_ended env j _ l).trans (congrArg ended hj)
    · exact Or.inr ⟨e, l, hset, congrArg ended heq⟩
  · rintro (⟨rs, l, hset, hr, j, hj⟩ | ⟨e, l, hset, rfl⟩)
    · simp only [resume_eq_ended] at hj
      subst hj
      obtain ⟨n, hn⟩ := (hiff ((settled_ended _).1 hr)).2 (Or.inl ⟨rs, l, hset, j, rfl⟩)
      exact ⟨hr, n, (hrun n).trans (congrArg ended hn)⟩
    · have he : e ≠ .exhausted := by simpa using hset.1
      obtain ⟨n, hn⟩ := (hiff ((settled_error e (l.exits (callers.length - 0))).2 he)).2
        (Or.inr ⟨e, l, hset, rfl⟩)
      exact ⟨(settled_error e _).2 he, n, (hrun n).trans (congrArg ended hn)⟩

end

/-- What the reference semantics says of the body of a function, within a bound;
called functions have the nested code of their bodies as well. -/
def reference (env : Env H) (sources : Nat → BodyDef) (i count : Nat)
    (locals : Array Raw) (n : Nat) : Run (Logged H) (List Raw) :=
  finish (Structured.run env (fun j => (sources j).nested) n) count (sources i).nested locals

/-- **Flat code means what its tree means.** The operators of each body are
those of a tree, which is lowered to nested code. From any locals, in any world
and on top of any stacks, the machine at the start of a function

* comes to its return or halts as the reference semantics of that nested code
  does, with the same results, the same world and the same calls, and it goes on
  forever if that does;
* and then does what the frames that wait do with the results, while a halt
  returns their units of call depth. -/
theorem body_settles_iff_tree {env : Env H} {s : Scope} {sources : Nat → BodyDef}
    (hm : env.mod.Checked s sources) (hlinked : env.Linked) {i : Nat} {f : Func} {t : FuncType}
    (hf : env.mod.funcs[i]? = some f) (ht : env.mod.types[f.type]? = some t) {locals : Array Raw}
    (hlocals : locals.size = t.params.length + f.locals.length) (callers : List Frame)
    (blocks : List Block) (under : List Raw) :
    (∀ {j g}, env.mod.funcs[j]? = some g →
      ∃ tree : Tree, (sources j).ops = tree.operators ++ [.endBlock] ∧
      tree.lower = .ok (sources j).nested) ∧
    (∀ l r,
      Settles (fun n => runTo env callers.length n (atStart f t locals callers blocks under)) l r ↔
      Settles (fun n => do
        let rs ← reference env sources i t.results.length locals n
        return returned callers blocks under rs) l r) ∧
    (∀ l,
      Diverges (fun n => runTo env callers.length n (atStart f t locals callers blocks under)) l ↔
      Diverges (reference env sources i t.results.length locals) l) ∧
    ∀ w r, Settles (fun n => run env n (atStart f t locals callers blocks under)) w r ↔
      (∃ rs l, Settles (reference env sources i t.results.length locals) ⟨w, []⟩ (.ok rs, l) ∧
        Settles (fun n => resume env n (returned callers blocks under rs)) l.world r) ∨
      ∃ h l, Settles (reference env sources i t.results.length locals) ⟨w, []⟩ (.error h, l) ∧
        r = (.error h, l.world.exits callers.length) := by
  have hb := hm.bodies
  have hiff (l : Logged H) (r : Except Halt Progress × Logged H) :
      Settles (fun n => runTo env callers.length n (atStart f t locals callers blocks under)) l r ↔
        Settles (fun n => do
          let rs ← reference env sources i t.results.length locals n
          return returned callers blocks under rs) l r :=
    settles_iff_of_tracks fun n => body_tracks ⟨0, f.code, t.results.length, locals,
      blocks.length, under.length⟩
      callers blocks under locals hlinked hb (simulates hlinked hb n) hf ht rfl rfl rfl rfl hlocals
  refine ⟨fun hg => ?_, hiff, fun l => ?_, run_settles_iff hlinked hb hf ht hlocals
    callers blocks under⟩
  · obtain ⟨_, -, hbody, hlower⟩ := hm.body hg
    obtain ⟨tree, htree, hnested, -⟩ := BodyDef.of_lower hbody hlower
    exact ⟨tree, Tree.operators_of_ofOperators? htree, hnested⟩
  · rw [diverges_iff]
    simp only [hiff, ← diverges_iff]
    exact diverges_bind_pure _ _ _

/-! ### A function that counts down -/

/-- A loop in a block: a branch leaves both when the counter is zero, and else
the loop starts over with one less. -/
def countdown : BodyDef where
  locals := []
  ops := [.opening (.block .empty), .opening (.loop .empty),
    .simple (.plain (.localGet 0)), .simple (.plain (.unary (.eqz .w32))),
    .simple (.plain (.brIf 1)), .simple (.plain (.localGet 0)), .simple (.plain (.const (.i32 1))),
    .simple (.plain (.binary (.int .w32 .sub))), .simple (.plain (.localSet 0)),
    .simple (.plain (.br 0)), .endBlock, .endBlock, .simple (.plain (.localGet 0)), .endBlock]

/-- The flat code of `countdown`. -/
def countdownFunc : Func where
  type := 0
  locals := []
  code := #[.block .empty 11, .loop .empty 9, .plain (.localGet 0), .plain (.unary (.eqz .w32)),
    .plain (.brIf 1), .plain (.localGet 0), .plain (.const (.i32 1)),
    .plain (.binary (.int .w32 .sub)), .plain (.localSet 0), .plain (.br 0), .endBlock, .endBlock,
    .plain (.localGet 0), .plain .ret]

/-- A module with `countdown` alone, to be run without a host. -/
def countdownEnv : Env Unit where
  mod := { types := #[⟨[.i32], [.i32]⟩], funcs := #[countdownFunc] }
  policy := .soft
  hosts := #[]

theorem countdownEnv_checked :
    countdownEnv.mod.Checked { types := #[⟨[.i32], [.i32]⟩], funcs := [0] } fun _ => countdown where
  scope := {
    types := rfl
    funcs := fun func => by cases func <;> rfl
    globals := by simp
    tables := rfl
    memories := rfl }
  body := fun {i f} hf => by
    obtain ⟨rfl, rfl⟩ : i = 0 ∧ countdownFunc = f := by
      cases i with
      | zero => exact ⟨rfl, Option.some.inj hf⟩
      | succ i => simp [countdownEnv] at hf
    exact ⟨⟨[.i32], [.i32]⟩, rfl, by decide +kernel, rfl⟩

/-- From a counter of three, on top of a frame that waits for the result. -/
theorem countdown_settles_iff_tree :
    countdownEnv.mod.Checked { types := #[⟨[.i32], [.i32]⟩], funcs := [0] } (fun _ => countdown) ∧
    (∀ l r, Settles (fun n => runTo countdownEnv 1 n
        (atStart countdownFunc ⟨[.i32], [.i32]⟩ #[3] [⟨7, #[], 0, #[], 0, 0⟩] [] [5])) l r ↔
      Settles (fun n => do
        let rs ← reference countdownEnv (fun _ => countdown) 0 1 #[3] n
        return returned [⟨7, #[], 0, #[], 0, 0⟩] [] [5] rs) l r) :=
  ⟨countdownEnv_checked, (body_settles_iff_tree (f := countdownFunc) (t := ⟨[.i32], [.i32]⟩)
    countdownEnv_checked
    (fun h => absurd h (Nat.not_lt_zero _)) rfl rfl rfl [⟨7, #[], 0, #[], 0, 0⟩] [] [5]).2.1⟩

end Interpreter

end WasmEngine
