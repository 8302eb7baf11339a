import WasmEngine.Proofs.Calls.Moment
import WasmEngine.Proofs.Interpreter.Shown
import WasmEngine.Proofs.Keeps

/-!
# Watching the guard

Two things are said about the guard in the course of a call. One is that it
**counts**: at all moments its depth is the number of active calls
(`WasmEngine.Moment.Counted`), and what is taken is returned. The other is about a
**higher ceiling** (`WasmEngine.Raised`). The ceiling is read in one place only,
where a call is attempted. So a run in a world under a higher one
(`WasmEngine.World.under`) goes the same way up to the first attempt that the lower
one refuses, and there it has more calls active than the lower ceiling allows:
either no attempt is refused, and the run under the higher ceiling ends the same
way, in the same world but for the ceiling; or one is, and under the higher ceiling
there is a moment with more active calls.

Both follow a run from part to part, and the second needs the first. So they are
watched together (`WasmEngine.Watch.Holds`), in the world of interpreted code and in
the state of compiled code, with one rule for each way to put runs together. Where
only the count matters, no higher ceiling is asked for (`WasmEngine.Watch.raises`).

A host function may look at the depth, but one that looked at the ceiling would give
it away. Those that do not are **blind** (`WasmEngine.HostProg.Blind`).
-/

namespace WasmEngine

open Run Noted
open HasWorld (world)

variable {σ τ H α β : Type} {C C' active : Nat}

/-! ### Moments -/

namespace Moment

/-- The depth of the guard is the number of active calls, the ceiling is not passed,
and no call ends that is not active. -/
structure Counted (C : Nat) (μ : Moment H) : Prop where
  guard_eq : μ.world.guard = ⟨μ.active, C⟩
  active_le : μ.active ≤ C
  leaving_le : ∀ n, μ.event = .leaving n → n ≤ μ.active

theorem counted_leaving {w : World H} (hw : w.guard = ⟨active, C⟩) (h : active ≤ C) {n : Nat}
    (hn : n ≤ active) : Counted C ⟨active, .leaving n, w⟩ := by
  refine ⟨hw, h, ?_⟩
  rintro m ⟨⟩
  exact hn

/-- A call is attempted that a ceiling refuses. -/
def Refused (C : Nat) (μ : Moment H) : Prop := μ.event = .attempt ∧ μ.active = C

end Moment

/-! ### Worlds under another ceiling -/

namespace World

/-- The world with another ceiling of call depth. -/
def under (C : Nat) (w : World H) : World H :=
  { w with guard := { w.guard with maxDepth := C } }

theorem view_under (C : Nat) : View (under C : World H → World H) where
  store _ := rfl
  put _ _ := rfl
  exits _ _ := rfl

end World

/-- **A host program that is blind to the ceiling**: of the guard it sees the depth
alone. -/
def HostProg.Blind : HostProg H → Prop
  | .finish _ => True
  | .look next => ∀ w, (∀ C, next (w.under C) = next w) ∧ Blind (next w)
  | .setHost _ next => Blind next
  | .memory _ next => ∀ r, Blind (next r)
  | .call _ _ next => ∀ r, Blind (next r)

/-- A host function that is blind to the ceiling. -/
def HostFunction.Blind (f : HostFunction H) : Prop := ∀ args, (f.run args).Blind

/-! ### Attempts -/

theorem enter_eq {w : World H} (hw : w.guard = ⟨active, C⟩) :
    World.enter w = if active < C then (.ok (), { w with guard := ⟨active + 1, C⟩ })
      else (.error (.error (.trap (.callDepthExceeded C))), w) := by
  by_cases h : active < C
  · simp [World.enter, Guard.enter, hw, h, Nat.not_le.mpr h]
  · simp [World.enter, Guard.enter, hw, h, Nat.not_lt.mp h]

theorem attempt_eq [HasWorld σ H] (s : σ) : (attempt active : Noted H σ Unit) s =
    match World.enter (world s) with
    | (.ok u, w) =>
      ([⟨active, .attempt, world s⟩, ⟨active + 1, .running, world (HasWorld.put w s)⟩],
        .ok u, HasWorld.put w s)
    | (.error e, w) => ([⟨active, .attempt, world s⟩], .error e, HasWorld.put w s) := by
  rw [attempt]
  show Noted.bind _ (fun _ => Noted.bind _ _) s = _
  simp only [Noted.bind, note, inWorld, silent, run, moments]
  rcases World.enter (world s) with ⟨e | u, w⟩ <;> rfl

section

variable [HasWorld σ H] {s : σ} (hs : (world s).guard = ⟨active, C⟩)
include hs

theorem attempt_entered (h : active < C) :
    (attempt active : Noted H σ Unit) s =
      ([⟨active, .attempt, world s⟩,
        ⟨active + 1, .running, { world s with guard := ⟨active + 1, C⟩ }⟩], .ok (),
      HasWorld.put { world s with guard := ⟨active + 1, C⟩ } s) := by
  rw [attempt_eq, enter_eq hs, if_pos h]
  simp only [HasWorld.world_put]

theorem attempt_refused (h : ¬active < C) :
    (attempt active : Noted H σ Unit) s =
      ([⟨active, .attempt, world s⟩], .error (.error (.trap (.callDepthExceeded C))), s) := by
  rw [attempt_eq, enter_eq hs, if_neg h]
  simp only [HasWorld.put_world]

end

/-! ### Runs under a higher ceiling -/

/-- **What a higher ceiling does to a run in a state**; `v` raises it there. -/
inductive Raised (C : Nat) (v : σ → σ) (x : Noted H σ α) (s : σ) : Prop
  /-- Nothing is refused, and the run ends the same way. -/
  | unseen (clean : ∀ μ ∈ x.moments s, ¬μ.Refused C)
    (same : x.run (v s) = ((x.run s).1, v (x.run s).2))
  /-- Something is refused, and under the higher ceiling there are more calls
  active. -/
  | higher (refused : ∃ μ ∈ x.moments s, μ.Refused C)
    (reached : ∃ μ ∈ x.moments (v s), C < μ.active)

/-- A higher ceiling that is passed in a run is passed in all that the run is part
of. -/
theorem Raised.part {v : σ → σ} {u : τ → τ} {x : Noted H σ α} {y : Noted H τ β} {s : σ} {t : τ}
    (refused : ∃ μ ∈ x.moments s, μ.Refused C) (reached : ∃ μ ∈ x.moments (v s), C < μ.active)
    (ht : x.moments s ⊆ y.moments t) (hu : x.moments (v s) ⊆ y.moments (u t)) :
    Raised C u y t := by
  obtain ⟨μ, hμ, href⟩ := refused
  obtain ⟨μ', hμ', hmore⟩ := reached
  exact .higher ⟨μ, ht hμ, href⟩ ⟨μ', hu hμ', hmore⟩

/-- The run may be part of another one that has no moments of its own. -/
theorem Raised.within {v : σ → σ} {u : τ → τ} {x : Noted H σ α} {y : Noted H τ β} {s : σ} {t : τ}
    (h : Raised C v x s) (ht : y.moments t = x.moments s) (hu : y.moments (u t) = x.moments (v s))
    (hy : x.run (v s) = ((x.run s).1, v (x.run s).2) → y.run (u t) = ((y.run t).1, u (y.run t).2)) :
    Raised C u y t := by
  cases h with
  | unseen clean same => exact .unseen (ht ▸ clean) (hy same)
  | higher refused reached => exact .higher (ht ▸ refused) (hu ▸ reached)

/-- **One run after another.** -/
theorem Raised.bind {v : σ → σ} {x : Noted H σ α} {f : α → Noted H σ β} {s : σ}
    (hx : Raised C v x s) (hf : ∀ a s', x.run s = (.ok a, s') → Raised C v (f a) s') :
    Raised C v (x >>= f) s := by
  cases hx with
  | higher refused reached =>
    exact .part refused reached (fun _ => mem_moments_bind) fun _ => mem_moments_bind
  | unseen clean same =>
    -- The first ends the same way, so the second starts in the same state, raised.
    rcases hxs : x.run s with ⟨e | a, s'⟩
    · -- Where the first halts there is no second, under either ceiling.
      refine .unseen ?_ ?_
      · rwa [moments_bind_error hxs]
      · rw [run_bind, bind_apply, bind_apply, same, hxs]
    · have hxv : x.run (v s) = (.ok a, v s') := by rw [same, hxs]
      cases hf a s' hxs with
      | unseen clean' same' =>
        refine .unseen ?_ ?_
        · rw [moments_bind_ok hxs]
          exact List.forall_mem_append.mpr ⟨clean, clean'⟩
        · rw [run_bind, bind_ok hxv, bind_ok hxs, same']
      | higher refused reached =>
        refine .part refused reached ?_ ?_
        · rw [moments_bind_ok hxs]
          exact List.subset_append_right _ _
        · rw [moments_bind_ok hxv]
          exact List.subset_append_right _ _

/-! ### What is watched -/

/-- **What is watched of a run**: the guard under its ceiling, and under a
higher one if that is asked for. -/
structure Watch where
  /-- The ceiling. -/
  ceiling : Nat
  /-- The higher ceiling. -/
  higher : Nat
  /-- Whether a higher ceiling is asked for. -/
  raises : Prop
  ceiling_lt : raises → ceiling < higher

namespace Watch

/-- Only the count matters. -/
def count (C : Nat) : Watch := ⟨C, C, False, False.elim⟩

variable (W : Watch) [HasWorld σ H]

/-- The state under the higher ceiling. -/
def raise (s : σ) : σ := HasWorld.put ((world s).under W.higher) s

theorem raise_put (w : World H) (s : σ) :
    W.raise (HasWorld.put w s) = HasWorld.put (w.under W.higher) s := by
  rw [raise, HasWorld.world_put, HasWorld.put_put]

/-- What is put into a raised state is put into the state. -/
theorem put_raise (w : World H) (s : σ) : HasWorld.put w (W.raise s) = HasWorld.put w s := by
  rw [raise, HasWorld.put_put]

theorem world_raise (s : σ) : world (W.raise s) = (world s).under W.higher := by
  rw [raise, HasWorld.world_put]

/-- **What is seen of a run in a state**; `post` is what has to hold of its
outcome and the guard in the end, unless it is exhausted. -/
structure Sees (post : Except Halt α → Guard → Prop) (x : Noted H σ α) (s : σ) : Prop where
  /-- What holds in the end. -/
  ends : Settled (x.run s) → post (x.run s).1 (world (x.run s).2).guard
  /-- The guard counts the active calls. -/
  counted : ∀ μ ∈ x.moments s, μ.Counted W.ceiling
  /-- The ceiling is unseen or passed. -/
  raised : W.raises → Raised W.ceiling W.raise x s

/-- **What is watched holds of a run**, wherever so many calls are active. -/
def Holds (active : Nat) (post : Except Halt α → Guard → Prop) (x : Noted H σ α) : Prop :=
  ∀ s, (world s).guard = ⟨active, W.ceiling⟩ → active ≤ W.ceiling → W.Sees post x s

/-- In the end so many calls are active, whatever the outcome. -/
abbrev back (active : Nat) (_ : Except Halt α) (g : Guard) : Prop := g = ⟨active, W.ceiling⟩

/-- A run that halts may leave the guard as it is. -/
class Absorbs (active : Nat) (post : Except Halt α → Guard → Prop) : Prop where
  error : ∀ e, post (.error e) ⟨active, W.ceiling⟩

instance (active : Nat) : W.Absorbs active (W.back active : Except Halt α → Guard → Prop) :=
  ⟨fun _ => rfl⟩

/-- There is one more call active, unless the run halts. -/
def Entered (active : Nat) : Except Halt α → Guard → Prop
  | .ok _, g => g = ⟨active + 1, W.ceiling⟩ ∧ active + 1 ≤ W.ceiling
  | .error _, g => g = ⟨active, W.ceiling⟩

/-- A run that keeps the guard and cannot see the ceiling. -/
def Quiet (x : Run σ α) : Prop := Shows W.raise x x ∧ Keeps (fun s => (world s).guard) x

theorem closed_quiet : Closed (Only (W.Quiet (σ := σ))) where
  pure a := ⟨Shows.pure a, Keeps.pure a⟩
  fail _ := ⟨Shows.halt _, Keeps.halt _⟩
  bind hx hf := ⟨hx.1.bind fun a => (hf a).1, hx.2.bind fun a => (hf a).2⟩

namespace Holds

variable {W} {mid post : Except Halt α → Guard → Prop} {x : Noted H σ α} {stop : Nat}

/-- A run without moments that cannot see the ceiling. -/
theorem of_shows {x : Run σ α} (hx : Shows W.raise x x)
    (hends : ∀ s, (world s).guard = ⟨active, W.ceiling⟩ → active ≤ W.ceiling → Settled (x s) →
      post (x s).1 (world (x s).2).guard) : W.Holds active post (silent x) :=
  fun s hs hle => ⟨hends s hs hle, List.forall_mem_nil _,
    fun _ => .unseen (List.forall_mem_nil _) (hx s)⟩

/-- So does a run that ends a call. -/
theorem leavingIf {x : Run σ α} {p : Except Halt α → Bool} (hx : Shows W.raise x x)
    (hactive : 1 ≤ active) (hends : ∀ s, (world s).guard = ⟨active, W.ceiling⟩ →
      active ≤ W.ceiling → Settled (x s) → post (x s).1 (world (x s).2).guard) :
    W.Holds active post (leavingIf active p x) := by
  intro s hs hle
  have hmem : ∀ μ ∈ (Noted.leavingIf active p x).moments s, μ = ⟨active, .leaving 1, world s⟩ := by
    intro μ hμ
    simp only [moments, Noted.leavingIf] at hμ
    split at hμ
    · exact List.mem_singleton.mp hμ
    · cases hμ
  refine ⟨hends s hs hle, fun μ hμ => ?_, fun _ => .unseen (fun μ hμ href => ?_) (hx s)⟩
  · obtain rfl := hmem μ hμ
    exact Moment.counted_leaving hs hle hactive
  · obtain rfl := hmem μ hμ
    exact absurd href.1 (by simp)

theorem of_quiet {x : Run σ α} (hx : W.Quiet x) : W.Holds active (W.back active) (silent x) :=
  of_shows hx.1 fun s hs _ _ => (hx.2 s).trans hs

theorem exhausted : W.Holds active post (silent (Run.halt .exhausted) : Noted H σ α) :=
  of_shows (Shows.halt _) fun s _ _ hsettled => absurd hsettled (not_settled_exhausted s)

theorem pure {a : α} (ha : active ≤ W.ceiling → post (.ok a) ⟨active, W.ceiling⟩) :
    W.Holds active post (Pure.pure a : Noted H σ α) :=
  of_shows (Shows.pure a) fun _ hs hle _ => hs ▸ ha hle

/-- **One run after another**: `mid` is what holds in between. -/
theorem bind {post : Except Halt β → Guard → Prop} {f : α → Noted H σ β}
    (hx : W.Holds active mid x) (herror : ∀ e g, mid (.error e) g → post (.error e) g)
    (hf : ∀ a s s', x.run s = (.ok a, s') → mid (.ok a) (world s').guard → W.Sees post (f a) s') :
    W.Holds active post (x >>= f) := by
  intro s hs hle
  have hx := hx s hs hle
  have hends := hx.ends
  have hnext : ∀ a s', x.run s = (.ok a, s') → W.Sees post (f a) s' := fun a s' hxs =>
    hf a s s' hxs (by rw [hxs] at hends; exact hends (settled_ok a s'))
  refine ⟨?_, ?_, fun hq => (hx.raised hq).bind fun a s' hxs => (hnext a s' hxs).raised hq⟩
  · rw [run_bind, bind_apply]
    rcases hxs : x.run s with ⟨e | a, s'⟩
    · rw [hxs] at hends
      exact fun hsettled => herror e _ (hends (by simpa using hsettled))
    · exact (hnext a s' hxs).ends
  · rcases hxs : x.run s with ⟨e | a, s'⟩
    · rw [moments_bind_error hxs]
      exact hx.counted
    · rw [moments_bind_ok hxs]
      exact List.forall_mem_append.mpr ⟨hx.counted, (hnext a s' hxs).counted⟩

/-- What follows a run, has no moments of its own, keeps the guard and cannot
see the ceiling. -/
theorem bind_quiet (hx : W.Holds active (W.back stop) x) {f : α → Run σ β}
    (hf : ∀ a, W.Quiet (f a)) : W.Holds active (W.back stop) (x >>= fun a => silent (f a)) := by
  refine hx.bind (fun _ _ h => h) fun a s s' _ hs' => ?_
  exact ⟨fun _ => ((hf a).2 s').trans hs', List.forall_mem_nil _,
    fun _ => .unseen (List.forall_mem_nil _) ((hf a).1 s')⟩

theorem running {x : Unit → Noted H σ α} (hx : W.Holds active post (x ())) :
    W.Holds active post (note .running active >>= x) := by
  intro s hs hle
  have hx := hx s hs hle
  have hmoments : ∀ s, (note .running active >>= x).moments s =
      ⟨active, .running, world s⟩ :: (x ()).moments s := fun _ => rfl
  refine ⟨?_, ?_, fun hq => ?_⟩
  · rw [run_note_bind]
    exact hx.ends
  · rw [hmoments]
    exact List.forall_mem_cons.mpr ⟨⟨hs, hle, by simp⟩, hx.counted⟩
  · refine Raised.bind (.unseen ?_ rfl) ?_
    · rintro μ hμ ⟨hattempt, -⟩
      obtain rfl := List.mem_singleton.mp hμ
      cases hattempt
    · rintro a s' ⟨⟩
      exact hx.raised hq

theorem catching (hx : W.Holds active (W.back stop) x) :
    W.Holds active (W.back stop) x.catching := by
  intro s hs hle
  have hx := hx s hs hle
  refine ⟨fun hsettled => ?_, hx.counted, fun hq => (hx.raised hq).within rfl rfl fun same => ?_⟩
  · have hends := hx.ends
    rw [run_catching, Run.catching] at hsettled ⊢
    generalize x.run s = r at hends hsettled ⊢
    -- Only an exhausted run is not caught, and of that nothing is said.
    obtain ⟨(e | _ | _) | a, s'⟩ := r
    · exact hends (by simp)
    · exact hends (by simp)
    · exact absurd hsettled (not_settled_exhausted s')
    · exact hends (by simp)
  · simp only [run_catching, Run.catching, same]
    rcases x.run s with ⟨(e | _ | _) | a, s'⟩ <;> rfl

/-- What is done to the world is watched as part of what is done to a state. -/
theorem inWorld {x : Noted H (World H) α} (hx : W.Holds active post x) :
    W.Holds active post (inWorld x : Noted H σ α) := by
  intro s hs hle
  have hx := hx (world s) hs hle
  have hworld : world (W.raise s) = W.raise (world s) := W.world_raise s
  refine ⟨fun hsettled => ?_, hx.counted, fun hq => (hx.raised hq).within rfl ?_ fun same => ?_⟩
  · have hends := hx.ends hsettled
    simp only [Noted.inWorld, run, HasWorld.world_put]
    exact hends
  · exact congrArg x.moments hworld
  · show ((x.run (world (W.raise s))).1, HasWorld.put (x.run (world (W.raise s))).2 (W.raise s)) = _
    rw [hworld, same]
    exact Prod.ext rfl ((W.put_raise _ s).trans (W.raise_put _ s).symm)

/-- **Calls that end behind a run.** -/
theorem returning {n : Except Halt α → Nat} (hx : W.Holds active mid x) (hn : ∀ r, n r ≤ active)
    (hback : ∀ r g, mid r g → n r ≠ 0 → g = ⟨active, W.ceiling⟩)
    (hpost : ∀ r g, mid r g → post r (g.exits (n r))) :
    W.Holds active post (x.returning active n) := by
  intro s hs hle
  have hx := hx s hs hle
  have hmoments : ∀ t, (x.returning active n).moments t = x.moments t ++
      ending active (n (x.run t).1) (world (x.run t).2) (x.run t).1 := fun _ => rfl
  have hrun : ∀ t, (x.returning active n).run t = ((x.run t).1,
      HasWorld.put ((world (x.run t).2).exits (n (x.run t).1)) (x.run t).2) := fun _ => rfl
  refine ⟨fun hsettled => ?_, ?_, fun hq => ?_⟩
  · rw [hrun, HasWorld.world_put]
    exact hpost _ _ (hx.ends hsettled)
  · rw [hmoments]
    refine List.forall_mem_append.mpr ⟨hx.counted, fun μ hμ => ?_⟩
    obtain ⟨hsettled, hcalls, rfl⟩ := mem_ending hμ
    exact Moment.counted_leaving (hback _ _ (hx.ends hsettled) hcalls) hle (hn _)
  · cases hx.raised hq with
    | unseen clean same =>
      refine .unseen ?_ ?_
      · rw [hmoments]
        refine List.forall_mem_append.mpr ⟨clean, ?_⟩
        -- Nothing is attempted where calls end.
        rintro μ hμ ⟨hattempt, -⟩
        obtain ⟨-, -, rfl⟩ := mem_ending hμ
        cases hattempt
      · rw [hrun, hrun, same]
        refine Prod.ext rfl ?_
        dsimp only
        rw [raise_put, put_raise, world_raise]
        rfl
    | higher refused reached =>
      exact .part refused reached (List.subset_append_left _ _) (List.subset_append_left _ _)

/-- A call that ends behind a run. -/
theorem leaving (hx : W.Holds (active + 1) (W.back (active + 1)) x) :
    W.Holds (active + 1) (W.back active) (x.returning (active + 1) fun _ => 1) := by
  refine hx.returning (fun _ => Nat.le_add_left 1 active) (fun _ _ hg _ => hg) ?_
  rintro r g rfl
  rfl

/-- **An attempt**: with fewer calls active than the ceiling allows there is one
more; otherwise it is refused, and under the higher ceiling there is one
more. -/
theorem attempts (active : Nat) :
    W.Holds active (W.Entered active) (Noted.attempt active : Noted H σ Unit) := by
  intro s hs hle
  have hguard : (world (W.raise s)).guard = ⟨active, W.higher⟩ := by
    rw [world_raise, World.under, hs]
  by_cases hlt : active < W.ceiling
  · have hat : (Noted.attempt active : Noted H σ Unit) s = _ := attempt_entered hs hlt
    refine ⟨fun _ => ?_, ?_, fun hq => ?_⟩
    · rw [run, hat, HasWorld.world_put]
      exact ⟨rfl, hlt⟩
    · rw [moments, hat]
      refine List.forall_mem_cons.mpr ⟨⟨hs, hle, by simp⟩, fun μ hμ => ?_⟩
      obtain rfl := List.mem_singleton.mp hμ
      exact ⟨rfl, hlt, by simp⟩
    · refine .unseen ?_ ?_
      · rw [moments, hat]
        refine List.forall_mem_cons.mpr
          ⟨fun href => absurd href.2 (Nat.ne_of_lt hlt), fun μ hμ => ?_⟩
        obtain rfl := List.mem_singleton.mp hμ
        exact fun href => absurd href.1 (by simp)
      · rw [run, run, hat, attempt_entered hguard (Nat.lt_trans hlt (W.ceiling_lt hq))]
        refine Prod.ext rfl ?_
        dsimp only
        rw [raise_put, put_raise, world_raise]
        rfl
  · -- The one place where the two ceilings differ: the higher one lets the call in.
    have hat : (Noted.attempt active : Noted H σ Unit) s = _ := attempt_refused hs hlt
    have heq : active = W.ceiling := Nat.le_antisymm hle (Nat.not_lt.mp hlt)
    refine ⟨fun _ => ?_, ?_, fun hq => .higher ?_ ?_⟩
    · rw [run, hat]
      exact hs
    · rw [moments, hat]
      exact List.forall_mem_singleton.mpr ⟨hs, hle, by simp⟩
    · rw [moments, hat]
      exact ⟨_, List.mem_singleton_self _, rfl, heq⟩
    · rw [moments, attempt_entered hguard (heq ▸ W.ceiling_lt hq)]
      exact ⟨_, List.mem_cons_of_mem _ List.mem_cons_self, heq ▸ Nat.lt_succ_self active⟩

section

variable [W.Absorbs active post]

theorem halt (e : Halt) : W.Holds active post (silent (Run.halt e) : Noted H σ α) :=
  of_shows (Shows.halt e) fun _ hs _ _ => hs ▸ Absorbs.error e

theorem andThen {y : Noted H σ β} {f : β → Noted H σ α} (hy : W.Holds active (W.back active) y)
    (hf : ∀ b, W.Holds active post (f b)) : W.Holds active post (y >>= f) := by
  intro s hs hle
  refine hy.bind (fun e g hg => ?_) (fun b s s' _ hs' => hf b s' hs' hle) s hs hle
  rw [hg]
  exact Absorbs.error e

/-- What comes before a run, has no moments of its own, keeps the guard and
cannot see the ceiling. -/
theorem seen {y : Run σ β} {f : β → Noted H σ α} (hy : W.Quiet y)
    (hf : ∀ b, W.Holds active post (f b)) : W.Holds active post (silent y >>= f) :=
  (of_quiet hy).andThen hf

/-- What is there, or else the run halts. -/
theorem need {e : Fault} {o : Option β} {f : β → Noted H σ α}
    (h : ∀ b, o = some b → W.Holds active post (f b)) :
    W.Holds active post (silent (Run.need e o) >>= f) := by
  cases o with
  | none => exact halt _
  | some b => exact h b rfl

/-- What follows an attempt goes on with one more call active. -/
theorem attempt {f : Unit → Noted H σ α} (h : W.Holds (active + 1) post (f ())) :
    W.Holds active post (attempt active >>= f) := by
  refine (attempts active).bind ?_ fun _ _ s' _ hs' => h s' hs'.1 hs'.2
  rintro e g rfl
  exact Absorbs.error e

end

end Holds

end Watch

end WasmEngine
