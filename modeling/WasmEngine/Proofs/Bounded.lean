import WasmEngine.Env

/-!
# Bounded runs

Runs of programs are bounded: a family of runs, one for each bound, of which the
ones with a small bound may come out *exhausted*. What the program does is what
the family settles on, and this file has the few notions that let statements
speak about that without a bound in them.

A result is **settled** if it is not exhausted (`WasmEngine.Settled`). One run
is **below** another if the other agrees with it wherever it settles
(`WasmEngine.Run.Below`), and a family is a **chain** if each of its members is
below the next (`WasmEngine.Run.Chain`): a greater bound never changes an
answer, so a chain has at most one answer in each state
(`WasmEngine.Run.Settles.unique`).

Two ways of executing the same program rarely spend their bounds alike. So they
are compared through a third family, of which the member at `n` completes all
that the first completes within `n`, and nothing that the first does not
complete at all (`WasmEngine.Run.Tracks`). All three notions are kept by the
operations that runs are made of, in particular by host programs, whose calls
back into the instance are where bounds matter.

A machine has no parts that runs could be made of: what a piece of its code does
is the beginning of a longer run. There the results from one state on are a
family of their own, and such a family **leads** to that of a later state
(`WasmEngine.Leads`). That a piece of code does what a run says is then stated
with the rest of the run (`WasmEngine.Follows`).
-/

namespace WasmEngine

variable {σ α β : Type}

/-- Whether a run came to an end within its bound. -/
def Settled (r : Except Halt α × σ) : Prop := r.1 ≠ .error .exhausted

@[simp]
theorem settled_ok (a : α) (s : σ) : Settled ((.ok a, s) : Except Halt α × σ) := by
  simp [Settled]

@[simp]
theorem settled_error (h : Halt) (s : σ) :
    Settled ((.error h, s) : Except Halt α × σ) ↔ h ≠ .exhausted := by
  simp [Settled]

@[simp]
theorem not_settled_exhausted (s : σ) : ¬Settled ((.error .exhausted, s) : Except Halt α × σ) := by
  simp [Settled]

/-- The three ways for a run to end. -/
theorem settled_cases (r : Except Halt α × σ) :
    (∃ a s, r = (.ok a, s)) ∨ (∃ h s, r = (.error h, s) ∧ h ≠ .exhausted) ∨
      ∃ s, r = (.error .exhausted, s) := by
  obtain ⟨_ | a, s⟩ := r
  case ok => exact Or.inl ⟨a, s, rfl⟩
  case error h =>
    by_cases hh : h = .exhausted
    · exact Or.inr (Or.inr ⟨s, by rw [hh]⟩)
    · exact Or.inr (Or.inl ⟨h, s, rfl, hh⟩)

namespace Run

/-! ### What the operations on runs do to a state -/

variable {x : Run σ α} {f : α → Run σ β} {s : σ} {y : Nat → Run σ α} {n : Nat}

@[simp]
theorem pure_apply (a : α) (s : σ) : (Pure.pure a : Run σ α) s = (.ok a, s) := rfl

theorem bind_apply (x : Run σ α) (f : α → Run σ β) (s : σ) :
    (x >>= f) s = match x s with
      | (.ok a, s) => f a s
      | (.error h, s) => (.error h, s) := rfl

theorem bind_ok {s s' : σ} {a : α} (h : x s = (.ok a, s')) : (x >>= f) s = f a s' := by
  rw [bind_apply, h]

theorem bind_error {s s' : σ} {e : Halt} (h : x s = (.error e, s')) :
    (x >>= f) s = (.error e, s') := by
  rw [bind_apply, h]

theorem bind_eq_ok {s t : σ} {b : β} : (x >>= f) s = (.ok b, t) ↔ ∃ a s', x s = (.ok a, s') ∧
    f a s' = (.ok b, t) := by
  rw [bind_apply]
  obtain ⟨_ | a, s'⟩ := x s <;> simp [and_assoc]

theorem bind_eq_error {s t : σ} {e : Halt} :
    (x >>= f) s = (.error e, t) ↔ x s = (.error e, t) ∨ ∃ a s', x s = (.ok a, s') ∧
    f a s' = (.error e, t) := by
  rw [bind_apply]
  obtain ⟨_ | a, s'⟩ := x s <;> simp [and_assoc]

@[simp]
theorem pure_bind (a : α) (f : α → Run σ β) : (Pure.pure a >>= f) = f a := rfl

theorem bind_assoc {γ : Type} (x : Run σ α) (f : α → Run σ β) (g : β → Run σ γ) :
    (x >>= f) >>= g = x >>= fun a => f a >>= g := by
  funext s
  rw [bind_apply, bind_apply, bind_apply]
  obtain ⟨_ | a, s'⟩ := x s <;> rfl

/-- What follows a run matters only where the run ends. -/
theorem bind_congr {f g : α → Run σ β} (h : ∀ a s', x s = (.ok a, s') → f a s' = g a s') :
    (x >>= f) s = (x >>= g) s := by
  rw [bind_apply, bind_apply]
  rcases hx : x s with ⟨_ | a, s'⟩
  · rfl
  · exact h a s' hx

theorem leaving_bind_pure (x : Run σ α) (f : σ → σ) (g : α → β) :
    (x.leaving f >>= fun a => Pure.pure (g a)) = (x >>= fun a => Pure.pure (g a)).leaving f := by
  funext s
  simp only [Run.leaving, bind_apply]
  obtain ⟨_ | a, s'⟩ := x s <;> rfl

@[simp]
theorem need_some (f : Fault) (a : α) : (need f (some a) : Run σ α) = Pure.pure a := rfl

@[simp]
theorem need_none (f : Fault) : (need f none : Run σ α) = fault f := rfl

@[simp]
theorem ofExcept_ok (a : α) : (ofExcept (.ok a) : Run σ α) = Pure.pure a := rfl

@[simp]
theorem ofExcept_error (e : Error) : (ofExcept (.error e) : Run σ α) = fail e := rfl

@[simp]
theorem halt_apply (h : Halt) (s : σ) : (halt h : Run σ α) s = (.error h, s) := rfl

@[simp]
theorem halt_bind (h : Halt) (f : α → Run σ β) : (halt h >>= f) = halt h := rfl

@[simp]
theorem fail_bind (e : Error) (f : α → Run σ β) : (fail e >>= f) = fail e := rfl

@[simp]
theorem fault_bind (e : Fault) (f : α → Run σ β) : (fault e >>= f) = fault e := rfl

/-! ### One run below another -/

/-- One run is below another: wherever it settles, the other agrees with it. -/
def Below (x y : Run σ α) : Prop := ∀ s, Settled (x s) → y s = x s

theorem Below.refl (x : Run σ α) : Below x x := fun _ _ => rfl

theorem Below.trans {x y z : Run σ α} (hxy : Below x y) (hyz : Below y z) : Below x z := by
  intro s hs
  have hy : y s = x s := hxy s hs
  rw [hyz s (hy ▸ hs), hy]

/-- A run that is exhausted at once is below all others. -/
theorem below_of_exhausted (y : Run σ α) : Below (halt .exhausted) y := by
  intro s hs
  exact absurd rfl hs

theorem Below.bind {x y : Run σ α} {f g : α → Run σ β} (hxy : Below x y)
    (hfg : ∀ a, Below (f a) (g a)) : Below (x >>= f) (y >>= g) := by
  intro s hs
  rcases settled_cases (x s) with ⟨a, s', hx⟩ | ⟨h, s', hx, hh⟩ | ⟨s', hx⟩
  · rw [bind_ok hx] at hs ⊢
    rw [bind_ok ((hxy s (by simp [hx])).trans hx)]
    exact hfg a s' hs
  · rw [bind_error hx, bind_error ((hxy s (by simp [hx, hh])).trans hx)]
  · rw [bind_error hx] at hs
    exact absurd hs (not_settled_exhausted s')

theorem Below.leaving {x y : Run σ α} (hxy : Below x y) (f : σ → σ) :
    Below (x.leaving f) (y.leaving f) := by
  intro s hs
  have hx : Settled (x s) := hs
  simp only [Run.leaving, hxy s hx]

theorem Below.catching {x y : Run σ α} (hxy : Below x y) : Below x.catching y.catching := by
  intro s hs
  have hx : Settled (x s) := by
    rcases settled_cases (x s) with ⟨a, s', hx⟩ | ⟨h, s', hx, hh⟩ | ⟨s', hx⟩
    · simp [hx]
    · simp [hx, hh]
    · simp [Run.catching, hx] at hs
  simp only [Run.catching, hxy s hx]

/-! ### Chains -/

/-- A family of runs in which a greater bound never changes an answer. -/
def Chain (y : Nat → Run σ α) : Prop := ∀ n, Below (y n) (y (n + 1))

theorem Chain.below (hy : Chain y) {m n : Nat} (h : m ≤ n) : Below (y m) (y n) := by
  induction h with
  | refl => exact Below.refl _
  | step _ ih => exact ih.trans (hy _)

/-- **What a family of runs does in a state**: one of its members ends like this. -/
def Settles (y : Nat → Run σ α) (s : σ) (r : Except Halt α × σ) : Prop := Settled r ∧ ∃ n, y n s = r

/-- A family of runs goes on forever. -/
def Diverges (y : Nat → Run σ α) (s : σ) : Prop := ∀ n, ¬Settled (y n s)

theorem diverges_iff : Diverges y s ↔ ¬∃ r, Settles y s r := by
  constructor
  · rintro h ⟨r, hr, n, rfl⟩
    exact h n hr
  · intro h n hn
    exact h ⟨_, hn, n, rfl⟩

/-- What is made of its values does not matter to whether a family goes on
forever. -/
theorem diverges_bind_pure (y : Nat → Run σ α) (f : α → β) (s : σ) :
    Diverges (fun n => y n >>= fun a => Pure.pure (f a)) s ↔ Diverges y s := by
  refine forall_congr' fun n => not_congr ?_
  simp only [bind_apply]
  rcases y n s with ⟨h | a, s'⟩ <;> simp

/-- A chain has one answer at most. -/
theorem Settles.unique (hy : Chain y) {r r' : Except Halt α × σ} (h : Settles y s r)
    (h' : Settles y s r') : r = r' := by
  obtain ⟨hr, m, rfl⟩ := h
  obtain ⟨hr', n, rfl⟩ := h'
  rcases Nat.le_total m n with hmn | hnm
  · exact (hy.below hmn s hr).symm
  · exact hy.below hnm s hr'

/-! ### Families that track a run -/

/-- **A family tracks a run**, as far as the bound `n` goes: the run completes
what the family completes within `n`, and whatever it completes the family
completes in the end. -/
structure Tracks (y : Nat → Run σ α) (n : Nat) (x : Run σ α) : Prop where
  /-- The run completes what the family completes within the bound. -/
  upper : Below (y n) x
  /-- The family completes what the run completes. -/
  lower : ∀ s, Settled (x s) → ∃ j, y j s = x s

/-- If the run is exhausted, so is the family within the bound. -/
theorem Tracks.exhausted (h : Tracks y n x) {s s' : σ}
    (hx : x s = (.error .exhausted, s')) : ∃ s'', y n s = (.error .exhausted, s'') := by
  rcases settled_cases (y n s) with ⟨a, s'', hy⟩ | ⟨e, s'', hy, he⟩ | hy
  · simp [h.upper s (by simp [hy]), hy] at hx
  · simp [h.upper s (by simp [hy, he]), hy, he] at hx
  · exact hy

theorem Tracks.const (x : Run σ α) (n : Nat) : Tracks (fun _ => x) n x :=
  ⟨Below.refl x, fun _ _ => ⟨0, rfl⟩⟩

theorem Tracks.bind {g : Nat → α → Run σ β} (hy : Chain y) (hg : ∀ a, Chain fun j => g j a)
    (hx : Tracks y n x) (hf : ∀ a, Tracks (fun j => g j a) n (f a)) :
    Tracks (fun j => y j >>= g j) n (x >>= f) := by
  refine ⟨hx.upper.bind fun a => (hf a).upper, fun s hs => ?_⟩
  rcases settled_cases (x s) with ⟨a, s', hxs⟩ | ⟨h, s', hxs, hh⟩ | ⟨s', hxs⟩
  · rw [bind_ok hxs] at hs ⊢
    obtain ⟨i, hi⟩ := hx.lower s (by simp [hxs])
    obtain ⟨j, hj⟩ := (hf a).lower s' hs
    refine ⟨max i j, ?_⟩
    have hyi : y (max i j) s = (.ok a, s') := by
      rw [hy.below (Nat.le_max_left i j) s (by simp [hi, hxs]), hi, hxs]
    have hgj : g (max i j) a s' = f a s' := by
      rw [(hg a).below (Nat.le_max_right i j) s' (by rwa [hj]), hj]
    rw [bind_ok hyi, hgj]
  · obtain ⟨i, hi⟩ := hx.lower s (by simp [hxs, hh])
    exact ⟨i, by rw [bind_error (hi.trans hxs), bind_error hxs]⟩
  · rw [bind_error hxs] at hs
    exact absurd hs (not_settled_exhausted s')

theorem Tracks.leaving (hx : Tracks y n x) (f : σ → σ) :
    Tracks (fun j => (y j).leaving f) n (x.leaving f) := by
  refine ⟨hx.upper.leaving f, fun s hs => ?_⟩
  obtain ⟨j, hj⟩ := hx.lower s hs
  exact ⟨j, by simp only [Run.leaving, hj]⟩

theorem Tracks.catching (hx : Tracks y n x) : Tracks (fun j => (y j).catching) n x.catching := by
  refine ⟨hx.upper.catching, fun s hs => ?_⟩
  have hxs : Settled (x s) := by
    rcases settled_cases (x s) with ⟨a, s', h⟩ | ⟨h, s', h', hh⟩ | ⟨s', h⟩
    · simp [h]
    · simp [h', hh]
    · simp [Run.catching, h] at hs
  obtain ⟨j, hj⟩ := hx.lower s hxs
  exact ⟨j, by simp only [Run.catching, hj]⟩

/-- A family whose first member is of no account. -/
theorem Tracks.succ {y y' : Nat → Run σ α} (hy : ∀ j, y (j + 1) = y' j) (h : Tracks y' n x) :
    Tracks y (n + 1) x := by
  refine ⟨hy n ▸ h.upper, fun s hs => ?_⟩
  obtain ⟨j, hj⟩ := h.lower s hs
  exact ⟨j + 1, by rw [hy j, hj]⟩

/-- A chain settles as a chain of runs does that it tracks at every bound. -/
theorem settles_iff_of_tracks {x y : Nat → Run σ α} {r : Except Halt α × σ}
    (h : ∀ n, Tracks y n (x n)) : Settles y s r ↔ Settles x s r := by
  constructor
  · rintro ⟨hr, n, rfl⟩
    exact ⟨hr, n, (h n).upper s hr⟩
  · rintro ⟨hr, n, rfl⟩
    obtain ⟨j, hj⟩ := (h n).lower s hr
    exact ⟨hr, j, hj⟩

end Run

/-! ### Families that lead to others -/

/-- A family of results in which a greater bound never changes a settled one. -/
def Rising (b : Nat → Except Halt α × σ) : Prop := ∀ i, Settled (b i) → b (i + 1) = b i

theorem Rising.eq_of_le {b : Nat → Except Halt α × σ} (hb : Rising b) {i j : Nat} (hij : i ≤ j)
    (hi : Settled (b i)) : b j = b i := by
  induction hij with
  | refl => rfl
  | @step j _ ih => rw [hb j (by rwa [ih]), ih]

theorem Run.Chain.rising {y : Nat → Run σ α} (hy : Run.Chain y) (s : σ) :
    Rising fun i => y i s := fun i => hy i s

/-- **One family of results leads to another**, `d` later: they settle on the
same, and the second settles with at least `d` less. -/
structure Leads (d : Nat) (b k : Nat → Except Halt α × σ) : Prop where
  /-- The second settles when the first does. -/
  upper : ∀ i, Settled (b (i + d)) → k i = b (i + d)
  /-- The first settles if the second does. -/
  lower : ∀ i, Settled (k i) → ∃ j, b j = k i

namespace Leads

variable {b k q : Nat → Except Halt α × σ} {d e : Nat}

theorem refl (b : Nat → Except Halt α × σ) : Leads 0 b b := ⟨fun _ _ => rfl, fun i _ => ⟨i, rfl⟩⟩

theorem trans (hbk : Leads d b k) (hkq : Leads e k q) : Leads (d + e) b q := by
  refine ⟨fun i hi => ?_, fun i hi => ?_⟩
  · have hsum : i + (d + e) = i + e + d := by omega
    rw [hsum] at hi ⊢
    have hk : k (i + e) = b (i + e + d) := hbk.upper (i + e) hi
    rw [hkq.upper i (by rwa [hk]), hk]
  · obtain ⟨j, hj⟩ := hkq.lower i hi
    obtain ⟨j', hj'⟩ := hbk.lower j (by rwa [hj])
    exact ⟨j', hj'.trans hj⟩

theorem mono (h : Leads d b k) (hb : Rising b) (hed : e ≤ d) : Leads e b k := by
  refine ⟨fun i hi => ?_, h.lower⟩
  have hle : b (i + d) = b (i + e) := hb.eq_of_le (by omega) hi
  rw [h.upper i (by rwa [hle]), hle]

end Leads

section Follows

variable {τ : Type}

variable {t : τ} {b' : Nat → Except Halt α × σ} {d : Nat} {r : Except Halt β × τ} {x : Run τ β}

/-- **A family of results follows the result of a run**, as far as the bound `n`
goes. If the run ends in a value, the family leads to what goes on from there,
after a delay that depends on the value; if the run halts, so does the
family. -/
def Follows (n : Nat) (b : Nat → Except Halt α × σ) (delay : β → Nat)
    (k : β → τ → Nat → Except Halt α × σ) (stop : τ → σ) : Except Halt β × τ → Prop
  | (.ok o, t) => Leads (delay o) b (k o t)
  | (.error .exhausted, _) => ¬Settled (b n)
  | (.error h, t) => ∃ j, b j = (.error h, stop t)

variable {n : Nat} {b : Nat → Except Halt α × σ} {delay : β → Nat}
  {k : β → τ → Nat → Except Halt α × σ} {stop : τ → σ}

theorem follows_error {h : Halt} (hh : h ≠ .exhausted) : Follows n b delay k stop (.error h, t) ↔
    ∃ j, b j = (.error h, stop t) := by
  cases h with
  | exhausted => exact absurd rfl hh
  | error e => rfl
  | aborted => rfl

/-- What a later family follows, the earlier one follows with as much more of
the bound. -/
theorem Follows.of_leads (hb : Rising b) (hlead : Leads d b b') (h : Follows n b' delay k stop r) :
    Follows (n + d) b delay k stop r := by
  rcases settled_cases r with ⟨o, t, rfl⟩ | ⟨e, t, rfl, he⟩ | ⟨t, rfl⟩
  · exact (hlead.trans h).mono hb (by omega)
  · obtain ⟨j, hj⟩ := (follows_error he).1 h
    obtain ⟨j', hj'⟩ := hlead.lower j (by simp [hj, he])
    exact (follows_error he).2 ⟨j', hj'.trans hj⟩
  · intro hn
    exact h (by rwa [hlead.upper n hn])

theorem Follows.mono {n' : Nat} {delay' : β → Nat} (hb : Rising b)
    (h : Follows n b delay k stop r) (hn : n' ≤ n) (hdelay : ∀ o, delay' o ≤ delay o) :
    Follows n' b delay' k stop r := by
  rcases settled_cases r with ⟨o, t, rfl⟩ | ⟨e, t, rfl, he⟩ | ⟨t, rfl⟩
  · exact Leads.mono h hb (hdelay o)
  · exact (follows_error he).2 ((follows_error he).1 h)
  · intro hn'
    exact h (by rwa [hb.eq_of_le hn hn'])

/-- What a later family follows, the earlier one follows. -/
theorem Follows.before (hb : Rising b) (h : Follows n b' delay k stop r) (hlead : Leads d b b') :
    Follows n b delay k stop r :=
  (Follows.of_leads hb hlead h).mono hb (Nat.le_add_right n d) fun _ => Nat.le_refl _

/-- One run after the other: the rest of the first is what the second is about.
The delay of the first counts for the second, and is as much of the bound that
the second need not have. -/
theorem Follows.bind {γ : Type} {delay' : γ → Nat} {k' : γ → τ → Nat → Except Halt α × σ}
    {f : β → Run τ γ} (hb : Rising b) (hx : Follows n b delay k stop (x t))
    (hf : ∀ o t', x t = (.ok o, t') →
      Follows (n - delay o) (k o t') (fun o' => delay' o' - delay o) k' stop (f o t')) :
      Follows n b delay' k' stop ((x >>= f) t) := by
  rcases settled_cases (x t) with ⟨o, t', hxt⟩ | ⟨e, t', hxt, he⟩ | ⟨t', hxt⟩
  · rw [Run.bind_ok hxt]
    rw [hxt] at hx
    have hfo := hf o t' hxt
    rcases settled_cases (f o t') with ⟨o', t'', hr⟩ | ⟨e, t'', hr, he⟩ | ⟨t'', hr⟩
    · rw [hr] at hfo ⊢
      exact (Leads.trans hx hfo).mono hb (by dsimp only; omega)
    · rw [hr] at hfo ⊢
      obtain ⟨j, hj⟩ := (follows_error he).1 hfo
      obtain ⟨j', hj'⟩ := Leads.lower hx j (by simp [hj, he])
      exact (follows_error he).2 ⟨j', hj'.trans hj⟩
    · rw [hr] at hfo ⊢
      intro hn
      have hle : b (n - delay o + delay o) = b n := hb.eq_of_le (by omega) hn
      exact hfo (by rwa [Leads.upper hx (n - delay o) (by rwa [hle]), hle])
  · rw [hxt] at hx
    rw [Run.bind_error hxt]
    exact (follows_error he).2 ((follows_error he).1 hx)
  · rw [hxt] at hx
    rw [Run.bind_error hxt]
    exact hx

theorem Follows.leaving {f : τ → τ}
    (h : Follows n b delay (fun o t' => k o (f t')) (fun t' => stop (f t')) (x t)) :
    Follows n b delay k stop (x.leaving f t) := by
  rw [Run.leaving]
  rcases settled_cases (x t) with ⟨o, t', hx⟩ | ⟨e, t', hx, he⟩ | ⟨t', hx⟩
  · rw [hx] at h ⊢
    exact h
  · rw [hx] at h ⊢
    obtain ⟨j, hj⟩ := (follows_error he).1 h
    exact (follows_error he).2 ⟨j, hj⟩
  · rw [hx] at h ⊢
    exact h

theorem Follows.map {γ : Type} {g : β → γ} {k' : γ → τ → Nat → Except Halt α × σ}
    (h : Follows n b (fun _ => d) (fun o => k' (g o)) stop (x t)) :
    Follows n b (fun _ => d) k' stop ((x >>= fun o => Pure.pure (g o)) t) := by
  rw [Run.bind_apply]
  generalize x t = r at h ⊢
  obtain ⟨(_ | _ | _) | o, t'⟩ := r <;> exact h

/-- A chain that follows a run to its end, with nothing behind it, tracks the
run. -/
theorem Run.Tracks.of_follows {y : Nat → Run σ α} {x : Run σ α} (hy : Run.Chain y)
    (h : ∀ s, Follows n (fun j => y j s) (fun _ => d) (fun a s' _ => (.ok a, s')) id (x s)) :
    Run.Tracks y n x := by
  refine ⟨fun s hs => ?_, fun s hs => ?_⟩
  · rcases settled_cases (x s) with ⟨a, s', hx⟩ | ⟨e, s', hx, he⟩ | ⟨s', hx⟩
    · have hlead := hx ▸ h s
      have hmore : y (n + d) s = y n s := hy.below (Nat.le_add_right n d) s hs
      rw [hx, ← hmore]
      exact Leads.upper hlead n (by rwa [hmore])
    · obtain ⟨j, hj⟩ := (follows_error he).1 (hx ▸ h s)
      exact hx.trans (Run.Settles.unique hy ⟨by simpa using he, j, hj⟩ ⟨hs, n, rfl⟩)
    · have hnot := h s
      rw [hx] at hnot
      exact absurd hs hnot
  · rcases settled_cases (x s) with ⟨a, s', hx⟩ | ⟨e, s', hx, he⟩ | ⟨s', hx⟩
    · rw [hx]
      exact Leads.lower (hx ▸ h s) 0 (settled_ok a s')
    · rw [hx]
      exact (follows_error he).1 (hx ▸ h s)
    · simp [hx] at hs

end Follows

/-! ### Host programs -/

variable {H : Type}

open Run

namespace HostProg

theorem run_memory (reenter : String → List Value → Run (World H) (List Value)) (op : Memory.Op)
    (next : Except Error Memory.Reply → HostProg H) :
    (HostProg.memory op next).run reenter =
      Run.catching (World.onMemory fun m => m.apply op) >>= fun r => (next r).run reenter := by
  funext w
  simp only [HostProg.run, bind_apply]
  rcases Run.catching (World.onMemory fun m => m.apply op) w with ⟨_ | _, _⟩ <;> rfl

theorem run_call (reenter : String → List Value → Run (World H) (List Value)) (name : String)
    (args : List Value) (next : Except Error (List Value) → HostProg H) :
    (HostProg.call name args next).run reenter =
      Run.catching (reenter name args) >>= fun r => (next r).run reenter := by
  funext w
  simp only [HostProg.run, bind_apply]
  rcases Run.catching (reenter name args) w with ⟨_ | _, _⟩ <;> rfl

theorem run_below {reenter reenter' : String → List Value → Run (World H) (List Value)}
    (h : ∀ name args, Below (reenter name args) (reenter' name args)) (p : HostProg H) :
    Below (p.run reenter) (p.run reenter') := by
  induction p with
  | finish r => exact Below.refl _
  | look next ih => exact fun w hw => ih w w hw
  | setHost c next ih => exact fun w hw => ih { w with host := c } hw
  | memory op next ih =>
    rw [run_memory, run_memory]
    exact (Below.refl _).bind ih
  | call name args next ih =>
    rw [run_call, run_call]
    exact (h name args).catching.bind ih

theorem run_tracks {reenter : Nat → String → List Value → Run (World H) (List Value)}
    {reenter' : String → List Value → Run (World H) (List Value)} {n : Nat}
    (hc : ∀ name args, Chain fun j => reenter j name args)
    (h : ∀ name args, Tracks (fun j => reenter j name args) n (reenter' name args))
    (p : HostProg H) : Tracks (fun j => p.run (reenter j)) n (p.run reenter') := by
  have chain (p : HostProg H) : Chain fun j => p.run (reenter j) :=
    fun j => run_below (fun name args => hc name args j) p
  refine ⟨run_below (fun name args => (h name args).upper) p, ?_⟩
  induction p with
  | finish r => exact fun _ _ => ⟨0, rfl⟩
  | look next ih => exact fun w hw => ih w w hw
  | setHost c next ih => exact fun w hw => ih { w with host := c } hw
  | memory op next ih =>
    simp only [run_memory]
    refine (Tracks.bind (fun _ => Below.refl _) (fun r => chain (next r)) (Tracks.const _ n)
      fun r => ?_).lower
    exact ⟨run_below (fun name args => (h name args).upper) (next r), ih r⟩
  | call name args next ih =>
    simp only [run_call]
    refine (Tracks.bind (fun j => (hc name args j).catching) (fun r => chain (next r))
      (h name args).catching fun r => ?_).lower
    exact ⟨run_below (fun name args => (h name args).upper) (next r), ih r⟩

end HostProg

namespace Env

variable (env : Env H)

theorem callHost_tracks {reenter : Nat → String → List Value → Run (World H) (List Value)}
    {reenter' : String → List Value → Run (World H) (List Value)} {n : Nat}
    (hc : ∀ name args, Chain fun j => reenter j name args)
    (h : ∀ name args, Tracks (fun j => reenter j name args) n (reenter' name args))
    (func : Nat) (args : List Value) :
    Tracks (fun j => env.callHost (reenter j) func args) n (env.callHost reenter' func args) := by
  have chain (p : HostProg H) : Chain fun j => p.run (reenter j) :=
    fun j => HostProg.run_below (fun name args => hc name args j) p
  refine Tracks.bind (fun _ => Below.refl _) (fun f j => ?_) (Tracks.const _ n) fun f => ?_
  · refine Below.bind ?_ fun _ => Below.refl _
    exact (Below.refl _).bind fun _ => (chain (f.run args) j).leaving _
  · refine Tracks.bind (fun j => ?_) (fun _ _ => Below.refl _) ?_ fun _ => Tracks.const _ n
    · exact (Below.refl _).bind fun _ => (chain (f.run args) j).leaving _
    · exact Tracks.bind (fun _ => Below.refl _) (fun _ j => (chain (f.run args) j).leaving _)
        (Tracks.const _ n) fun _ => (HostProg.run_tracks hc h (f.run args)).leaving _

/-- An export is called with arguments that fit its type, so a family that
tracks such calls tracks all calls of exports. -/
theorem callExport_tracks {invoke : Nat → Nat → List Value → Run (World H) (List Value)}
    {invoke' : Nat → List Value → Run (World H) (List Value)} {n : Nat}
    (h : ∀ func t args, env.mod.funcType? func = some t → t.checkArguments args = .ok () →
      Tracks (fun j => invoke j func args) n (invoke' func args)) (name : String)
      (args : List Value) :
    Tracks (fun j => env.callExport (invoke j) name args) n (env.callExport invoke' name args) := by
  cases hf : env.mod.exportedFunc? name with
  | none =>
    simp only [callExport, hf]
    exact Tracks.const _ n
  | some func =>
    cases ht : env.mod.funcType? func with
    | none =>
      simp only [callExport, hf, ht]
      exact Tracks.const (Run.fault (.funcWithoutType func)) n
    | some t =>
      rcases hargs : t.checkArguments args with e | ⟨⟩
      · simp only [callExport, hf, ht, need_some, Run.pure_bind, hargs]
        exact Tracks.const (Run.fail e) n
      · simp only [callExport, hf, ht, need_some, Run.pure_bind, hargs]
        exact h func t args ht hargs

end Env

end WasmEngine
