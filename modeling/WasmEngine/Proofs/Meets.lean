import WasmEngine.Proofs.Bounded

/-!
# What runs can come to

`WasmEngine.Run.Meets P E Q x` says of a run `x` that starts where `P` holds: it
ends where `P` holds, in a value with `Q` or an error with `E`, and it is not
aborted. Of a run that is exhausted nothing is said. Each operation that runs
are made of has a rule, down to host programs: what a host function can fail
with depends on what its calls back into the instance can, which is the
parameter of `WasmEngine.HostProg.run_meets`.
-/

namespace WasmEngine

variable {σ α β : Type}

namespace Run

/-- What the result of a run may be. -/
def Allows (P : σ → Prop) (E : Error → Prop) (Q : α → Prop) : Except Halt α × σ → Prop
  | (.ok a, s) => P s ∧ Q a
  | (.error (.error e), s) => P s ∧ E e
  | (.error .aborted, _) => False
  | (.error .exhausted, _) => True

/-- **What a run can come to**: from a state with `P` it leads to one with `P`,
and to a value with `Q` or an error with `E`. -/
def Meets (P : σ → Prop) (E : Error → Prop) (Q : α → Prop) (x : Run σ α) : Prop :=
  ∀ s, P s → Allows P E Q (x s)

variable {P : σ → Prop} {E E' : Error → Prop} {Q Q' : α → Prop} {R : β → Prop}

theorem Allows.mono {r : Except Halt α × σ} (h : Allows P E Q r) (hE : ∀ e, E e → E' e)
    (hQ : ∀ a, Q a → Q' a) : Allows P E' Q' r := by
  obtain ⟨(e | _ | _) | a, s⟩ := r
  · exact ⟨h.1, hE e h.2⟩
  · exact h
  · trivial
  · exact ⟨h.1, hQ a h.2⟩

namespace Meets

variable {x : Run σ α} {a : α}

theorem mono (h : Meets P E Q x) (hE : ∀ e, E e → E' e) (hQ : ∀ a, Q a → Q' a) : Meets P E' Q' x :=
  fun s hs => (h s hs).mono hE hQ

theorem imp (h : Meets P E Q x) (hQ : ∀ a, Q a → Q' a) : Meets P E Q' x :=
  h.mono (fun _ => id) hQ

theorem of_ok {s s' : σ} (h : Meets P E Q x) (hs : P s) (hx : x s = (.ok a, s')) : Q a := by
  have := h s hs
  rw [hx] at this
  exact this.2

theorem keeps_of_ok {s s' : σ} (h : Meets P E Q x) (hs : P s) (hx : x s = (.ok a, s')) : P s' := by
  have := h s hs
  rw [hx] at this
  exact this.1

theorem pure (h : Q a) : Meets P E Q (Pure.pure a : Run σ α) := fun _ hs => ⟨hs, h⟩

theorem fail {e : Error} (h : E e) : Meets P E Q (Run.fail e : Run σ α) := fun _ hs => ⟨hs, h⟩

theorem exhausted : Meets P E Q (Run.halt .exhausted : Run σ α) := fun _ _ => trivial

theorem bind {f : α → Run σ β} (hx : Meets P E Q x) (hf : ∀ a, Q a → Meets P E R (f a)) :
    Meets P E R (x >>= f) := by
  intro s hs
  have h := hx s hs
  rw [bind_apply]
  generalize x s = r at h ⊢
  obtain ⟨(e | _ | _) | a, s'⟩ := r
  · exact h
  · exact h
  · trivial
  · exact hf a h.2 s' h.1

theorem leaving {f : σ → σ} (hx : Meets P E Q x) (hf : ∀ s, P s → P (f s)) :
    Meets P E Q (x.leaving f) := by
  intro s hs
  have h := hx s hs
  simp only [Run.leaving]
  generalize x s = r at h ⊢
  obtain ⟨(e | _ | _) | a, s'⟩ := r
  · exact ⟨hf s' h.1, h.2⟩
  · exact h
  · trivial
  · exact ⟨hf s' h.1, h.2⟩

/-- What a run that catches its errors comes to. -/
theorem catching (hx : Meets P E Q x) :
    Meets P E' (fun r => (∀ a, r = .ok a → Q a) ∧ ∀ e, r = .error e → E e) x.catching := by
  intro s hs
  have h := hx s hs
  simp only [Run.catching]
  generalize x s = r at h ⊢
  obtain ⟨(e | _ | _) | a, s'⟩ := r
  · exact ⟨h.1, by simp, by simpa using h.2⟩
  · exact h
  · trivial
  · exact ⟨h.1, by simpa using h.2, by simp⟩

theorem need {f : Fault} {x : Option α} (h : x = none → E (.fault f)) :
    Meets P E (fun a => x = some a) (Run.need f x : Run σ α) := by
  cases x with
  | none => exact fail (h rfl)
  | some a => exact pure rfl

theorem ofExcept {x : Except Error α} (hQ : ∀ a, x = .ok a → Q a) (hE : ∀ e, x = .error e → E e) :
    Meets P E Q (Run.ofExcept x : Run σ α) := by
  cases x with
  | error e => exact fail (hE e rfl)
  | ok a => exact pure (hQ a rfl)

theorem ofTrap {x : Except Trap α} (hE : ∀ t, E (.trap t)) (hQ : ∀ a, x = .ok a → Q a) : Meets P E Q
    (Run.ofTrap x : Run σ α) := by
  cases x with
  | error t => exact fail (hE t)
  | ok a => exact pure (hQ a rfl)

end Meets

end Run

open Run

variable {H : Type}

/-! ### Worlds -/

namespace World

variable {P : Store → Prop} {E : Error → Prop} {Q : α → Prop}

theorem seeStore_eq_ok {f : Store → Except Error α} {w w' : World H} {a : α} :
    seeStore f w = (.ok a, w') ↔ w' = w ∧ f w.store = .ok a := by
  rw [seeStore]
  cases f w.store <;> simp [eq_comm, and_comm]

theorem seeStore_meets {f : Store → Except Error α} (hQ : ∀ s a, P s → f s = .ok a → Q a)
    (hE : ∀ s e, P s → f s = .error e → E e) :
    Meets (fun w : World H => P w.store) E Q (seeStore f) := by
  intro w hw
  rw [seeStore]
  rcases h : f w.store with e | a
  · exact ⟨hw, hE w.store e hw h⟩
  · exact ⟨hw, hQ w.store a hw h⟩

theorem onStore_meets {f : Store → Except Error α × Store} (hP : ∀ s, P s → P (f s).2)
    (hQ : ∀ s a, P s → (f s).1 = .ok a → Q a) (hE : ∀ s e, P s → (f s).1 = .error e → E e) :
    Meets (fun w : World H => P w.store) E Q (onStore f) := by
  rintro ⟨s, g, h⟩ (hs : P s)
  have hP := hP s hs
  have hQ := hQ s
  have hE := hE s
  simp only [onStore]
  generalize f s = r at hP hQ hE ⊢
  obtain ⟨e | a, s'⟩ := r
  · exact ⟨hP, hE e hs rfl⟩
  · exact ⟨hP, hQ a hs rfl⟩

theorem enter_meets (hE : ∀ t, E (.trap t)) :
    Meets (fun w : World H => P w.store) E (fun _ => True) (enter : Run (World H) Unit) := by
  intro w hw
  rw [enter]
  cases w.guard.enter with
  | error t => exact ⟨hw, hE t⟩
  | ok g => exact ⟨hw, trivial⟩

theorem guarded_meets {x : Run (World H) α} (hE : ∀ t, E (.trap t))
    (hx : Meets (fun w => P w.store) E Q x) : Meets (fun w => P w.store) E Q (guarded x) :=
  (enter_meets hE).bind fun _ _ => hx.leaving fun _ hw => hw

end World

/-! ### Host programs -/

namespace HostProg

/-- How what a host program can fail with follows from what it is answered: `A`
are the answers to its calls, `B` those of the memory, and `R` is what it can
fail with. -/
structure Reports (A : String → List Value → Except Error (List Value) → Prop)
    (B : Memory.Op → Except Error Memory.Reply → Prop) (R : HostProg H → Error → Prop) : Prop where
  /-- It fails with an error of its own. -/
  finish : ∀ {e}, R (.finish (.error e)) e
  /-- It fails after a look at the world. -/
  look : ∀ {next w e}, R (next w) e → R (.look next) e
  /-- It fails after the context was replaced. -/
  setHost : ∀ {h next e}, R next e → R (.setHost h next) e
  /-- It fails after an operation on the memory. -/
  memory : ∀ {op next r e}, B op r → R (next r) e → R (.memory op next) e
  /-- It fails after a call. -/
  call : ∀ {name args next r e}, A name args r → R (next r) e → R (.call name args next) e

theorem run_meets {P : World H → Prop} {A : String → List Value → Except Error (List Value) → Prop}
    {B : Memory.Op → Except Error Memory.Reply → Prop} {R : HostProg H → Error → Prop}
    {reenter : String → List Value → Run (World H) (List Value)} (hR : Reports A B R)
    (hhost : ∀ w h, P w → P { w with host := h })
    (hmem : ∀ op, Meets P (fun e => B op (.error e)) (fun r => B op (.ok r))
      (World.onMemory fun m => m.apply op))
    (hcall : ∀ name args, Meets P (fun e => A name args (.error e)) (fun vs => A name args (.ok vs))
      (reenter name args)) (p : HostProg H) : Meets P (R p) (fun _ => True) (p.run reenter) := by
  induction p with
  | finish r => exact Meets.ofExcept (fun _ _ => trivial) (by rintro e rfl; exact hR.finish)
  | look next ih => exact fun w hw => (ih w w hw).mono (fun _ => hR.look) fun _ => id
  | setHost h next ih =>
    exact fun w hw => (ih { w with host := h } (hhost w h hw)).mono
      (fun _ => hR.setHost) fun _ => id
  | memory op next ih =>
    rw [run_memory]
    refine (hmem op).catching.bind fun r hr => (ih r).mono (fun _ => hR.memory ?_) fun _ => id
    cases r with
    | error e => exact hr.2 e rfl
    | ok a => exact hr.1 a rfl
  | call name args next ih =>
    rw [run_call]
    refine (hcall name args).catching.bind fun r hr => (ih r).mono (fun _ => hR.call ?_) fun _ => id
    cases r with
    | error e => exact hr.2 e rfl
    | ok vs => exact hr.1 vs rfl

end HostProg

end WasmEngine
