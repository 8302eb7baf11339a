import WasmEngine.Proofs.Bounded

/-!
# Families that mirror a run

Compiled code keeps its operands elsewhere than the reference semantics does, so
the two do not end in equal states. What they end in is **matched** by a
relation between values and states, where the errors are the same and only the
states are related (`WasmEngine.Matches`). A family of results **mirrors** the
result of a run (`WasmEngine.Mirrors`) as a family of runs tracks a run, but up
to such a relation.

Refinements of this kind compose along `bind`: if the first parts match, it is
enough that what follows does so from matching values and states
(`WasmEngine.Mirrors.bind`).
-/

namespace WasmEngine

variable {σ τ α β γ δ : Type}

/-! ### Matching results -/

/-- Results that match: values by one relation, and states after the same error
by another. -/
def Matches (R : α → σ → β → τ → Prop) (S : σ → τ → Prop) : Except Halt α × σ →
    Except Halt β × τ → Prop
  | (.ok a, s), (.ok b, t) => R a s b t
  | (.error h, s), (.error h', t) => h = h' ∧ S s t
  | _, _ => False

variable {R : α → σ → β → τ → Prop} {S : σ → τ → Prop} {Q : γ → σ → δ → τ → Prop}

namespace Matches

theorem mono {R' : α → σ → β → τ → Prop} {x : Except Halt α × σ} {y : Except Halt β × τ}
    (h : Matches R S x y) (hR : ∀ a s b t, R a s b t → R' a s b t) : Matches R' S x y := by
  obtain ⟨_ | a, s⟩ := x <;> obtain ⟨_ | b, t⟩ := y
  · exact h
  · exact h
  · exact h
  · exact hR a s b t h

theorem settled_iff {x : Except Halt α × σ} {y : Except Halt β × τ} (h : Matches R S x y) :
    Settled x ↔ Settled y := by
  obtain ⟨_ | a, s⟩ := x <;> obtain ⟨_ | b, t⟩ := y
  · rw [settled_error, settled_error, h.1]
  · exact h.elim
  · exact h.elim
  · simp

theorem pure {a : α} {s : σ} {b : β} {t : τ} (h : R a s b t) :
    Matches R S ((Pure.pure a : Run σ α) s) ((Pure.pure b : Run τ β) t) := h

theorem bind {x : Run σ α} {f : α → Run σ γ} {y : Run τ β} {g : β → Run τ δ} {s : σ} {t : τ}
    (hx : Matches R S (x s) (y t)) (hf : ∀ a s' b t', R a s' b t' → Matches Q S (f a s') (g b t')) :
    Matches Q S ((x >>= f) s) ((y >>= g) t) := by
  rw [Run.bind_apply, Run.bind_apply]
  generalize x s = x' at hx ⊢
  generalize y t = y' at hx ⊢
  obtain ⟨_ | a, s'⟩ := x' <;> obtain ⟨_ | b, t'⟩ := y'
  · exact hx
  · exact hx.elim
  · exact hx.elim
  · exact hf a s' b t' hx

end Matches

/-! ### Mirrors -/

/-- **A family of results mirrors the result of a run**, as far as the bound `n`
goes: the run matches what the family settles on within `n`, and whatever it
settles on the family settles on in the end. -/
structure Mirrors (R : α → σ → β → τ → Prop) (S : σ → τ → Prop)
    (y : Nat → Except Halt β × τ) (n : Nat) (x : Except Halt α × σ) : Prop where
  /-- The run matches what the family settles on within the bound. -/
  upper : Settled (y n) → Matches R S x (y n)
  /-- The family settles on what the run does. -/
  lower : Settled x → ∃ j, Matches R S x (y j)

namespace Mirrors

variable {y : Nat → Except Halt β × τ} {n : Nat} {x : Except Halt α × σ}

variable {s : σ} {t : τ}

theorem mono {R' : α → σ → β → τ → Prop} (h : Mirrors R S y n x)
    (hR : ∀ a s b t, R a s b t → R' a s b t) : Mirrors R' S y n x := by
  refine ⟨fun hn => (h.upper hn).mono hR, fun hx => ?_⟩
  obtain ⟨j, hj⟩ := h.lower hx
  exact ⟨j, hj.mono hR⟩

theorem alike {S' : σ → τ → Prop} (h : Mirrors R S y n x) (hS : ∀ s t, S s t → S' s t) :
    Mirrors R S' y n x := by
  have key : ∀ {r : Except Halt β × τ}, Matches R S x r → Matches R S' x r := by
    rintro ⟨_ | b, t⟩ hr <;> obtain ⟨_ | a, s⟩ := x
    · exact ⟨hr.1, hS s t hr.2⟩
    · exact hr
    · exact hr
    · exact hr
  refine ⟨fun hn => key (h.upper hn), fun hx => ?_⟩
  obtain ⟨j, hj⟩ := h.lower hx
  exact ⟨j, key hj⟩

/-- A smaller bound asks for less. -/
theorem of_le {m : Nat} (h : Mirrors R S y n x) (hy : Rising y) (hmn : m ≤ n) :
    Mirrors R S y m x := by
  refine ⟨fun hm => ?_, h.lower⟩
  have hn : y n = y m := hy.eq_of_le hmn hm
  rw [← hn] at hm ⊢
  exact h.upper hm

theorem const {r : Except Halt β × τ} (h : Matches R S x r) (n : Nat) :
    Mirrors R S (fun _ => r) n x :=
  ⟨fun _ => h, fun _ => ⟨0, h⟩⟩

/-- A family whose first member is of no account. -/
theorem succ {y' : Nat → Except Halt β × τ} (h : Mirrors R S y' n x) (hy : ∀ j, y (j + 1) = y' j) :
    Mirrors R S y (n + 1) x := by
  refine ⟨fun hn => ?_, fun hx => ?_⟩
  · rw [hy] at hn ⊢
    exact h.upper hn
  · obtain ⟨j, hj⟩ := h.lower hx
    exact ⟨j + 1, by rwa [hy]⟩

/-- Within no bound at all nothing settles. -/
theorem exhausted (h : ¬Settled (y n)) : Mirrors R S y n (.error .exhausted, s) :=
  ⟨fun hn => absurd hn h, fun hx => absurd hx (not_settled_exhausted s)⟩

theorem bind {x : Run σ α} {f : α → Run σ γ} {y : Nat → Run τ β} {g : Nat → β → Run τ δ}
    (hx : Mirrors R S (fun j => y j t) n (x s)) (hy : Rising fun j => y j t)
    (hg : ∀ b t', Rising fun j => g j b t')
    (hf : ∀ a s' b t', x s = (.ok a, s') → R a s' b t' →
      Mirrors Q S (fun j => g j b t') n (f a s')) :
    Mirrors Q S (fun j => (y j >>= g j) t) n ((x >>= f) s) := by
  refine ⟨fun hn => ?_, fun hs => ?_⟩
  · have hyn : Settled (y n t) := by
      rcases settled_cases (y n t) with ⟨b, t', h⟩ | ⟨e, t', h, he⟩ | ⟨t', h⟩
      · simp [h]
      · simp [h, he]
      · rw [Run.bind_error h] at hn
        exact absurd hn (not_settled_exhausted t')
    have hmatch := hx.upper hyn
    rcases hxs : x s with ⟨e | a, s'⟩ <;> rcases hyt :
      y n t with ⟨e' | b, t'⟩ <;> simp only [hxs, hyt] at hmatch
    · rw [Run.bind_error hxs, Run.bind_error hyt]
      exact hmatch
    · exact hmatch.elim
    · exact hmatch.elim
    · rw [Run.bind_ok hyt] at hn ⊢
      rw [Run.bind_ok hxs]
      exact (hf a s' b t' hxs hmatch).upper hn
  · rcases hxs : x s with ⟨e | a, s'⟩
    · rw [Run.bind_error hxs] at hs ⊢
      obtain ⟨j, hj⟩ := hx.lower (by simpa [hxs] using hs)
      refine ⟨j, ?_⟩
      rcases hyt : y j t with ⟨e' | b, t'⟩ <;> simp only [hxs, hyt] at hj
      · rw [Run.bind_error hyt]
        exact hj
      · exact hj.elim
    · rw [Run.bind_ok hxs] at hs ⊢
      obtain ⟨i, hi⟩ := hx.lower (by simp [hxs])
      rcases hyt : y i t with ⟨e' | b, t'⟩ <;> simp only [hxs, hyt] at hi
      · exact hi.elim
      · obtain ⟨j, hj⟩ := (hf a s' b t' hxs hi).lower hs
        refine ⟨max i j, ?_⟩
        have hyi : y (max i j) t = (.ok b, t') :=
          (hy.eq_of_le (Nat.le_max_left i j) (by simp [hyt])).trans hyt
        have hgj : g (max i j) b t' = g j b t' := (hg b t').eq_of_le (Nat.le_max_right i j)
          (hj.settled_iff.1 hs)
        rw [Run.bind_ok hyi, hgj]
        exact hj

/-- What is made of the value of the run does not matter to how it is mirrored. -/
theorem map_iff {x : Run σ α} {g : α → γ} {Q : γ → σ → β → τ → Prop} :
    Mirrors Q S y n ((x >>= fun a => Pure.pure (g a)) s) ↔
    Mirrors (fun a => Q (g a)) S y n (x s) := by
  have hmatches : ∀ r, Matches Q S ((x >>= fun a => Pure.pure (g a)) s) r ↔
      Matches (fun a => Q (g a)) S (x s) r := by
    intro r
    rw [Run.bind_apply]
    rcases x s with ⟨e | a, s'⟩ <;> obtain ⟨e' | b, t⟩ := r <;> exact Iff.rfl
  have hsettled : Settled ((x >>= fun a => Pure.pure (g a)) s) ↔ Settled (x s) := by
    rw [Run.bind_apply]
    rcases x s with ⟨e | a, s'⟩ <;> simp
  refine ⟨fun h => ⟨fun hn => (hmatches _).1 (h.upper hn), fun hx => ?_⟩,
    fun h => ⟨fun hn => (hmatches _).2 (h.upper hn), fun hx => ?_⟩⟩
  · obtain ⟨j, hj⟩ := h.lower (hsettled.2 hx)
    exact ⟨j, (hmatches _).1 hj⟩
  · obtain ⟨j, hj⟩ := h.lower (hsettled.1 hx)
    exact ⟨j, (hmatches _).2 hj⟩

/-- What is made of the values of the family is made of the value that they
mirror. -/
theorem map_right {y : Nat → Run τ β} {g : β → δ} {Q : α → σ → δ → τ → Prop}
    (h : Mirrors R S (fun j => y j t) n x) (hQ : ∀ a s b t, R a s b t → Q a s (g b) t) :
    Mirrors Q S (fun j => (y j >>= fun b => Pure.pure (g b)) t) n x := by
  have key : ∀ j, Matches R S x (y j t) → Matches Q S x ((y j >>= fun b => Pure.pure (g b)) t) := by
    intro j hj
    rw [Run.bind_apply]
    generalize y j t = r at hj ⊢
    obtain ⟨e | a, s⟩ := x <;> obtain ⟨e' | b, t'⟩ := r
    · exact hj
    · exact hj
    · exact hj
    · exact hQ a s b t' hj
  refine ⟨fun hn => key n (h.upper ?_), fun hx => ?_⟩
  · rw [Run.bind_apply] at hn
    rcases hyt : y n t with ⟨e | b, t'⟩
    · simpa [hyt] using hn
    · exact settled_ok _ _
  · obtain ⟨j, hj⟩ := h.lower hx
    exact ⟨j, key j hj⟩

theorem leaving {x : Run σ α} {y : Nat → Run τ β} {f : σ → σ} {g : τ → τ}
    (h : Mirrors (fun a s' b t' => R a (f s') b (g t')) (fun s' t' => S (f s') (g t'))
      (fun j => y j t) n (x s)) : Mirrors R S (fun j => (y j).leaving g t) n (x.leaving f s) := by
  have key : ∀ {r : Except Halt α × σ} {r' : Except Halt β × τ},
      Matches (fun a s' b t' => R a (f s') b (g t')) (fun s' t' => S (f s') (g t')) r r' →
        Matches R S (r.1, f r.2) (r'.1, g r'.2) := by
    rintro ⟨_ | a, s⟩ ⟨_ | b, t⟩ hr
    · exact hr
    · exact hr.elim
    · exact hr.elim
    · exact hr
  refine ⟨fun hn => key (h.upper hn), fun hs => ?_⟩
  obtain ⟨j, hj⟩ := h.lower hs
  exact ⟨j, key hj⟩

end Mirrors

/-- A chain that mirrors a run up to equality tracks it. -/
theorem Run.Tracks.of_mirrors {y : Nat → Run σ α} {n : Nat} {x : Run σ α}
    (h : ∀ s, Mirrors (fun a s' b t' => a = b ∧ s' = t') Eq (fun j => y j s) n (x s)) :
    Run.Tracks y n x := by
  have eq_of_matches : ∀ {r r' : Except Halt α × σ}, Matches (fun a s' b t' => a = b ∧ s' = t') Eq
      r r' → r' = r := by
    rintro ⟨_ | a, s⟩ ⟨_ | b, t⟩ hr
    · rw [hr.1, hr.2]
    · exact hr.elim
    · exact hr.elim
    · rw [hr.1, hr.2]
  refine ⟨fun s hs => (eq_of_matches ((h s).upper hs)).symm, fun s hs => ?_⟩
  obtain ⟨j, hj⟩ := (h s).lower hs
  exact ⟨j, eq_of_matches hj⟩

end WasmEngine
