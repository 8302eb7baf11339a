import Mathlib.Data.List.Basic

/-!
# Rows

Both ways of executing code look at a stretch of an array as a list: the
interpreter at the code of a construct, compiled code at the slots of a frame.
`WasmEngine.Row` says that a list lies in an array from a position on.
-/

namespace WasmEngine

variable {α : Type}

/-- A list lies in an array from a position on. -/
def Row (a : Array α) (i : Nat) (xs : List α) : Prop := ∀ k < xs.length, a[i + k]? = xs[k]?

variable {a : Array α} {i : Nat} {x : α} {xs ys : List α}

@[simp]
theorem row_nil : Row a i [] := fun _ hk => absurd hk (Nat.not_lt_zero _)

theorem row_cons : Row a i (x :: xs) ↔ a[i]? = some x ∧ Row a (i + 1) xs := by
  constructor
  · intro h
    refine ⟨h 0 (by simp), fun k hk => ?_⟩
    have := h (k + 1) (by simpa using hk)
    rwa [List.getElem?_cons_succ, ← Nat.add_assoc, Nat.add_right_comm] at this
  · rintro ⟨hx, hxs⟩ (_ | k) hk
    · simpa using hx
    · rw [List.getElem?_cons_succ, ← hxs k (by simpa using hk), Nat.add_right_comm, Nat.add_assoc]

theorem row_append : Row a i (xs ++ ys) ↔ Row a i xs ∧ Row a (i + xs.length) ys := by
  induction xs generalizing i with
  | nil => simp
  | cons x xs ih =>
    rw [List.cons_append, row_cons, row_cons, ih, and_assoc, List.length_cons,
      Nat.add_assoc, Nat.add_comm 1]

theorem row_toArray : Row xs.toArray 0 xs := fun k _ => by simp

theorem Row.add_length_le (h : Row a i xs) (hi : i ≤ a.size) : i + xs.length ≤ a.size := by
  induction xs generalizing i with
  | nil => simpa using hi
  | cons x xs ih =>
    obtain ⟨hx, hxs⟩ := row_cons.1 h
    have hi' : i < a.size := (Array.getElem?_eq_some_iff.1 hx).1
    have := ih hxs hi'
    rw [List.length_cons]
    omega

end WasmEngine
