import WasmEngine.Env
import WasmEngine.Proofs.Except
import WasmEngine.Proofs.Typing.Code

/-!
# Conditions on values

Operands, locals and globals are untyped words, but each has a type that the
code was checked with. A **condition** `V` says of the words of each type what
they are like. It is upheld (`WasmEngine.FloatPolicy.Upholds`) if whatever
computes a value computes one that meets it: numeric operations on operands that
do, loads, and the values that come as they are, from constants, arguments and
the results of the host. Nothing else makes values, so what is upheld holds
wherever a type says so.
-/

namespace WasmEngine

/-! ### Words and their types in rows -/

section Rows

variable {V : ValType → Raw → Prop} {ts us : List ValType} {vs : List Raw}

/-- The words of the first types, and those of the others. -/
theorem forall₂_split (h : List.Forall₂ V (ts ++ us) vs) :
    List.Forall₂ V ts (vs.take ts.length) ∧ List.Forall₂ V us (vs.drop ts.length) := by
  constructor
  · simpa using List.forall₂_take ts.length h
  · simpa using List.forall₂_drop ts.length h

theorem forall₂_set (h : List.Forall₂ V ts vs) {i : Nat} {t : ValType} {r : Raw}
    (ht : ts[i]? = some t) (hr : V t r) : List.Forall₂ V ts (vs.set i r) := by
  induction h generalizing i with
  | nil => exact .nil
  | @cons t' r' ts vs hr' _ ih =>
    cases i with
    | zero =>
      obtain rfl : t' = t := Option.some.inj ht
      exact .cons hr ‹_›
    | succ i => exact .cons hr' (ih ht)

/-- A local takes a word of its type. -/
theorem forall₂_setIfInBounds {ls : Array Raw} (h : List.Forall₂ V ts ls.toList) {i : Nat}
    {t : ValType} {r : Raw} (ht : ts[i]? = some t) (hr : V t r) : i < ls.size ∧
    List.Forall₂ V ts (ls.setIfInBounds i r).toList := by
  rw [Array.toList_setIfInBounds, ← Array.length_toList, ← h.length_eq]
  exact ⟨(List.getElem?_eq_some_iff.1 ht).1, forall₂_set h ht hr⟩

/-- A condition that all words meet counts them. -/
theorem forall₂_true_iff : List.Forall₂ (fun (_ : ValType) (_ : Raw) => True) ts vs ↔
    ts.length = vs.length := by
  simp [List.forall₂_iff_zip]

end Rows

/-! ### What upholds a condition -/

/-- **Whatever computes a value upholds a condition on values.** -/
structure FloatPolicy.Upholds (p : FloatPolicy) (V : ValType → Raw → Prop) : Prop where
  /-- Values meet the condition as they are. -/
  value : ∀ v : Value, V v.type v.toRaw
  /-- What is loaded meets it. -/
  load : ∀ {op : LoadOp} {arg : MemArg} {m : Memory} {base r : Raw}, op.run arg m base =
    .ok r → V op.type r
  /-- An operation with one operand makes a value that meets it of one that does. -/
  unary : ∀ {op : Unary} {a r : Raw}, V op.operand a → op.eval p a = .ok r → V op.result r
  /-- And so does an operation with two. -/
  binary : ∀ {op : Binary} {a b r : Raw}, V op.operand a → V op.operand b →
    op.eval p a b = .ok r → V op.result r

namespace FloatPolicy

variable {p : FloatPolicy} {V : ValType → Raw → Prop}

/-- The condition that all values meet. -/
theorem upholds_true (p : FloatPolicy) : p.Upholds fun _ _ => True :=
  ⟨fun _ => trivial, fun _ => trivial, fun _ _ => trivial, fun _ _ _ => trivial⟩

namespace Upholds

variable (h : p.Upholds V)
include h

theorem zero (t : ValType) : V t 0 := by
  cases t with
  | i32 => exact h.value (.i32 0)
  | i64 => exact h.value (.i64 0)
  | f32 => exact h.value (.f32 0)
  | f64 => exact h.value (.f64 0)

/-- Locals start out as zeros. -/
theorem zeros (ts : List ValType) : List.Forall₂ V ts (List.replicate ts.length 0) := by
  induction ts with
  | nil => exact .nil
  | cons t ts ih => exact .cons (h.zero t) ih

theorem values (vs : List Value) : List.Forall₂ V (vs.map Value.type) (vs.map Value.toRaw) := by
  induction vs with
  | nil => exact .nil
  | cons v vs ih => exact .cons (h.value v) ih

/-- A number of pages is a value. -/
theorem pages (n : Nat) : V .i32 (World.pagesRaw n) := h.value (.i32 (BitVec.ofNat 32 n))

/-- The locals of a function that is called with arguments that meet the
condition. -/
theorem locals {ps ls : List ValType} {args : List Raw} (hargs : List.Forall₂ V ps args) :
    List.Forall₂ V (ps ++ ls) (args ++ List.replicate (ps.length + ls.length - args.length) 0) := by
  have hlen : ps.length + ls.length - args.length = ls.length := by
    rw [← hargs.length_eq]
    omega
  rw [hlen]
  exact List.rel_append hargs (h.zeros ls)

end Upholds

end FloatPolicy

/-! ### Globals -/

/-- The globals of a state meet a condition on their types. -/
def Store.Carries (V : ValType → Raw → Prop) (m : Module) (s : Store) : Prop :=
  ∀ (i : Nat) (g : GlobalType) (r : Raw), m.globalTypes[i]? = some g →
    s.globals[i]? = some r → V g.type r

namespace Store.Carries

variable {V : ValType → Raw → Prop} {m : Module} {s : Store} {i : Nat} {g : GlobalType} {r : Raw}

theorem global (h : s.Carries V m) (hg : m.globalTypes[i]? = some g)
    (hr : s.global i = .ok r) : V g.type r := by
  rw [Store.global] at hr
  split at hr
  · next r' hr' => exact h i g r hg (Except.ok.inj hr ▸ hr')
  · cases hr

theorem setGlobal (h : s.Carries V m) (hg : m.globalTypes[i]? = some g) (hr : V g.type r) :
    (s.setGlobal i r).2.Carries V m := by
  rw [Store.setGlobal]
  split
  · intro j g' r' hg' hr'
    rw [Array.getElem?_setIfInBounds] at hr'
    split at hr'
    · next hij =>
      obtain rfl := hij
      obtain rfl : g = g' := Option.some.inj (hg.symm.trans hg')
      exact Option.some.inj hr' ▸ hr
    · exact h j g' r' hg' hr'
  · exact h

theorem onMemory {α : Type} (f : Memory → Except Error α × Memory) (h : s.Carries V m) :
    (s.onMemory f).2.Carries V m := by
  obtain ⟨gs, ts, _ | mem⟩ := s <;> exact h

end Store.Carries

end WasmEngine
