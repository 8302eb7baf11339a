import WasmEngine.Compiled
import WasmEngine.Proofs.Row
import WasmEngine.Proofs.Structured

/-!
# Slots

Compiled code keeps the locals and the operands of a function in a row of slots
from its frame pointer on: first the locals, then the operands from the bottom
to the top. `WasmEngine.Compiled.Holds` says that the slots hold a state of the
reference semantics, together with the operands under the construct at hand.

What is below the frame belongs to callers and stays as it is, and no slot is
ever given up (`WasmEngine.Compiled.Kept`).
-/

namespace WasmEngine

open Structured

variable {α : Type}

/-! ### Writing in rows -/

section Row

variable {a : Array α} {i k : Nat} {x : α} {xs ys : List α}

theorem Row.take (h : Row a i xs) (k : Nat) : Row a i (xs.take k) :=
  (row_append.1 ((List.take_append_drop k xs).symm ▸ h)).1

theorem Row.drop (h : Row a i xs) (hk : k ≤ xs.length) : Row a (i + k) (xs.drop k) := by
  have h' := (row_append.1 ((List.take_append_drop k xs).symm ▸ h)).2
  rwa [List.length_take, Nat.min_eq_left hk] at h'

theorem Row.extract (h : Row a i xs) (hi : i + xs.length ≤ a.size) :
    (a.extract i (i + xs.length)).toList = xs := by
  refine List.ext_getElem? fun k => ?_
  rw [Array.getElem?_toList, Array.getElem?_extract]
  split
  · next hk => exact h k (by omega)
  · next hk => rw [List.getElem?_eq_none (by omega)]

/-- A row does not change with slots that are not in it. -/
theorem Row.congr {b : Array α} (h : Row a i xs)
    (hb : ∀ j, i ≤ j → j < i + xs.length → b[j]? = a[j]?) : Row b i xs := by
  intro k hk
  rw [hb (i + k) (by omega) (by omega), h k hk]

/-- The element behind a row. -/
theorem Row.push (h : Row a i xs) (hi : i + xs.length < a.size) :
    Row (a.setIfInBounds (i + xs.length) x) i (xs ++ [x]) := by
  refine row_append.2 ⟨h.congr fun j _ hj => ?_, row_cons.2 ⟨?_, row_nil⟩⟩
  · rw [Array.getElem?_setIfInBounds_ne (by omega)]
  · rw [Array.getElem?_setIfInBounds_self_of_lt hi]

/-- An element of a row. -/
theorem Row.set (h : Row a i xs) (hk : k < xs.length) (hi : i + k < a.size) :
    Row (a.setIfInBounds (i + k) x) i (xs.set k x) := by
  intro j hj
  rw [List.length_set] at hj
  rcases Nat.lt_trichotomy k j with hlt | rfl | hgt
  · rw [Array.getElem?_setIfInBounds_ne (by omega), List.getElem?_set_ne (by omega), h j hj]
  · rw [Array.getElem?_setIfInBounds_self_of_lt hi, List.getElem?_set_self hk]
  · rw [Array.getElem?_setIfInBounds_ne (by omega), List.getElem?_set_ne (by omega), h j hj]

end Row

namespace Activation

variable {slots : Array Raw} {i j : Nat} {rs : List Raw}

@[simp]
theorem size_writeSlots (slots : Array Raw) (i : Nat) (rs : List Raw) :
    (writeSlots slots i rs).size = slots.size := by
  induction rs generalizing slots i with
  | nil => rfl
  | cons r rs ih => rw [writeSlots, ih, Array.size_setIfInBounds]

theorem getElem?_writeSlots_of_lt (h : j < i) : (writeSlots slots i rs)[j]? = slots[j]? := by
  induction rs generalizing slots i with
  | nil => rfl
  | cons r rs ih => rw [writeSlots, ih (by omega), Array.getElem?_setIfInBounds_ne (by omega)]

theorem row_writeSlots (h : i + rs.length ≤ slots.size) : Row (writeSlots slots i rs) i rs := by
  induction rs generalizing slots i with
  | nil => exact row_nil
  | cons r rs ih =>
    rw [List.length_cons] at h
    refine row_cons.2 ⟨?_, ih (by rw [Array.size_setIfInBounds]; omega)⟩
    rw [writeSlots, getElem?_writeSlots_of_lt (by omega),
      Array.getElem?_setIfInBounds_self_of_lt (by omega)]

end Activation

namespace Compiled

/-! ### Frames -/

/-- What lies below a frame stays, and slots are only added. -/
structure Kept (fp : Nat) (slots slots' : Array Raw) : Prop where
  /-- The slots below the frame. -/
  below : ∀ i < fp, slots'[i]? = slots[i]?
  /-- The number of slots. -/
  size : slots.size ≤ slots'.size

namespace Kept

variable {fp : Nat} {slots slots' slots'' : Array Raw}

theorem refl (fp : Nat) (slots : Array Raw) : Kept fp slots slots := ⟨fun _ _ => rfl, Nat.le_refl _⟩

theorem trans (h : Kept fp slots slots') (h' : Kept fp slots' slots'') : Kept fp slots slots'' :=
  ⟨fun i hi => (h'.below i hi).trans (h.below i hi), Nat.le_trans h.size h'.size⟩

theorem mono {fp' : Nat} (h : Kept fp' slots slots') (hfp : fp ≤ fp') : Kept fp slots slots' :=
  ⟨fun i hi => h.below i (Nat.lt_of_lt_of_le hi hfp), h.size⟩

theorem set (slots : Array Raw) {i : Nat} (r : Raw) (hi : fp ≤ i) :
    Kept fp slots (slots.setIfInBounds i r) :=
  ⟨fun j hj => by rw [Array.getElem?_setIfInBounds_ne (by omega)], by simp⟩

theorem writeSlots (slots : Array Raw) {i : Nat} (rs : List Raw) (hi : fp ≤ i) :
    Kept fp slots (Activation.writeSlots slots i rs) :=
  ⟨fun j hj => Activation.getElem?_writeSlots_of_lt (by omega), by simp⟩

/-- A row below the frame stays. -/
theorem row {i : Nat} {xs : List Raw} (h : Kept fp slots slots') (hrow : Row slots i xs)
    (hi : i + xs.length ≤ fp) : Row slots' i xs := hrow.congr fun j _ hj => h.below j (by omega)

end Kept

/-- **The slots hold a state**: from the frame pointer on, the locals, the
operands under the construct and those of the construct itself, the top last. -/
def Holds (fp : Nat) (under : List Raw) (s : State) (slots : Array Raw) : Prop :=
  Row slots fp (s.locals.toList ++ (s.operands ++ under).reverse)

namespace Holds

variable {fp : Nat} {under : List Raw} {locals : Array Raw} {vs : List Raw} {v : Raw}
  {slots : Array Raw}

theorem length_row (locals : Array Raw) (vs under : List Raw) :
    (locals.toList ++ (vs ++ under).reverse).length = locals.size + (under.length + vs.length) := by
  rw [List.length_append, List.length_reverse, Array.length_toList, List.length_append,
    Nat.add_comm vs.length]

/-- The slot of the top operand, and the others. -/
theorem pop (h : Holds fp under ⟨locals, v :: vs⟩ slots) :
    slots[fp + (locals.size + (under.length + vs.length))]? = some v ∧
    Holds fp under ⟨locals, vs⟩ slots := by
  rw [Holds, List.cons_append, List.reverse_cons, ← List.append_assoc, row_append, row_cons] at h
  refine ⟨?_, h.1⟩
  rw [← length_row]
  exact h.2.1

theorem push (h : Holds fp under ⟨locals, vs⟩ slots)
    (hsize : fp + (locals.size + (under.length + vs.length)) < slots.size) :
    Holds fp under ⟨locals, v :: vs⟩
      (slots.setIfInBounds (fp + (locals.size + (under.length + vs.length))) v) := by
  rw [Holds, List.cons_append, List.reverse_cons, ← List.append_assoc, ← length_row]
  exact Row.push h (by rwa [length_row])

theorem getLocal {s : State} (h : Holds fp under s slots) {i : Nat} (hi : i < s.locals.size) :
    slots[fp + i]? = s.locals[i]? := by
  have hrow := h i (by simp; omega)
  rw [hrow, List.getElem?_append_left (by simpa using hi), Array.getElem?_toList]

theorem setLocal (h : Holds fp under ⟨locals, vs⟩ slots) {i : Nat} (hi : i < locals.size)
    (hsize : fp + i < slots.size) :
    Holds fp under ⟨locals.setIfInBounds i v, vs⟩ (slots.setIfInBounds (fp + i) v) := by
  have hrow := Row.set (x := v) h (by simp; omega) hsize
  rw [List.set_append_left _ _ (by simpa using hi)] at hrow
  simpa only [Holds, Array.toList_setIfInBounds] using hrow

end Holds

/-! ### Moving values -/

variable {H : Type}

/-- The values at the end of a row are moved over others before them. -/
theorem move_row {fp k d : Nat} {xs : List Raw} {a : Activation H}
    (h : Row a.slots fp xs) (hd : d ≤ k) (hk : k ≤ xs.length)
    (hsize : fp + xs.length ≤ a.slots.size) :
    ∃ slots, Activation.move (fp + k) (fp + d) (xs.length - k) a = (.ok (), ⟨slots, a.world⟩) ∧
    Kept fp a.slots slots ∧
      Row slots fp (xs.take d ++ xs.drop k) := by
  rw [Activation.move]
  split
  · next hsame =>
    refine ⟨a.slots, rfl, Kept.refl _ _, ?_⟩
    rcases hsame with hlen | hsrc
    · rw [List.drop_eq_nil_of_le (by omega), List.append_nil]
      exact h.take d
    · obtain rfl : k = d := by omega
      rwa [List.take_append_drop]
  · rw [if_pos (by omega)]
    refine ⟨_, rfl, Kept.writeSlots _ _ (by omega), ?_⟩
    have hextract := (h.drop hk).extract (by rw [List.length_drop]; omega)
    rw [List.length_drop] at hextract
    rw [hextract]
    refine row_append.2 ⟨(h.take d).congr fun j _ hj => ?_, ?_⟩
    · rw [List.length_take] at hj
      exact Activation.getElem?_writeSlots_of_lt (by omega)
    · rw [List.length_take, Nat.min_eq_left (by omega)]
      exact Activation.row_writeSlots (by rw [List.length_drop]; omega)

end Compiled

end WasmEngine
