import WasmEngine.Proofs.Memory.Contents

/-!
# A memory through its history

Operations come in any order and with any arguments, and a memory has two
ceilings: the maximum of its last successful reset, which changes over time, and
its byte limit, which never does. This module follows both through a list of
operations (`WasmEngine.Memory.run`).

The invariant is on contents, `WasmEngine.Memory.Contents.Whole`: whole pages,
below both ceilings. One operation keeps it
(`WasmEngine.Memory.Contents.Whole.apply`), and the memory follows its contents
by `WasmEngine.Memory.apply_contents`; both go through a run by induction on the
operations, with the maximum in force as the one thing that the induction has to
carry. The main result is `WasmEngine.Memory.run_empty_accounted`.
-/

namespace WasmEngine.Memory

/-- An operation whose maximum, if it has one, is a 32-bit number. -/
def Op.Counted : Op → Prop
  | .reset _ maximum => maximum < 0x100000000
  | _ => True

/-- The maximum in force after an operation: its own if it is a reset that
succeeds. -/
def Op.maximumAfter (most : Nat) : Op → Except Error Reply → Nat
  | .reset _ maximum, .ok _ => maximum
  | _, _ => most

/-- The maximum of the last reset that succeeded, and the given one if none did. -/
def lastMaximum (most : Nat) : List Op → List (Except Error Reply) → Nat
  | op :: ops, reply :: replies => lastMaximum (op.maximumAfter most reply) ops replies
  | _, _ => most

/-- Runs operations one after the other; after a failure the next one goes on
from what it left. -/
def run (m : Memory) : List Op → List (Except Error Reply) × Memory
  | [] => ([], m)
  | op :: ops => ((m.apply op).1 :: (run (m.apply op).2 ops).1, (run (m.apply op).2 ops).2)

theorem byteLimit_apply (m : Memory) (op : Op) : (m.apply op).2.byteLimit = m.byteLimit := by
  cases op with
  | reset initial maximum =>
    simp only [apply, quietly, reset]
    split
    · rfl
    · split <;> rfl
  | grow delta =>
    simp only [apply, grow]
    split
    · rfl
    · split <;> rfl
  | load | dump | poke => rfl
  | store addr bs =>
    simp only [apply, quietly, store]
    split <;> rfl
  | fill addr len b =>
    simp only [apply, quietly, fill]
    split <;> rfl
  | copy dst src len =>
    simp only [apply, quietly, copy]
    split
    · rfl
    · split <;> rfl

namespace Contents

/-- The same on contents. -/
def run (limit : Nat) (c : Contents) : List Op → List (Except Error Reply) × Contents
  | [] => ([], c)
  | op :: ops =>
    ((c.apply limit op).1 :: (run limit (c.apply limit op).2 ops).1,
      (run limit (c.apply limit op).2 ops).2)

/-! ### The invariant -/

/-- **Whole pages below both ceilings.** -/
structure Whole (limit : Nat) (c : Contents) : Prop where
  length_eq : c.bytes.length = c.pages * pageSize
  length_le : c.bytes.length ≤ limit
  pages_le : c.pages ≤ c.most
  most_lt : c.most < 0x100000000

theorem whole_empty (limit : Nat) : Whole limit {} :=
  ⟨rfl, Nat.zero_le limit, Nat.le_refl 0, by decide⟩

variable {limit : Nat} {c : Contents}

/-- A number of pages that both ceilings allow. -/
theorem Whole.of_length {n : Nat} (hlength : c.bytes.length = n * pageSize)
    (hlimit : n * pageSize ≤ limit) (hmost : n ≤ c.most) (hcounted : c.most < 0x100000000) :
    Whole limit c := by
  have hpages : c.pages = n := by
    rw [pages, hlength]
    exact Nat.mul_div_cancel n (by decide)
  exact ⟨by rw [hpages, hlength], hlength ▸ hlimit, hpages ▸ hmost, hcounted⟩

/-- Bytes that are exchanged for as many others. -/
theorem Whole.of_length_eq (h : c.Whole limit) {bs : List UInt8}
    (hlength : bs.length = c.bytes.length) : Whole limit { c with bytes := bs } :=
  .of_length (hlength.trans h.length_eq) (h.length_eq ▸ h.length_le) h.pages_le h.most_lt

theorem Whole.write (h : c.Whole limit) (addr : Nat) (bs : List UInt8) :
    Whole limit (c.write addr bs).2 := by
  simp only [Contents.write]
  split
  · next hfits => exact h.of_length_eq (length_overwrite hfits)
  · exact h

theorem Whole.reset (h : c.Whole limit) {maximum : Nat}
    (hmax : maximum < 0x100000000) (initial : Nat) :
    Whole limit (c.reset limit initial maximum).2 := by
  rw [Contents.reset]
  split
  · exact h
  · next hinitial =>
    split
    · exact .of_length (n := 0) rfl (by simp) (Nat.zero_le _) h.most_lt
    · next hlimit =>
      exact .of_length List.length_replicate (Nat.le_of_not_lt hlimit)
        (Nat.le_of_not_lt hinitial) hmax

theorem Whole.grow (h : c.Whole limit) (delta : Nat) : Whole limit (c.grow limit delta).2 := by
  rw [Contents.grow]
  split
  · next hfits =>
    refine .of_length (n := c.pages + delta) ?_ hfits.2.2 hfits.2.1 h.most_lt
    simp only [List.length_append, List.length_replicate]
    rw [h.length_eq, Nat.add_mul]
  · exact h

/-- **One operation keeps the invariant.** -/
theorem Whole.apply (h : c.Whole limit) {op : Op} (hop : op.Counted) :
    Whole limit (c.apply limit op).2 := by
  cases op with
  | reset initial maximum => exact h.reset hop initial
  | grow delta => exact h.grow delta
  | load | dump => exact h
  | store addr bs => exact h.write addr bs
  | fill addr len b => exact h.write addr _
  | copy dst src len =>
    simp only [Contents.apply, Contents.copy]
    split
    · exact h.write dst _
    · exact h
  | poke addr b => exact h.of_length_eq List.length_set

/-- The maximum changes only by a reset that succeeds, to the maximum of that
reset. -/
theorem most_apply (limit : Nat) (c : Contents) (op : Op) :
    (c.apply limit op).2.most = op.maximumAfter c.most (c.apply limit op).1 := by
  have hwrite (addr : Nat) (bs : List UInt8) : (c.write addr bs).2.most = c.most := by
    simp only [Contents.write]
    split <;> rfl
  cases op with
  | reset initial maximum =>
    simp only [Contents.apply, Contents.reset]
    split
    · rfl
    · split <;> rfl
  | grow delta =>
    simp only [Contents.apply, Contents.grow]
    split <;> rfl
  | load | dump | poke => rfl
  | store addr bs => exact hwrite addr bs
  | fill addr len b => exact hwrite addr _
  | copy dst src len =>
    simp only [Contents.apply, Contents.copy]
    split
    · exact hwrite dst _
    · rfl

/-- **A run keeps the invariant**, and leaves the maximum of the last reset that
succeeded. -/
theorem Whole.run (h : c.Whole limit) {ops : List Op} (hops : ∀ op ∈ ops, op.Counted) :
    Whole limit (c.run limit ops).2 ∧ (c.run limit ops).2.most = lastMaximum c.most ops
      (c.run limit ops).1 := by
  induction ops generalizing c with
  | nil => exact ⟨h, rfl⟩
  | cons op ops ih =>
    have hstep : Whole limit (c.apply limit op).2 := h.apply (hops op List.mem_cons_self)
    have hrest := ih hstep fun op hop => hops op (List.mem_cons_of_mem _ hop)
    rw [most_apply] at hrest
    exact hrest

end Contents

/-- **A run of a memory is the run of its contents.** -/
theorem run_contents {m : Memory} (h : m.contents.Whole m.byteLimit) {ops : List Op}
    (hops : ∀ op ∈ ops, op.Counted) : (m.run ops).1 = (m.contents.run m.byteLimit ops).1 ∧
      (m.run ops).2.contents = (m.contents.run m.byteLimit ops).2 ∧
      (m.run ops).2.byteLimit = m.byteLimit := by
  induction ops generalizing m with
  | nil => exact ⟨rfl, rfl, rfl⟩
  | cons op ops ih =>
    obtain ⟨hreply, hcontents⟩ := apply_contents h.most_lt op
    have hlimit := m.byteLimit_apply op
    have hstep : (m.apply op).2.contents.Whole (m.apply op).2.byteLimit := by
      rw [hcontents, hlimit]
      exact h.apply (hops op List.mem_cons_self)
    have hrest := ih hstep fun op hop => hops op (List.mem_cons_of_mem _ hop)
    rw [hcontents, hlimit] at hrest
    simp only [run, Contents.run, hreply]
    exact ⟨congrArg _ hrest.1, hrest.2⟩

/-! ### What may be asked of a memory at any time -/

/-- **A memory that accounts for its bytes**: whole pages below a byte limit and
a maximum, that grow and start over as these say. -/
structure Accounted (limit most : Nat) (m : Memory) : Prop where
  size_eq : m.size = m.pages * pageSize
  size_le : m.size ≤ limit
  pages_le : m.pages ≤ most
  /-- Growing succeeds, and returns the pages before, exactly if the new number
  can be counted and both ceilings allow it. -/
  grow_eq_some_iff (delta : Nat) : (m.grow delta).1 = some m.pages ↔
    m.pages + delta < 0x100000000 ∧ m.pages + delta ≤ most ∧ (m.pages + delta) * pageSize ≤ limit
  /-- Then every byte is kept and zeros follow. -/
  bytes_grow (delta : Nat) : (m.grow delta).1 = some m.pages →
    (m.grow delta).2.contents.bytes = m.contents.bytes ++ List.replicate (delta * pageSize) 0
  /-- Otherwise nothing happens. -/
  grow_eq_none (delta : Nat) : (m.grow delta).1 ≠ some m.pages → m.grow delta = (none, m)
  /-- A reset that succeeds leaves the pages that it asks for, and only zeros in
  them. -/
  reset_ok (initial maximum : Nat) : (m.reset initial maximum).1 = .ok () →
    (m.reset initial maximum).2.pages = initial ∧
      (m.reset initial maximum).2.contents.bytes = List.replicate (initial * pageSize) 0
  /-- A reset fails if it starts above its own maximum, and then changes nothing. -/
  reset_above (initial maximum : Nat) : maximum < initial →
    m.reset initial maximum = (.error (.fault (.initialPages initial maximum)), m)
  /-- It fails, too, if its pages go past the byte limit, and then leaves no
  byte at all. -/
  reset_beyond (initial maximum : Nat) : initial ≤ maximum → limit < initial * pageSize →
    (m.reset initial maximum).1 = .error (.fault (.cannotAllocate initial)) ∧
      (m.reset initial maximum).2.contents.bytes = []
  /-- It does not fail otherwise. -/
  reset_within (initial maximum : Nat) : initial ≤ maximum → initial * pageSize ≤ limit →
    (m.reset initial maximum).1 = .ok ()

theorem accounted_of_whole {m : Memory} (h : m.contents.Whole m.byteLimit) :
    Accounted m.byteLimit m.maxPages m where
  size_eq := by
    have hlength := h.length_eq
    rwa [length_contents, pages_contents] at hlength
  size_le := m.length_contents ▸ h.length_le
  pages_le := m.pages_contents ▸ h.pages_le
  grow_eq_some_iff delta := by
    rw [(grow_contents h.most_lt delta).1, Contents.grow, pages_contents]
    split
    · next hfits => exact ⟨fun _ => hfits, fun _ => rfl⟩
    · next hfits =>
      constructor
      · intro hsome
        cases hsome
      · intro hgrow
        exact absurd hgrow hfits
  bytes_grow delta hsome := by
    rw [(grow_contents h.most_lt delta).1] at hsome
    rw [(grow_contents h.most_lt delta).2]
    simp only [Contents.grow] at hsome ⊢
    split at hsome
    · next hfits => rw [if_pos hfits]
    · cases hsome
  grow_eq_none delta hnone := by
    rw [grow_eq h.most_lt] at hnone ⊢
    split at hnone
    · exact absurd rfl hnone
    · next hfits => rw [if_neg hfits]
  reset_ok initial maximum hok := by
    have hbytes : (m.reset initial maximum).2.contents.bytes =
        List.replicate (initial * pageSize) 0 := by
      rw [(reset_contents initial maximum).2]
      simp only [reset, Contents.reset] at hok ⊢
      split at hok
      · cases hok
      · split at hok
        · cases hok
        · next habove hbeyond => rw [if_neg habove, if_neg hbeyond]
    refine ⟨?_, hbytes⟩
    rw [← pages_contents, Contents.pages, hbytes, List.length_replicate]
    exact Nat.mul_div_cancel initial (by decide)
  reset_above initial maximum habove := by rw [reset, if_pos habove]
  reset_beyond initial maximum hinitial hlimit := by
    rw [reset, if_neg (Nat.not_lt.mpr hinitial), if_pos hlimit]
    exact ⟨rfl, rfl⟩
  reset_within initial maximum hinitial hlimit := by
    rw [reset, if_neg (Nat.not_lt.mpr hinitial), if_neg (Nat.not_lt.mpr hlimit)]

/-- **What holds of a memory at every point of its history.** Whatever
operations it went through, each was answered as on a row of bytes, the bytes
that it holds are those of the row, and it accounts for them under its byte
limit and the maximum of the last reset that succeeded. -/
theorem run_empty_accounted (limit : Nat) (ops : List Op) (hops : ∀ op ∈ ops, op.Counted) :
    ((empty limit).run ops).1 = (Contents.run limit {} ops).1 ∧
      ((empty limit).run ops).2.contents = (Contents.run limit {} ops).2 ∧
      Accounted limit (lastMaximum 0 ops ((empty limit).run ops).1) ((empty limit).run ops).2 := by
  have hempty : (empty limit).contents.Whole (empty limit).byteLimit := Contents.whole_empty limit
  obtain ⟨hreplies, hcontents, hlimit⟩ := run_contents hempty hops
  obtain ⟨hwhole, hmost⟩ := Contents.Whole.run hempty hops
  refine ⟨hreplies, hcontents, ?_⟩
  rw [← hcontents, ← hreplies] at hmost
  rw [← hcontents, ← hlimit] at hwhole
  have hmaxPages : ((empty limit).run ops).2.maxPages =
    lastMaximum 0 ops ((empty limit).run ops).1 := hmost
  have haccounted := accounted_of_whole hwhole
  rw [hlimit, hmaxPages] at haccounted
  exact haccounted

/-- A memory of at most two pages that starts over, grows to its limit and is
then asked for more than it may have. -/
theorem run_empty_accounted_two_pages :
    let ops : List Op :=
      [.reset 1 3, .store 65535 [7], .grow 1, .grow 1, .copy 65536 65535 2, .reset 5 2, .reset 3 9]
    (∀ op ∈ ops, op.Counted) ∧
      ((empty 131072).run ops).1 = (Contents.run 131072 {} ops).1 ∧
      ((empty 131072).run ops).2.contents = (Contents.run 131072 {} ops).2 ∧
      Accounted 131072 (lastMaximum 0 ops ((empty 131072).run ops).1)
        ((empty 131072).run ops).2 := by
  have hops : ∀ op ∈ [Op.reset 1 3, .store 65535 [7], .grow 1, .grow 1, .copy 65536 65535 2,
    .reset 5 2, .reset 3 9],
      op.Counted := by
    simp [Op.Counted]
  exact ⟨hops, run_empty_accounted 131072 _ hops⟩

end WasmEngine.Memory
