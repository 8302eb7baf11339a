import WasmEngine.Memory.Op

/-!
# A memory as a row of bytes

What a memory is to those who use it: a list of bytes, and the number of pages
that it may grow to (`WasmEngine.Memory.Contents`). Every operation is described
on lists, where bytes are taken, replaced and appended, and
`WasmEngine.Memory.apply_contents` says that the operation on the memory does
just that.

The buffer behind a memory is written byte by byte and page by page. So the
lemmas here go from the single byte that is set
(`WasmEngine.Memory.toList_setByte`) to a range that is written
(`WasmEngine.Memory.toList_setBytes`), and from a page to all the pages that are
added (`WasmEngine.Memory.toList_addPages`).
-/

namespace WasmEngine.Memory

/-! ### Writing bytes -/

section Write

variable {α : Type} {addr : Nat} {x : α} {xs ys : List α}

/-- A list with others written over it from an address on. -/
def overwrite (xs : List α) (addr : Nat) (ys : List α) : List α :=
  xs.take addr ++ ys ++ xs.drop (addr + ys.length)

theorem overwrite_nil (xs : List α) (addr : Nat) : overwrite xs addr [] = xs := by
  simp [overwrite]

theorem overwrite_cons (h : addr < xs.length) : overwrite (xs.set addr x) (addr + 1) ys =
    overwrite xs addr (x :: ys) := by
  have htake : (xs.set addr x).take (addr + 1) = xs.take addr ++ [x] := by
    rw [List.take_set, List.take_succ_eq_append_getElem h,
      List.set_append_right _ _ (by rw [List.length_take]; omega)]
    simp [Nat.min_eq_left (Nat.le_of_lt h)]
  have hdrop : (xs.set addr x).drop (addr + 1 + ys.length) = xs.drop (addr + 1 + ys.length) :=
    List.drop_set_of_lt (by omega)
  rw [overwrite, overwrite, htake, hdrop, List.length_cons, Nat.add_right_comm addr 1,
    ← Nat.add_assoc addr]
  simp

theorem length_overwrite (h : addr + ys.length ≤ xs.length) :
    (overwrite xs addr ys).length = xs.length := by
  simp only [overwrite, List.length_append, List.length_take, List.length_drop]
  omega

end Write

section Buffer

variable (data : ByteArray) (addr : Nat)

theorem toList_setByte (b : UInt8) : (setByte data addr b).data.toList =
    data.data.toList.set addr b := by
  rw [setByte]
  split
  · next h => simp [ByteArray.data_set]
  · next h =>
      rw [List.set_eq_of_length_le (by simpa [ByteArray.size_data] using Nat.le_of_not_lt h)]

variable {data addr}

theorem toList_setBytes {bs : List UInt8} (h : addr + bs.length ≤ data.size) :
    (setBytes data addr bs).data.toList = overwrite data.data.toList addr bs := by
  induction bs generalizing data addr with
  | nil => rw [setBytes, overwrite_nil]
  | cons b bs ih =>
    rw [List.length_cons] at h
    have hlt : addr < data.data.toList.length := by
      rw [Array.length_toList, ByteArray.size_data]
      omega
    have hsize : (setByte data addr b).size = data.size := by
      rw [← ByteArray.size_data, ← Array.length_toList, toList_setByte, List.length_set,
        Array.length_toList, ByteArray.size_data]
    rw [setBytes, ih (by rw [hsize]; omega), toList_setByte, overwrite_cons hlt]

/-- To set a range to one value is to write as many of it. -/
theorem setAll_eq_setBytes (data : ByteArray) (addr : Nat) (b : UInt8) (len : Nat) :
    setAll data addr b len = setBytes data addr (List.replicate len b) := by
  induction len generalizing data addr with
  | zero => rfl
  | succ n ih => rw [setAll, ih, List.replicate_succ, setBytes]

/-! ### Adding pages -/

theorem toList_zeros (k : Nat) : (zeros k).data.toList = List.replicate (1 <<< k) 0 := by
  induction k with
  | zero => rfl
  | succ k ih =>
    have hdouble : 1 <<< (k + 1) = 1 <<< k + 1 <<< k := by rw [Nat.shiftLeft_succ, Nat.two_mul]
    rw [zeros, ByteArray.toList_data_append, ih, List.replicate_append_replicate, hdouble]

theorem toList_addPages (data : ByteArray) (n : Nat) :
    (addPages data n).data.toList = data.data.toList ++ List.replicate (n * pageSize) 0 := by
  induction n generalizing data with
  | zero => simp [addPages]
  | succ n ih =>
    have hpage : zeroPage.data.toList = List.replicate pageSize 0 := toList_zeros 16
    rw [addPages, ih, ByteArray.toList_data_append, hpage, List.append_assoc,
      List.replicate_append_replicate, Nat.add_comm pageSize, Nat.succ_mul]

end Buffer

/-! ### Contents -/

/-- **What a memory is to its users**: bytes in a row, and the number of pages
that they may grow to. -/
structure Contents where
  /-- The bytes. -/
  bytes : List UInt8 := []
  /-- The number of pages that they may grow to. -/
  most : Nat := 0
  deriving DecidableEq

namespace Contents

variable (c : Contents)

/-- The number of pages. -/
def pages : Nat := c.bytes.length / pageSize

/-- An access to a range, which traps unless the range lies within the bytes. -/
def access {α : Type} (addr len : Nat) (a : α) : Except Error α :=
  if addr + len ≤ c.bytes.length then .ok a
  else .error (.trap (.memoryOutOfBounds addr len c.bytes.length))

/-- Writes bytes at an address, if there is room for them. -/
def write (addr : Nat) (bs : List UInt8) : Except Error Reply × Contents :=
  (c.access addr bs.length .done,
    if addr + bs.length ≤ c.bytes.length then { c with bytes := overwrite c.bytes addr bs } else c)

/-- Copies a range over another, if both lie within the bytes. -/
def copy (dst src len : Nat) : Except Error Reply × Contents :=
  if src + len ≤ c.bytes.length then c.write dst ((c.bytes.drop src).take len)
  else (c.access src len .done, c)

/-- Starts over with zero pages. -/
def reset (limit initial maximum : Nat) : Except Error Reply × Contents :=
  if maximum < initial then (.error (.fault (.initialPages initial maximum)), c)
  else if limit < initial * pageSize then
    (.error (.fault (.cannotAllocate initial)), { c with bytes := [] })
  else (.ok .done, ⟨List.replicate (initial * pageSize) 0, maximum⟩)

/-- Appends zero pages, if the pages can be counted, are allowed and do not go
past the limit. -/
def grow (limit delta : Nat) : Option Nat × Contents :=
  if c.pages + delta < 0x100000000 ∧ c.pages + delta ≤ c.most ∧
      (c.pages + delta) * pageSize ≤ limit then
    (some c.pages, { c with bytes := c.bytes ++ List.replicate (delta * pageSize) 0 })
  else (none, c)

/-- The runs of non-zero bytes in a list that starts at an address. -/
def runsFrom (addr : Nat) : List UInt8 → List (Nat × List UInt8)
  | [] => []
  | b :: bs => pushRun addr b (runsFrom (addr + 1) bs)

/-- **What every operation does to the contents** of a memory with a byte limit. -/
def apply (limit : Nat) : Op → Except Error Reply × Contents
  | .reset initial maximum => c.reset limit initial maximum
  | .grow delta => (.ok (.pages (c.grow limit delta).1), (c.grow limit delta).2)
  | .load addr len => (c.access addr len (.bytes ((c.bytes.drop addr).take len)), c)
  | .store addr bs => c.write addr bs
  | .fill addr len b => c.write addr (List.replicate len b)
  | .copy dst src len => c.copy dst src len
  | .poke addr b => (.ok (.byte c.bytes[addr]?), { c with bytes := c.bytes.set addr b })
  | .dump => (.ok (.runs (runsFrom 0 c.bytes)), c)

end Contents

variable (m : Memory)

/-- The contents of a memory. -/
def contents : Contents := ⟨m.data.data.toList, m.maxPages⟩

@[simp]
theorem length_contents : m.contents.bytes.length = m.size := by
  rw [contents, Array.length_toList, ByteArray.size_data]
  rfl

@[simp]
theorem pages_contents : m.contents.pages = m.pages := by
  rw [Contents.pages, length_contents, pages]

theorem getElem?_data (i : Nat) : m.data[i]? = m.contents.bytes[i]? := by
  rw [contents, Array.getElem?_toList]
  rfl

theorem byte_eq (i : Nat) : m.byte i = m.contents.bytes[i]?.getD 0 := by
  rw [byte, getElem?_data]

/-! ### Operations -/

variable {m} {addr len : Nat}

/-- The bytes of a range in front of others. -/
theorem bytesOnto_eq (h : addr + len ≤ m.size) (bs : List UInt8) :
    m.bytesOnto addr len bs = (m.contents.bytes.drop addr).take len ++ bs := by
  induction len generalizing bs with
  | zero => simp [bytesOnto]
  | succ n ih =>
    have hlt : addr + n < m.contents.bytes.length := by
      rw [length_contents]
      omega
    have hbyte : m.byte (addr + n) = m.contents.bytes[addr + n] := by
      rw [byte_eq, List.getElem?_eq_getElem hlt, Option.getD_some]
    rw [bytesOnto, ih (by omega), hbyte, List.take_succ_eq_append_getElem
      (by rw [List.length_drop]; omega), List.getElem_drop, List.append_assoc]
    rfl

theorem runsBelow_eq {n : Nat} (h : n ≤ m.size) :
    m.runsBelow n (Contents.runsFrom n (m.contents.bytes.drop n)) =
    Contents.runsFrom 0 m.contents.bytes := by
  induction n with
  | zero => rw [runsBelow, List.drop_zero]
  | succ n ih =>
    have hlt : n < m.contents.bytes.length := by
      rw [length_contents]
      omega
    have hbyte : m.byte n = m.contents.bytes[n] := by
      rw [byte_eq, List.getElem?_eq_getElem hlt, Option.getD_some]
    rw [← ih (by omega), runsBelow, hbyte, List.drop_eq_getElem_cons hlt, Contents.runsFrom]

theorem runs_eq : m.runs = Contents.runsFrom 0 m.contents.bytes := by
  rw [runs, ← runsBelow_eq (Nat.le_refl m.size), ← length_contents, List.drop_length,
    Contents.runsFrom]

/-- The contents after bytes were written. -/
theorem contents_setBytes {bs : List UInt8} (h : addr + bs.length ≤ m.size) :
    contents { m with data := setBytes m.data addr bs } =
    { m.contents with bytes := overwrite m.contents.bytes addr bs } := by
  rw [contents, toList_setBytes h]
  rfl

theorem store_contents (addr : Nat) (bs : List UInt8) :
    (quietly (m.store addr bs)).1 = (m.contents.write addr bs).1 ∧
      (m.store addr bs).2.contents = (m.contents.write addr bs).2 := by
  by_cases h : addr + bs.length ≤ m.size
  · simp [store, inBounds, endsInside_eq, quietly, Contents.write, Contents.access, h,
      contents_setBytes h, Except.map]
  · simp [store, inBounds, endsInside_eq, quietly, Contents.write, Contents.access, h,
      outOfBounds, Except.map]

theorem fill_eq_store (addr len : Nat) (b : UInt8) :
    m.fill addr len b = m.store addr (List.replicate len b) := by
  simp only [fill, store, List.length_replicate, setAll_eq_setBytes]

/-- The buffer after a copy: the bytes that were in one range are written over
the other. -/
theorem toList_copySlice {src : Nat} (hsrc : src + len ≤ m.size) (dst : Nat) :
    ((m.data.extract src (src + len)).copySlice 0 m.data dst len).data.toList =
      overwrite m.contents.bytes dst ((m.contents.bytes.drop src).take len) := by
  have hsize : m.data.data.size = m.size := rfl
  have hlen : ((m.contents.bytes.drop src).take len).length = len := by
    rw [List.length_take, List.length_drop, length_contents]
    omega
  have htail : (m.data.data.toList.drop (dst + len)).take (m.size - (dst + len)) =
      m.data.data.toList.drop (dst + len) :=
    List.take_of_length_le (by simp [hsize])
  rw [overwrite, hlen, ByteArray.copySlice]
  simp only [ByteArray.data_extract, Array.toList_append, Array.toList_extract, Array.size_extract,
    contents, hsize, List.extract_eq_take_drop, List.drop_zero, Nat.sub_zero, Nat.zero_add]
  rw [Nat.add_sub_cancel_left, Nat.min_eq_left hsrc, Nat.add_sub_cancel_left, Nat.min_self,
    List.take_take, Nat.min_self, htail]

theorem copy_contents (dst src len : Nat) :
    (quietly (m.copy dst src len)).1 = (m.contents.copy dst src len).1 ∧
      (m.copy dst src len).2.contents = (m.contents.copy dst src len).2 := by
  by_cases hsrc : src + len ≤ m.size
  · have hlen : ((m.contents.bytes.drop src).take len).length = len := by
      rw [List.length_take, List.length_drop, length_contents]
      omega
    by_cases hdst : dst + len ≤ m.size
    · have hdata := toList_copySlice hsrc dst
      simp only [copy, inBounds, endsInside_eq, hsrc, hdst, decide_true, not_true_eq_false,
        if_false, quietly, Contents.copy, Contents.write, Contents.access, length_contents, hlen,
        if_true, Except.map, true_and]
      rw [contents, hdata]
      rfl
    · simp [copy, inBounds, endsInside_eq, hsrc, hdst, quietly, Contents.copy, Contents.write,
        Contents.access, hlen, outOfBounds, Except.map]
  · simp [copy, inBounds, endsInside_eq, hsrc, quietly, Contents.copy, Contents.access,
      outOfBounds, Except.map]

theorem reset_contents (initial maximum : Nat) :
    (quietly (m.reset initial maximum)).1 = (m.contents.reset m.byteLimit initial maximum).1 ∧
      (m.reset initial maximum).2.contents = (m.contents.reset m.byteLimit initial maximum).2 := by
  rw [reset, Contents.reset]
  split
  · exact ⟨rfl, rfl⟩
  · split
    · exact ⟨rfl, rfl⟩
    · refine ⟨rfl, ?_⟩
      rw [contents, toList_addPages]
      rfl

/-- Under a maximum that can be counted in 32 bits, the check of the sum does
not matter. -/
theorem grow_eq (hmost : m.maxPages < 0x100000000) (delta : Nat) : m.grow delta =
    if m.pages + delta ≤ m.maxPages ∧ (m.pages + delta) * pageSize ≤ m.byteLimit then
      (some m.pages, { m with data := addPages m.data delta })
    else (none, m) := by
  rw [grow, checkedAdd]
  by_cases h : m.pages + delta ≤ 0xffffffff
  · rw [if_pos h]
  · rw [if_neg h, if_neg fun hfits => h (by omega)]

/-- A maximum that can be counted in 32 bits is all that growth needs to know of
the pages. -/
theorem grow_contents (hmost : m.maxPages < 0x100000000) (delta : Nat) :
    (m.grow delta).1 = (m.contents.grow m.byteLimit delta).1 ∧
      (m.grow delta).2.contents = (m.contents.grow m.byteLimit delta).2 := by
  have hcond :
    (m.contents.pages + delta < 0x100000000 ∧ m.contents.pages + delta ≤ m.contents.most ∧
      (m.contents.pages + delta) * pageSize ≤ m.byteLimit) ↔
      m.pages + delta ≤ m.maxPages ∧ (m.pages + delta) * pageSize ≤ m.byteLimit := by
    rw [pages_contents]
    exact ⟨fun h => h.2, fun h => ⟨Nat.lt_of_le_of_lt h.1 hmost, h⟩⟩
  simp only [grow_eq hmost, Contents.grow, hcond]
  split
  · refine ⟨by rw [pages_contents], ?_⟩
    rw [contents, toList_addPages]
    rfl
  · exact ⟨rfl, rfl⟩

/-- **An operation on a memory is the operation on its contents**: the same
answer, and the contents that it says. -/
theorem apply_contents (hmost : m.maxPages < 0x100000000) (op : Op) :
    (m.apply op).1 = (m.contents.apply m.byteLimit op).1 ∧
      (m.apply op).2.contents = (m.contents.apply m.byteLimit op).2 := by
  cases op with
  | reset initial maximum => exact reset_contents initial maximum
  | grow delta =>
    obtain ⟨hreply, hcontents⟩ := grow_contents hmost delta
    exact ⟨congrArg (fun r => Except.ok (Reply.pages r)) hreply, hcontents⟩
  | load addr len =>
    refine ⟨?_, rfl⟩
    by_cases h : addr + len ≤ m.size
    · simp [apply, load, inBounds, endsInside_eq, bytes, Contents.apply, Contents.access, h,
        bytesOnto_eq h, Except.map]
    · simp [apply, load, inBounds, endsInside_eq, Contents.apply, Contents.access, h,
        outOfBounds, Except.map]
  | store addr bs => exact store_contents addr bs
  | fill addr len b =>
    rw [apply, fill_eq_store, Contents.apply]
    exact store_contents addr _
  | copy dst src len => exact copy_contents dst src len
  | poke addr b =>
    refine ⟨congrArg (fun r => Except.ok (Reply.byte r)) (m.getElem?_data addr), ?_⟩
    exact congrArg (fun bs => (⟨bs, m.maxPages⟩ : Contents)) (toList_setByte m.data addr b)
  | dump => exact ⟨congrArg (fun r => Except.ok (Reply.runs r)) runs_eq, rfl⟩

end WasmEngine.Memory
