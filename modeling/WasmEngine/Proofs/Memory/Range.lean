import WasmEngine.Proofs.Memory.Contents

/-!
# Accesses to ranges of bytes

An access names a range by its first byte and its length. It goes through
exactly if the range ends inside the memory, where the end is the sum of the two
and is never reduced; so a range without any byte may start where the memory
ends, and none may start behind it.

An access that writes changes the bytes of one range and no others
(`WasmEngine.Memory.Writes`). It may have to look at several ranges. All of them
are checked, one after the other, before the first byte is written. For a copy
that means that the bytes written are those that were there before, however the
two ranges overlap.
-/

namespace WasmEngine.Memory

/-! ### Writing in lists -/

theorem getElem?_overwrite {α : Type} {xs ys : List α} {addr : Nat}
    (h : addr + ys.length ≤ xs.length) (i : Nat) :
    (overwrite xs addr ys)[i]? = if addr ≤ i ∧
    i < addr + ys.length then ys[i - addr]? else xs[i]? := by
  have htake : (xs.take addr).length = addr := by
    rw [List.length_take]
    omega
  rw [overwrite, List.append_assoc]
  rcases Nat.lt_or_ge i addr with hi | hi
  · rw [List.getElem?_append_left (by omega), List.getElem?_take_of_lt hi, if_neg (by omega)]
  · rw [List.getElem?_append_right (by omega), htake]
    rcases Nat.lt_or_ge i (addr + ys.length) with hi' | hi'
    · rw [List.getElem?_append_left (by omega), if_pos ⟨hi, hi'⟩]
    · rw [List.getElem?_append_right (by omega), List.getElem?_drop, if_neg (by omega)]
      congr 1
      omega

/-! ### What accesses come to -/

/-- **What an access that reads comes to**, in a range of a memory. -/
structure Reads (m : Memory) (addr len : Nat) (r : Except Error (List UInt8)) : Prop where
  /-- It succeeds exactly if the range ends inside. -/
  ok_iff : (∃ bs, r = .ok bs) ↔ addr + len ≤ m.size
  /-- Otherwise the error tells the range and the size of the memory. -/
  fails : m.size < addr + len → r = .error (.trap (.memoryOutOfBounds addr len m.size))
  /-- There are as many bytes as were asked for. -/
  length : ∀ {bs}, r = .ok bs → bs.length = len
  /-- They are the bytes of the range. -/
  bytes : ∀ {bs}, r = .ok bs → ∀ i < len, bs[i]? = m.data[addr + i]?

/-- **What an access that writes comes to**: the bytes of a range become the
given ones, if all the ranges of that length at certain addresses end inside the
memory. -/
structure Writes (m : Memory) (checked : List Nat) (dst len : Nat) (value : Nat → Option UInt8)
    (r : Except Error Unit × Memory) : Prop where
  /-- It succeeds exactly if the ranges end inside. -/
  ok_iff : r.1 = .ok () ↔ ∀ addr ∈ checked, addr + len ≤ m.size
  /-- Otherwise the error tells the first range that does not, and the size of
  the memory; and nothing changes. -/
  fails : ∀ {addr}, (checked.find? fun addr => decide (m.size < addr + len)) = some addr →
    r = (.error (.trap (.memoryOutOfBounds addr len m.size)), m)
  /-- The bytes in the range are those given. -/
  inside : r.1 = .ok () → ∀ i < len, r.2.data[dst + i]? = value i
  /-- All others are what they were. -/
  outside : ∀ i, i < dst ∨ dst + len ≤ i → r.2.data[i]? = m.data[i]?
  /-- There are as many bytes as before. -/
  size : r.2.size = m.size
  /-- They may grow as far as before. -/
  ceilings : r.2.maxPages = m.maxPages ∧ r.2.byteLimit = m.byteLimit

variable {m : Memory} {checked : List Nat} {addr dst src len : Nat} {value : Nat → Option UInt8}

theorem reads_load (m : Memory) (addr len : Nat) : m.Reads addr len (m.load addr len) := by
  rw [load, inBounds, endsInside_eq]
  by_cases h : addr + len ≤ m.size
  · have hlen : (m.bytes addr len).length = len := by
      rw [bytes, bytesOnto_eq h, List.append_nil, List.length_take,
        List.length_drop, length_contents]
      omega
    rw [if_pos (decide_eq_true h)]
    refine ⟨⟨fun _ => h, fun _ => ⟨_, rfl⟩⟩, fun hout => absurd h (by omega), ?_, ?_⟩
    · rintro _ ⟨⟩
      exact hlen
    · rintro _ ⟨⟩ i hi
      rw [bytes, bytesOnto_eq h, List.append_nil, List.getElem?_take_of_lt hi,
        List.getElem?_drop, getElem?_data]
  · rw [if_neg (by simpa using h)]
    refine ⟨⟨?_, fun hin => absurd hin h⟩, fun _ => rfl, ?_, ?_⟩
    · rintro ⟨_, ⟨⟩⟩
    · rintro _ ⟨⟩
    · rintro _ ⟨⟩

/-- An access that fails at the first of its ranges that does not end inside. -/
theorem Writes.of_outside
    (h : (checked.find? fun addr => decide (m.size < addr + len)) = some addr) :
    m.Writes checked dst len value (.error (m.outOfBounds addr len), m) where
  ok_iff := by
    have hmem := List.mem_of_find?_eq_some h
    have hout := List.find?_some h
    rw [decide_eq_true_iff] at hout
    refine ⟨?_, fun hin => absurd (hin addr hmem) (by omega)⟩
    rintro ⟨⟩
  fails {addr'} h' := by
    obtain rfl : addr = addr' := Option.some.inj (h.symm.trans h')
    rfl
  inside := by rintro ⟨⟩
  outside _ _ := rfl
  size := rfl
  ceilings := ⟨rfl, rfl⟩

/-- An access that writes bytes over the range. -/
theorem Writes.of_overwrite {data : ByteArray} (vs : List UInt8)
    (hchecked : ∀ addr ∈ checked, addr + len ≤ m.size) (hdst : dst + len ≤ m.size)
    (hlen : vs.length = len) (hvs : ∀ i < len, vs[i]? = value i)
    (hdata : data.data.toList = overwrite m.contents.bytes dst vs) :
    m.Writes checked dst len value (.ok (), { m with data := data }) := by
  have hroom : dst + vs.length ≤ m.contents.bytes.length := by rwa [hlen, length_contents]
  have hbyte (i : Nat) : data[i]? = if dst ≤ i ∧
      i < dst + vs.length then vs[i - dst]? else m.data[i]? := by
    rw [getElem?_data, ← getElem?_overwrite hroom, ← hdata, Array.getElem?_toList]
    rfl
  refine ⟨⟨fun _ => hchecked, fun _ => rfl⟩, fun h => ?_, fun _ i hi => ?_,
    fun i hi => ?_, ?_, rfl, rfl⟩
  · have hin := hchecked _ (List.mem_of_find?_eq_some h)
    have hout := List.find?_some h
    rw [decide_eq_true_iff] at hout
    omega
  · rw [hbyte, if_pos (by omega), Nat.add_sub_cancel_left, hvs i hi]
  · rw [hbyte, if_neg (by omega)]
  · show data.size = m.size
    rw [← length_contents, ← length_overwrite hroom, ← hdata, Array.length_toList,
      ByteArray.size_data]

theorem writes_store (m : Memory) (addr : Nat) (bs : List UInt8) :
    m.Writes [addr] addr bs.length (fun i => bs[i]?) (m.store addr bs) := by
  rw [store, inBounds, endsInside_eq]
  by_cases h : addr + bs.length ≤ m.size
  · rw [if_pos (decide_eq_true h)]
    exact .of_overwrite bs (by simpa using h) h rfl (fun _ _ => rfl) (toList_setBytes h)
  · rw [if_neg (by simpa using h)]
    exact .of_outside (List.find?_cons_of_pos (decide_eq_true (Nat.lt_of_not_le h)))

theorem writes_fill (m : Memory) (addr len : Nat) (b : UInt8) :
    m.Writes [addr] addr len (fun _ => some b) (m.fill addr len b) := by
  have h := m.writes_store addr (List.replicate len b)
  rw [← fill_eq_store, List.length_replicate] at h
  refine ⟨h.ok_iff, h.fails, fun hok i hi => ?_, h.outside, h.size, h.ceilings⟩
  rw [h.inside hok i hi, List.getElem?_replicate, if_pos hi]

theorem writes_copy (m : Memory) (dst src len : Nat) :
    m.Writes [src, dst] dst len (fun i => m.data[src + i]?) (m.copy dst src len) := by
  rw [copy, inBounds, inBounds, endsInside_eq, endsInside_eq]
  by_cases hsrc : src + len ≤ m.size
  · rw [if_neg (by simpa using hsrc)]
    by_cases hdst : dst + len ≤ m.size
    · rw [if_neg (by simpa using hdst)]
      refine .of_overwrite ((m.contents.bytes.drop src).take len) (by simp [hsrc, hdst]) hdst
        ?_ (fun i hi => ?_) (toList_copySlice hsrc dst)
      · rw [List.length_take, List.length_drop, length_contents]
        omega
      · rw [List.getElem?_take_of_lt hi, List.getElem?_drop, getElem?_data]
    · rw [if_pos (by simpa using hdst)]
      refine .of_outside ?_
      rw [List.find?_cons_of_neg (by simpa using hsrc)]
      exact List.find?_cons_of_pos (decide_eq_true (Nat.lt_of_not_le hdst))
  · rw [if_pos (by simpa using hsrc)]
    exact .of_outside (List.find?_cons_of_pos (decide_eq_true (Nat.lt_of_not_le hsrc)))

/-- **Accesses are exact, and they write all or nothing.** A range is read,
written or set to one value exactly if it ends inside the memory, and copied
exactly if both its old and its new place do, of which the old one is checked
first. An access that fails tells where, and changes no byte. One that succeeds
changes the bytes of its range, to the bytes given or, for a copy, to those that
were in the other range before. -/
theorem accesses_exact (m : Memory) (addr dst src len : Nat) (bs : List UInt8) (b : UInt8) :
    m.Reads addr len (m.load addr len) ∧
      m.Writes [addr] addr bs.length (fun i => bs[i]?) (m.store addr bs) ∧
      m.Writes [addr] addr len (fun _ => some b) (m.fill addr len b) ∧
      m.Writes [src, dst] dst len (fun i => m.data[src + i]?) (m.copy dst src len) :=
  ⟨m.reads_load addr len, m.writes_store addr bs, m.writes_fill addr len b,
    m.writes_copy dst src len⟩

end WasmEngine.Memory
