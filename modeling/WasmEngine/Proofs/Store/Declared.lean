import WasmEngine.Proofs.Memory.Range
import WasmEngine.Proofs.Store.Supply

/-!
# The state that a module declares

A module says what its state starts with: so many pages of memory, a value for
each global, tables of certain sizes, and segments that are put into the tables
and the memory one after the other. Segments may overlap, so what is in a place
in the end is what the last of them has there (`WasmEngine.Span.last?`).

All of this can be read off the module. The values of the globals come first
(`WasmEngine.Module.values`), since the offsets of segments may refer to them.
They also say what fails (`WasmEngine.Module.failures`): a constant without a
value, a segment that does not fit. Building the state comes to the same,
although it goes on from one state to the next and stops at the first failure
(`WasmEngine.Store.instantiate_declared`): the checks of a segment do not depend
on the segments before it.
-/

namespace WasmEngine

variable {α : Type}

/-! ### Spans -/

/-- Items that are put in place from a position on. -/
structure Span (α : Type) where
  /-- The position of the first. -/
  start : Nat
  /-- The items. -/
  items : List α

namespace Span

/-- The item for a position, if the span covers it. -/
def at? (s : Span α) (i : Nat) : Option α := if s.start ≤ i then s.items[i - s.start]? else none

/-- **The item of the last span that covers a position.** -/
def last? (spans : List (Span α)) (i : Nat) : Option α := spans.reverse.findSome? fun s => s.at? i

theorem at?_of_covers {s : Span α} {i : Nat} (h : s.start ≤ i) (h' : i < s.start + s.items.length) :
    ∃ x, s.at? i = some x ∧ s.items[i - s.start]? = some x := by
  have hx : s.items[i - s.start]? = some (s.items.get ⟨i - s.start, by omega⟩) :=
    List.getElem?_eq_getElem (by omega)
  exact ⟨_, by rw [at?, if_pos h, hx], hx⟩

theorem at?_eq_none {s : Span α} {i : Nat} (h : i < s.start ∨ s.start + s.items.length ≤ i) :
    s.at? i = none := by
  rw [at?]
  split
  · exact List.getElem?_eq_none (by omega)
  · rfl

theorem last?_concat (spans : List (Span α)) (s : Span α) (i : Nat) : last? (spans ++ [s]) i =
    (s.at? i).or (last? spans i) := by
  rw [last?, List.reverse_append, List.reverse_singleton, List.singleton_append,
    List.findSome?_cons]
  cases s.at? i <;> rfl

/-- What is in place after the items of a further span were written, and nothing
else was. -/
theorem getD_last?_concat {spans : List (Span α)} {s : Span α} {i : Nat} {d : α}
    {before after : Option α} (hbefore : before = some ((last? spans i).getD d))
    (hinside : s.start ≤ i → i < s.start + s.items.length → after = s.items[i - s.start]?)
    (houtside : i < s.start ∨ s.start + s.items.length ≤ i → after = before) :
    after = some ((last? (spans ++ [s]) i).getD d) := by
  rw [last?_concat]
  by_cases hcovers : s.start ≤ i ∧ i < s.start + s.items.length
  · obtain ⟨x, hat, hitem⟩ := at?_of_covers hcovers.1 hcovers.2
    rw [hinside hcovers.1 hcovers.2, hitem, hat]
    rfl
  · have hout : i < s.start ∨ s.start + s.items.length ≤ i := by omega
    rw [houtside hout, hbefore, at?_eq_none hout]
    rfl

example : (List.range 5).map (last? [⟨0, ['a', 'b', 'c']⟩, ⟨1, ['x']⟩, ⟨3, []⟩]) =
    [some 'a', some 'x', some 'c', none, none] := by decide

end Span

/-! ### What a module declares -/

/-- The value of a constant, given the values of globals. -/
def Const.given (values : List Raw) : Const → Except Error Raw
  | .value v => .ok v.toRaw
  | .globalGet i => (values[i]?).elim (.error (.fault (.globalNotFound i))) .ok
  | .refNull => .error (.unsupported (.referenceConst .refNull))
  | .refFunc f => .error (.unsupported (.referenceConst (.refFunc f)))

namespace Module

/-- The values of globals behind those given, as long as there are any. -/
def valuesBehind (values : List Raw) : List Global → List Raw
  | [] => values
  | g :: gs =>
    match g.init.given values with
    | .ok r => valuesBehind (values ++ [r]) gs
    | .error _ => values

/-- **The values that globals start with**, up to the first that has none. -/
def values (m : Module) : List Raw := valuesBehind [] m.globals

/-- The number of pages that the memory starts with, and the number that it may
grow to. -/
def pages (m : Module) (o : Options) : Nat × Nat :=
  match m.memories.head? with
  | some t => (t.initial, min (t.max.getD 0xffffffff) o.maxPages)
  | none => (0, 0)

end Module

/-- Where a segment of entries goes in a table. -/
def Element.span? (values : List Raw) (table : Nat) (e : Element) : Option (Span (Option Nat)) :=
  match e.kind with
  | .active t offset =>
    if t = table then (offset.given values).toOption.map fun r => ⟨r.low.toNat, e.items⟩ else none
  | _ => none

/-- Where a segment of bytes goes. -/
def Data.span? (values : List Raw) (d : Data) : Option (Span UInt8) :=
  match d.kind with
  | .active _ offset => (offset.given values).toOption.map fun r => ⟨r.low.toNat, d.bytes⟩
  | .passive => none

/-- **The tables of a module after segments were put in place.** -/
structure Module.TablesAfter (m : Module) (values : List Raw) (elements : List Element)
    (tables : Array (Array (Option Nat))) : Prop where
  /-- There are all tables. -/
  size : tables.size = m.tables.length
  /-- Each has its size, and in each place the entry of the last segment that
  covers it, or else null. -/
  entries : ∀ {k t}, m.tables[k]? = some t → ∃ entries, tables[k]? = some entries ∧
    entries.size = t.initial ∧
    ∀ i < t.initial, entries[i]? =
    some ((Span.last? (elements.filterMap (Element.span? values k)) i).getD none)

/-- **The memory of a module after segments were put in place.** -/
structure Module.MemoryAfter (m : Module) (o : Options) (values : List Raw) (data : List Data)
    (mem : Memory) : Prop where
  /-- It has the bytes of as many pages as it starts with. -/
  size : mem.size = (m.pages o).1 * Memory.pageSize
  /-- It may grow as far as both the module and the options allow. -/
  maxPages : mem.maxPages = (m.pages o).2
  /-- In each place it has the byte of the last segment that covers it, or else
  zero. -/
  bytes :
    ∀ i < mem.size, mem.data[i]? = some ((Span.last? (data.filterMap (Data.span? values)) i).getD 0)

/-- **A state is the one that a module declares.** -/
structure Store.Declared (m : Module) (o : Options) (s : Store) : Prop where
  /-- There are all globals. -/
  globals : s.globals.size = m.globals.length
  /-- Each has the value of its initializer, given those before it. -/
  value : ∀ {i : Nat} {g : Global}, m.globals[i]? = some g →
    ∃ r, s.globals[i]? = some r ∧ g.init.given (s.globals.toList.take i) = .ok r
  /-- The segments of entries are in the tables. -/
  tables : m.TablesAfter s.globals.toList m.elements s.tables
  /-- The segments of bytes are in the memory. -/
  memory : ∃ mem, s.memory = some mem ∧ m.MemoryAfter o s.globals.toList m.data mem

/-! ### What fails -/

/-- Why the memory of a module cannot be made, under a byte limit. -/
def Module.memoryFailure? (m : Module) (o : Options) : (limit : Option Nat) → Option Error
  | none => some .allocatorNotSet
  | some limit =>
    if (m.pages o).2 < (m.pages o).1 then some (.fault (.initialPages (m.pages o).1 (m.pages o).2))
    else if limit < (m.pages o).1 * Memory.pageSize then
      some (.fault (.cannotAllocate (m.pages o).1))
    else none

/-- Why a global has no value, given the values of those before it. -/
def Global.failure? (values : List Raw) (g : Global) : Option Error :=
  match g.init.given values with
  | .ok _ => none
  | .error e => some e

/-- Why a segment of entries cannot be put in place. -/
def Element.failure? (m : Module) (values : List Raw) (e : Element) : Option Error :=
  match e.kind with
  | .active table offset =>
    match offset.given values with
    | .error err => some err
    | .ok r =>
      match m.tables[table]? with
      | none => some (.fault (.elementTableNotFound table))
      | some t =>
        if r.low.toNat + e.items.length ≤ t.initial then none
        else some (.trap (.tableOutOfBounds r.low.toNat e.items.length t.initial))
  | _ => none

/-- Why a segment of bytes cannot be put in place, in a memory of a size. -/
def Data.failure? (size : Nat) (values : List Raw) (d : Data) : Option Error :=
  match d.kind with
  | .active memory offset =>
    if memory ≠ 0 then some (.unsupported (.dataMemory memory))
    else
      match offset.given values with
      | .error e => some e
      | .ok r =>
        if r.low.toNat + d.bytes.length ≤ size then none
        else some (.trap (.memoryOutOfBounds r.low.toNat d.bytes.length size))
  | .passive => none

namespace Module

/-- Why globals from a number on have no values. -/
def globalFailures (values : List Raw) (n : Nat) (gs : List Global) : List Error :=
  (gs.zipIdx n).filterMap fun p => p.1.failure? (values.take p.2)

/-- **All that fails when the state of a module is built**, in order: the
memory, globals, segments of entries, segments of bytes. -/
def failures (m : Module) (o : Options) (limit : Option Nat) : List Error :=
  (m.memoryFailure? o limit).toList ++ globalFailures m.values 0 m.globals ++ m.elements.filterMap
    (Element.failure? m m.values) ++
    m.data.filterMap (Data.failure? ((m.pages o).1 * Memory.pageSize) m.values)

/-- **Nothing fails when the state of a module is built.** -/
structure Buildable (m : Module) (o : Options) (limit : Option Nat) : Prop where
  /-- There is a memory that may have as many pages as are asked for. -/
  memory : ∃ bytes, limit = some bytes ∧ (m.pages o).1 ≤ (m.pages o).2 ∧
    (m.pages o).1 * Memory.pageSize ≤ bytes
  /-- Every global has a value, given those before it. -/
  globals : ∀ {i : Nat} {g : Global}, m.globals[i]? = some g →
    ∃ r, g.init.given (m.values.take i) = .ok r
  /-- Every active segment of entries has an offset and a table in which it fits. -/
  elements : ∀ e ∈ m.elements, ∀ {table offset}, e.kind = .active table offset →
    ∃ r t, offset.given m.values = .ok r ∧
    m.tables[table]? = some t ∧ r.low.toNat + e.items.length ≤ t.initial
  /-- Every active segment of bytes has an offset and is for the memory, in
  which it fits. -/
  data : ∀ d ∈ m.data, ∀ {memory offset}, d.kind = .active memory offset → memory = 0 ∧
    ∃ r, offset.given m.values = .ok r ∧
    r.low.toNat + d.bytes.length ≤ (m.pages o).1 * Memory.pageSize

end Module

/-- The first of several failures, if there is any. -/
def Error.first : List Error → Except Error Unit
  | [] => .ok ()
  | e :: _ => .error e

theorem Error.first_append (es es' : List Error) :
    first (es ++ es') = match first es with
      | .ok () => first es'
      | .error e => .error e := by
  cases es <;> rfl

theorem Error.first_eq_ok {es : List Error} : first es = .ok () ↔ es = [] := by
  cases es with
  | nil => exact ⟨fun _ => rfl, fun _ => rfl⟩
  | cons e es =>
    constructor
    · rintro ⟨⟩
    · rintro ⟨⟩

/-! ### Building the state -/

namespace Store

variable {s : Store} {m : Module} {o : Options} {values : List Raw}

theorem constant_eq_given (s : Store) (c : Const) : s.constant c = c.given s.globals.toList := by
  cases c with
  | globalGet i =>
    rw [constant, Const.given, global, Array.getElem?_toList]
    cases s.globals[i]? <;> rfl
  | value | refNull | refFunc => rfl

theorem resetMemory_eq (s : Store) (m : Module) (o : Options) :
    s.resetMemory m o = s.onMemory fun mem => mem.reset (m.pages o).1 (m.pages o).2 := by
  rw [resetMemory, Module.pages]
  cases m.memories.head? <;> rfl

/-- A memory of zeros has all that is put in place by no segments. -/
theorem memoryAfter_nil {mem : Memory}
    (hbytes : mem.contents.bytes = List.replicate ((m.pages o).1 * Memory.pageSize) 0)
    (hmax : mem.maxPages = (m.pages o).2) : m.MemoryAfter o values [] mem := by
  have hsize : mem.size =
    (m.pages o).1 * Memory.pageSize := by rw [← Memory.length_contents, hbytes,
      List.length_replicate]
  refine ⟨hsize, hmax, fun i hi => ?_⟩
  rw [mem.getElem?_data, hbytes, List.getElem?_replicate, if_pos (hsize ▸ hi)]
  rfl

theorem resetMemory_declared (s : Store) (m : Module) (o : Options) (values : List Raw) :
    (s.resetMemory m o).1 = Error.first (m.memoryFailure? o s.limit).toList ∧
      ((s.resetMemory m o).1 = .ok () →
        ∃ mem, (s.resetMemory m o).2 = { s with memory := some mem } ∧
          m.MemoryAfter o values [] mem) := by
  rw [resetMemory_eq]
  obtain ⟨gs, ts, _ | mem⟩ := s
  · refine ⟨rfl, ?_⟩
    rintro ⟨⟩
  · simp only [onMemory, limit, Option.map_some, Module.memoryFailure?, Memory.reset]
    split
    · refine ⟨rfl, ?_⟩
      rintro ⟨⟩
    · split
      · refine ⟨rfl, ?_⟩
        rintro ⟨⟩
      · refine ⟨rfl, fun _ => ⟨_, rfl, memoryAfter_nil ?_ rfl⟩⟩
        rw [Memory.contents, Memory.toList_addPages]
        exact List.nil_append _

/-! ### Globals -/

/-- Values that are there stay. -/
theorem take_valuesBehind (values : List Raw) (gs : List Global) :
    (Module.valuesBehind values gs).take values.length = values := by
  induction gs generalizing values with
  | nil => exact List.take_length
  | cons g gs ih =>
    rw [Module.valuesBehind]
    split
    · next r _ =>
      have hmore := congrArg (List.take values.length) (ih (values ++ [r]))
      rw [List.take_take, List.length_append, Nat.min_eq_left (Nat.le_add_right _ _)] at hmore
      rwa [List.take_left] at hmore
    · exact List.take_length

theorem addGlobals_declared (s : Store) (gs : List Global) :
    (s.addGlobals gs).1 =
        Error.first (Module.globalFailures (Module.valuesBehind s.globals.toList gs)
          s.globals.size gs) ∧
      ((s.addGlobals gs).1 = .ok () →
        (s.addGlobals gs).2 =
        { s with globals := (Module.valuesBehind s.globals.toList gs).toArray }) := by
  induction gs generalizing s with
  | nil => exact ⟨rfl, fun _ => rfl⟩
  | cons g gs ih =>
    -- The initializer is looked at with all values of the module, of which only those
    -- before it count.
    have hbefore : (Module.valuesBehind s.globals.toList (g :: gs)).take s.globals.size =
        s.globals.toList :=
      take_valuesBehind s.globals.toList (g :: gs)
    rw [addGlobals, constant_eq_given, Module.globalFailures, List.zipIdx_cons, List.filterMap_cons]
    dsimp only
    rw [hbefore, Global.failure?, Module.valuesBehind]
    cases g.init.given s.globals.toList with
    | error e =>
      refine ⟨rfl, ?_⟩
      rintro ⟨⟩
    | ok r =>
      have hrest := ih { s with globals := s.globals.push r }
      simp only [Array.toList_push, Array.size_push] at hrest
      exact hrest

/-- Where no global fails, each has the value of its initializer, given those
before it. -/
theorem valuesBehind_spec (values : List Raw) {gs : List Global}
    (h : Module.globalFailures (Module.valuesBehind values gs) values.length gs = []) :
    (Module.valuesBehind values gs).length = values.length + gs.length ∧
      ∀ {i : Nat} {g : Global}, gs[i]? = some g → ∃ r,
      (Module.valuesBehind values gs)[values.length + i]? = some r ∧
        g.init.given ((Module.valuesBehind values gs).take (values.length + i)) = .ok r := by
  induction gs generalizing values with
  | nil =>
    refine ⟨rfl, fun hi => ?_⟩
    cases hi
  | cons g gs ih =>
    have hbefore := take_valuesBehind values (g :: gs)
    rw [Module.globalFailures, List.zipIdx_cons, List.filterMap_cons] at h
    dsimp only at h
    rw [hbefore, Global.failure?] at h
    rcases hg : g.init.given values with e | r
    · rw [hg] at h
      cases h
    · have hvalues : Module.valuesBehind values (g :: gs) = Module.valuesBehind (values ++ [r])
        gs := by rw [Module.valuesBehind, hg]
      have hlen : (values ++ [r]).length = values.length + 1 := List.length_append
      rw [hg, hvalues] at h
      obtain ⟨hsize, hrest⟩ := ih (values ++ [r]) (by rw [hlen]; exact h)
      rw [hlen] at hsize hrest
      rw [hvalues] at hbefore ⊢
      refine ⟨by rw [hsize, List.length_cons]; omega, fun {i g'} hi => ?_⟩
      cases i with
      | zero =>
        obtain rfl : g = g' := Option.some.inj hi
        -- Its value is the first one behind those given, and stays there.
        refine ⟨r, ?_, by rwa [Nat.add_zero, hbefore]⟩
        have hlast := congrArg (fun l => l[values.length]?) (take_valuesBehind (values ++ [r]) gs)
        rwa [List.getElem?_take_of_lt (by rw [hlen]; omega), List.getElem?_concat_length] at hlast
      | succ i =>
        rw [← Nat.add_assoc, Nat.add_right_comm]
        exact hrest hi

/-! ### Segments -/

/-- **One thing after the other, up to the first that fails.** If each step
fails as `failure?` says, and otherwise leads on from what holds of the things
that were done to what holds with one more, then the whole fails as the first of
the failures, if there is any, and leads to what holds of all. -/
theorem each_induction {f : Store → α → Except Error Unit × Store} {failure? : α → Option Error}
    {P : List α → Store → Prop}
    (hstep : ∀ {done s} a, P done s → (f s a).1 = Error.first (failure? a).toList ∧
      ((f s a).1 = .ok () → P (done ++ [a]) (f s a).2))
    (as : List α) {done : List α} (h : P done s) :
    (s.each f as).1 = Error.first (as.filterMap failure?) ∧
      ((s.each f as).1 = .ok () → P (done ++ as) (s.each f as).2) := by
  induction as generalizing s done with
  | nil => exact ⟨rfl, fun _ => by rwa [List.append_nil]⟩
  | cons a as ih =>
    obtain ⟨hresult, hleads⟩ := hstep a h
    rw [each, List.filterMap_cons]
    rcases hfa : f s a with ⟨e | _, s'⟩
    · rw [hfa] at hresult
      cases hfail : failure? a with
      | none =>
        rw [hfail] at hresult
        cases hresult
      | some e' =>
        rw [hfail] at hresult
        refine ⟨hresult, ?_⟩
        rintro ⟨⟩
    · rw [hfa] at hresult hleads
      cases hfail : failure? a with
      | none =>
        obtain ⟨hrest, hP⟩ := ih (hleads rfl)
        rw [List.append_assoc] at hP
        exact ⟨hrest, hP⟩
      | some e =>
        rw [hfail] at hresult
        cases hresult

theorem getElem?_writeEntries {table : Array (Option Nat)} {offset : Nat}
    {items : List (Option Nat)} (h : offset + items.length ≤ table.size) (i : Nat) :
    (writeEntries table offset items)[i]? =
      if offset ≤ i ∧ i < offset + items.length then items[i - offset]? else table[i]? := by
  induction items generalizing table offset with
  | nil => rw [writeEntries, if_neg (by simp)]
  | cons x xs ih =>
    rw [List.length_cons] at h ⊢
    rw [writeEntries, ih (by rw [Array.size_setIfInBounds]; omega)]
    -- The first entry goes to the offset, and the others behind it do not touch it again.
    rcases Nat.lt_trichotomy i offset with hi | rfl | hi
    · rw [if_neg (by omega), if_neg (by omega), Array.getElem?_setIfInBounds_ne (by omega)]
    · rw [if_neg (by omega), if_pos (by omega), Array.getElem?_setIfInBounds_self_of_lt (by omega),
        Nat.sub_self, List.getElem?_cons_zero]
    · rw [Array.getElem?_setIfInBounds_ne (by omega)]
      by_cases hin : i < offset + (xs.length + 1)
      · rw [if_pos (by omega), if_pos (by omega), show i - offset = i - (offset + 1) + 1 by omega,
          List.getElem?_cons_succ]
      · rw [if_neg (by omega), if_neg (by omega)]

/-- The tables of a module before any segment. -/
theorem tablesAfter_nil (m : Module) (values : List Raw) :
    m.TablesAfter values [] (emptyTables m) := by
  refine ⟨by simp [emptyTables], fun {k t} ht => ⟨Array.replicate t.initial none, ?_,
    Array.size_replicate, fun i hi => ?_⟩⟩
  · simp [emptyTables, ht]
  · rw [Array.getElem?_replicate, if_pos hi]
    rfl

theorem filterMap_concat_none {β : Type} {f : α → Option β} {as : List α} {a : α} (h : f a = none) :
    (as ++ [a]).filterMap f = as.filterMap f := by
  rw [List.filterMap_append, List.filterMap_cons_none h, List.filterMap_nil, List.append_nil]

theorem filterMap_concat_some {β : Type} {f : α → Option β} {as : List α} {a : α} {b : β}
    (h : f a = some b) : (as ++ [a]).filterMap f = as.filterMap f ++ [b] := by
  rw [List.filterMap_append, List.filterMap_cons_some h, List.filterMap_nil]

/-- A segment is written to one of the tables. -/
theorem tablesAfter_concat {elements : List Element} {e : Element}
    {tables : Array (Array (Option Nat))} {table : Nat} {offset : Const} {r : Raw}
    {entries : Array (Option Nat)} (h : m.TablesAfter values elements tables)
    (he : e.kind = .active table offset) (hoffset : offset.given values = .ok r)
    (htable : tables[table]? = some entries) (hfits : r.low.toNat + e.items.length ≤ entries.size) :
    m.TablesAfter values (elements ++ [e])
      (tables.setIfInBounds table (writeEntries entries r.low.toNat e.items)) := by
  have hspan (k : Nat) :
      e.span? values k = if table = k then some ⟨r.low.toNat, e.items⟩ else none := by
    simp only [Element.span?, he, hoffset]
    rfl
  refine ⟨by rw [Array.size_setIfInBounds, h.size], fun {k t} ht => ?_⟩
  obtain ⟨es, hes, hsize, hentries⟩ := h.entries ht
  by_cases hk : table = k
  · subst hk
    obtain rfl : entries = es := Option.some.inj (htable.symm.trans hes)
    refine ⟨_, Array.getElem?_setIfInBounds_self_of_lt (Array.getElem?_eq_some_iff.1 htable).1,
      ?_, fun i hi => ?_⟩
    · rw [size_writeEntries, hsize]
    · rw [filterMap_concat_some (by rw [hspan, if_pos rfl])]
      refine Span.getD_last?_concat (hentries i hi) (fun hstart hstop => ?_) fun hout => ?_
      · rw [getElem?_writeEntries hfits, if_pos ⟨hstart, hstop⟩]
      · rw [getElem?_writeEntries hfits, if_neg (by dsimp only at hout; omega)]
  · rw [filterMap_concat_none (by rw [hspan, if_neg hk]), Array.getElem?_setIfInBounds_ne hk]
    exact ⟨es, hes, hsize, hentries⟩

/-- A state that segments of entries are written to: all but the tables is given. -/
structure Tabling (m : Module) (gs : Array Raw) (mem : Option Memory) (elements : List Element)
    (s : Store) : Prop where
  /-- The globals. -/
  globals : s.globals = gs
  /-- The memory. -/
  memory : s.memory = mem
  /-- The tables have the segments so far. -/
  tables : m.TablesAfter gs.toList elements s.tables

theorem addElement_declared {gs : Array Raw} {mem : Option Memory}
    {elements : List Element} (e : Element) (h : s.Tabling m gs mem elements) : (s.addElement e).1 =
    Error.first (e.failure? m gs.toList).toList ∧
      ((s.addElement e).1 = .ok () → (s.addElement e).2.Tabling m gs mem (elements ++ [e])) := by
  obtain ⟨rfl, rfl, htables⟩ := h
  rw [addElement, Element.failure?]
  have hnowhere (hspan : ∀ k, e.span? s.globals.toList k = none) :
      s.Tabling m s.globals s.memory (elements ++ [e]) := by
    refine ⟨rfl, rfl, htables.size, fun {k t} ht => ?_⟩
    rw [filterMap_concat_none (hspan k)]
    exact htables.entries ht
  cases he : e.kind with
  | passive | declared => exact ⟨rfl, fun _ => hnowhere fun k => by rw [Element.span?, he]⟩
  | active table offset =>
    dsimp only
    rw [Store.offset, constant_eq_given]
    rcases hoffset : offset.given s.globals.toList with err | r
    · refine ⟨rfl, ?_⟩
      rintro ⟨⟩
    · cases ht : m.tables[table]? with
      | none =>
        -- There are as many tables as the module declares, so a table that it does not
        -- declare is not there.
        have htable : s.tables[table]? = none := by
          rw [Array.getElem?_eq_none_iff, htables.size]
          exact List.getElem?_eq_none_iff.1 ht
        rw [htable]
        refine ⟨rfl, ?_⟩
        rintro ⟨⟩
      | some t =>
        obtain ⟨entries, htable, hsize, -⟩ := htables.entries ht
        rw [htable]
        simp only [Except.map, hsize, endsInside_eq, decide_eq_true_eq]
        by_cases hfits : r.low.toNat + e.items.length ≤ t.initial
        · rw [if_pos hfits, if_pos hfits]
          exact ⟨rfl,
            fun _ => ⟨rfl, rfl, tablesAfter_concat htables he hoffset htable (hsize ▸ hfits)⟩⟩
        · rw [if_neg hfits, if_neg hfits]
          refine ⟨rfl, ?_⟩
          rintro ⟨⟩

/-- A segment is written to the memory. -/
theorem memoryAfter_concat {data : List Data} {d : Data} {mem : Memory} {memory : Nat}
    {offset : Const} {r : Raw} (h : m.MemoryAfter o values data mem)
    (hd : d.kind = .active memory offset) (hoffset : offset.given values = .ok r)
    (hstore : (mem.store r.low.toNat d.bytes).1 = .ok ()) :
    m.MemoryAfter o values (data ++ [d]) (mem.store r.low.toNat d.bytes).2 := by
  have hwrites := mem.writes_store r.low.toNat d.bytes
  have hspan : d.span? values = some ⟨r.low.toNat, d.bytes⟩ := by
    simp only [Data.span?, hd, hoffset]
    rfl
  refine ⟨hwrites.size.trans h.size, hwrites.ceilings.1.trans h.maxPages, fun i hi => ?_⟩
  rw [filterMap_concat_some hspan]
  refine Span.getD_last?_concat (h.bytes i (hwrites.size ▸ hi)) (fun hstart hstop => ?_) fun hout =>
    hwrites.outside i hout
  have hbyte := hwrites.inside hstore (i - r.low.toNat) (by dsimp only at hstart hstop; omega)
  rwa [Nat.add_sub_cancel' hstart] at hbyte

/-- A state that segments of bytes are written to: all but the memory is given. -/
structure Filling (m : Module) (o : Options) (gs : Array Raw) (ts : Array (Array (Option Nat)))
    (data : List Data) (s : Store) : Prop where
  /-- The globals. -/
  globals : s.globals = gs
  /-- The tables. -/
  tables : s.tables = ts
  /-- The memory has the segments so far. -/
  memory : ∃ mem, s.memory = some mem ∧ m.MemoryAfter o gs.toList data mem

theorem addData_declared {gs : Array Raw} {ts : Array (Array (Option Nat))}
    {data : List Data} (d : Data) (h : s.Filling m o gs ts data) :
    (s.addData d).1 = Error.first (d.failure? ((m.pages o).1 * Memory.pageSize) gs.toList).toList ∧
      ((s.addData d).1 = .ok () → (s.addData d).2.Filling m o gs ts (data ++ [d])) := by
  obtain ⟨gs, ts, ms⟩ := s
  obtain ⟨rfl, rfl, mem, rfl, hafter⟩ := h
  rw [addData, Data.failure?]
  cases hd : d.kind with
  | passive =>
    refine ⟨rfl, fun _ => ⟨rfl, rfl, mem, rfl, hafter.size, hafter.maxPages, ?_⟩⟩
    rw [filterMap_concat_none (by rw [Data.span?, hd])]
    exact hafter.bytes
  | active memory offset =>
    dsimp only
    by_cases hother : memory ≠ 0
    · rw [if_pos hother, if_pos hother]
      refine ⟨rfl, ?_⟩
      rintro ⟨⟩
    · rw [if_neg hother, if_neg hother, Store.offset, constant_eq_given]
      rcases hoffset : offset.given gs.toList with e | r
      · refine ⟨rfl, ?_⟩
        rintro ⟨⟩
      · have hwrites := mem.writes_store r.low.toNat d.bytes
        simp only [Except.map, onMemory, ← hafter.size]
        refine ⟨?_, fun hstore => ⟨rfl, rfl, _, rfl, memoryAfter_concat hafter hd hoffset hstore⟩⟩
        by_cases hfits : r.low.toNat + d.bytes.length ≤ mem.size
        · rw [if_pos hfits]
          exact hwrites.ok_iff.2 (by simpa using hfits)
        · rw [if_neg hfits,
            hwrites.fails (List.find?_cons_of_pos (decide_eq_true (Nat.lt_of_not_le hfits)))]
          rfl

/-! ### The whole -/

/-- A state with the values of all globals, and with all segments in place. -/
theorem declared_of_values (hvalues : Module.globalFailures m.values 0 m.globals = [])
    (hglobals : s.globals = m.values.toArray) (htables : m.TablesAfter m.values m.elements s.tables)
    (hmemory : ∃ mem, s.memory = some mem ∧ m.MemoryAfter o m.values m.data mem) :
    s.Declared m o := by
  obtain ⟨hlength, hvalue⟩ := valuesBehind_spec [] hvalues
  have hlist : s.globals.toList = m.values := by rw [hglobals]
  refine ⟨?_, fun {i g} hg => ?_, hlist ▸ htables, hlist ▸ hmemory⟩
  · rw [hglobals]
    exact hlength.trans (Nat.zero_add _)
  · obtain ⟨r, hr, hgiven⟩ := hvalue hg
    rw [List.length_nil, Nat.zero_add] at hr hgiven
    rw [hlist, hglobals, List.getElem?_toArray]
    exact ⟨r, hr, hgiven⟩

/-- Both kinds of segments, once globals, empty tables and a memory of zeros are
there. -/
theorem segments_declared {mem : Memory} (hvalues : Module.globalFailures m.values 0 m.globals = [])
    (hmem : m.MemoryAfter o m.values [] mem) {r : Except Error Unit × Store}
    (hr : r = match each addElement ⟨m.values.toArray, emptyTables m, some mem⟩ m.elements with
      | (.ok (), s) => s.each addData m.data
      | r => r) :
    r.1 = Error.first (m.elements.filterMap (Element.failure? m m.values) ++
        m.data.filterMap (Data.failure? ((m.pages o).1 * Memory.pageSize) m.values)) ∧
      (r.1 = .ok () → r.2.Declared m o) := by
  have hstart :
      Tabling m m.values.toArray (some mem) [] ⟨m.values.toArray, emptyTables m, some mem⟩ :=
    ⟨rfl, rfl, tablesAfter_nil m m.values⟩
  obtain ⟨helements, htables⟩ := each_induction addElement_declared m.elements hstart
  rw [Error.first_append]
  generalize each addElement ⟨m.values.toArray, emptyTables m, some mem⟩ m.elements =
    x at hr helements htables
  obtain ⟨e | _, s⟩ := x
  · subst hr
    rw [← helements]
    refine ⟨rfl, ?_⟩
    rintro ⟨⟩
  · obtain ⟨hglobals, hmemory, htables⟩ := htables rfl
    -- Segments of entries have left the memory alone, so it still has nothing but zeros.
    have hfilling : s.Filling m o m.values.toArray s.tables [] :=
      ⟨hglobals, rfl, mem, hmemory, hmem⟩
    obtain ⟨hdata, hfilled⟩ := each_induction addData_declared m.data hfilling
    dsimp only at hr
    rw [← helements, hr]
    refine ⟨hdata, fun hok => ?_⟩
    obtain ⟨hglobals', htables', hmemory'⟩ := hfilled hok
    exact declared_of_values hvalues hglobals' (htables' ▸ htables) hmemory'

/-- The state is built in stages, each of which has its own failures. -/
theorem instantiate_stages (s : Store) (m : Module) (o : Options) :
    (s.instantiate m o).1 = Error.first (m.failures o s.limit) ∧
      ((s.instantiate m o).1 = .ok () → (s.instantiate m o).2.Declared m o) := by
  rw [instantiate, Module.failures, List.append_assoc, Error.first_append, Error.first_append]
  obtain ⟨hreset, hmemory⟩ := s.resetMemory_declared m o m.values
  rcases hs₁ : s.resetMemory m o with ⟨e | _, s₁⟩
  · rw [hs₁] at hreset
    rw [← hreset]
    refine ⟨rfl, ?_⟩
    rintro ⟨⟩
  rw [hs₁] at hreset hmemory
  rw [← hreset]
  obtain ⟨mem, rfl, hmem⟩ := hmemory rfl
  obtain ⟨hglobals, hvalues⟩ :=
    addGlobals_declared ({ s with memory := some mem, globals := #[] }) m.globals
  dsimp only at hglobals hvalues ⊢
  rcases hs₂ : addGlobals { s with memory := some mem, globals := #[] } m.globals with ⟨e | _, s₂⟩
  · rw [hs₂] at hglobals
    rw [show Error.first (Module.globalFailures m.values 0 m.globals) = .error e from hglobals.symm]
    refine ⟨rfl, ?_⟩
    rintro ⟨⟩
  rw [hs₂] at hglobals hvalues
  have hnone : Module.globalFailures m.values 0 m.globals = [] := Error.first_eq_ok.1 hglobals.symm
  rw [hnone]
  obtain rfl := hvalues rfl
  exact segments_declared hnone hmem rfl

end Store

/-! ### What does not fail -/

theorem Global.failure?_eq_none {values : List Raw} {g : Global} : g.failure? values = none ↔
    ∃ r, g.init.given values = .ok r := by
  rw [failure?]
  cases g.init.given values <;> simp

theorem Element.failure?_eq_none {m : Module} {values : List Raw} {e : Element} :
    e.failure? m values = none ↔ ∀ {table offset}, e.kind = .active table offset →
    ∃ r t, offset.given values = .ok r ∧
      m.tables[table]? = some t ∧ r.low.toNat + e.items.length ≤ t.initial := by
  rw [failure?]
  cases e.kind with
  | passive | declared => simp
  | active table offset =>
    cases hoffset : offset.given values <;> cases htable :
      m.tables[table]? <;> simp [hoffset, htable]

theorem Data.failure?_eq_none {size : Nat} {values : List Raw} {d : Data} :
    d.failure? size values = none ↔ ∀ {memory offset}, d.kind = .active memory offset → memory = 0 ∧
      ∃ r, offset.given values = .ok r ∧ r.low.toNat + d.bytes.length ≤ size := by
  rw [failure?]
  cases d.kind with
  | passive => simp
  | active memory offset =>
    by_cases hmemory : memory = 0 <;> cases hoffset :
      offset.given values <;> simp [hmemory, hoffset]

namespace Module

variable {m : Module} {o : Options} {limit : Option Nat}

theorem memoryFailure?_eq_none : m.memoryFailure? o limit = none ↔
    ∃ bytes, limit = some bytes ∧ (m.pages o).1 ≤ (m.pages o).2 ∧
    (m.pages o).1 * Memory.pageSize ≤ bytes := by
  cases limit with
  | none => simp [memoryFailure?]
  | some bytes =>
    by_cases hpages : (m.pages o).2 < (m.pages o).1
    · simp [memoryFailure?, hpages, Nat.not_le_of_lt hpages]
    · simp [memoryFailure?, hpages, Nat.le_of_not_lt hpages]

theorem globalFailures_eq_nil {values : List Raw} {gs : List Global} :
    globalFailures values 0 gs = [] ↔
    ∀ {i : Nat} {g : Global}, gs[i]? = some g → ∃ r, g.init.given (values.take i) = .ok r := by
  rw [globalFailures, List.filterMap_eq_nil_iff]
  constructor
  · intro h i g hg
    exact Global.failure?_eq_none.1 (h (g, i) (List.mk_mem_zipIdx_iff_getElem?.2 hg))
  · rintro h ⟨g, i⟩ hg
    exact Global.failure?_eq_none.2 (h (List.mk_mem_zipIdx_iff_getElem?.1 hg))

theorem failures_eq_nil : m.failures o limit = [] ↔ m.Buildable o limit := by
  simp only [failures, List.append_eq_nil_iff, Option.toList_eq_nil_iff, List.filterMap_eq_nil_iff,
    memoryFailure?_eq_none, globalFailures_eq_nil, Element.failure?_eq_none, Data.failure?_eq_none]
  constructor
  · rintro ⟨⟨⟨hmemory, hglobals⟩, helements⟩, hdata⟩
    exact ⟨hmemory, hglobals, helements, hdata⟩
  · rintro ⟨hmemory, hglobals, helements, hdata⟩
    exact ⟨⟨⟨hmemory, hglobals⟩, helements⟩, hdata⟩

end Module

namespace Store

/-- **What comes of building the state of a module**, under a byte limit for the
memory. -/
structure Instantiated (m : Module) (o : Options) (limit : Option Nat)
    (r : Except Error Unit × Store) : Prop where
  /-- The result is the first failure, if there is any. -/
  result : r.1 = Error.first (m.failures o limit)
  /-- There is none just if everything is there and fits. -/
  ok_iff : r.1 = .ok () ↔ m.Buildable o limit
  /-- The state is then the one that the module declares. -/
  declared : r.1 = .ok () → r.2.Declared m o

/-- **Building the state of a module gives exactly the state that it declares**,
or the first of all failures. What was there before does not matter, apart from
the byte limit of the memory. -/
theorem instantiate_declared (s : Store) (m : Module) (o : Options) :
    Instantiated m o s.limit (s.instantiate m o) := by
  obtain ⟨hresult, hdeclared⟩ := s.instantiate_stages m o
  refine ⟨hresult, ?_, hdeclared⟩
  rw [hresult, Error.first_eq_ok, Module.failures_eq_nil]

end Store

end WasmEngine
