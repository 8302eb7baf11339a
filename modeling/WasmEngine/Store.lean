import WasmEngine.Memory
import WasmEngine.Module
import WasmEngine.Options

/-!
# Stores

The state of an instance that programs can see and change: globals, tables and
the memory. `Store.instantiate` builds the state a module declares. It goes
through memory, globals, tables, segments of table entries and segments of bytes
in that order, and stops at the first that fails; what was built up to there
stays.
-/

namespace WasmEngine

/-- The state of an instance. -/
structure Store where
  /-- The globals. -/
  globals : Array Raw := #[]
  /-- The tables; an entry is a function or null. -/
  tables : Array (Array (Option Nat)) := #[]
  /-- The memory, once there is one. -/
  memory : Option Memory := none

namespace Store

/-! ### Reading and writing -/

/-- The value of a global. -/
def global (s : Store) (i : Nat) : Except Error Raw :=
  match s.globals[i]? with
  | some r => .ok r
  | none => .error (.fault (.globalNotFound i))

/-- Writes a global. -/
def setGlobal (s : Store) (i : Nat) (r : Raw) : Except Error Unit × Store :=
  if i < s.globals.size then (.ok (), { s with globals := s.globals.setIfInBounds i r })
  else (.error (.fault (.globalNotFound i)), s)

/-- The function at an entry of a table. -/
def tableFunc (s : Store) (table index : Nat) : Except Error Nat :=
  match s.tables[table]? with
  | none => .error (.fault (.tableNotFound table))
  | some entries =>
    match entries[index]? with
    | some (some f) => .ok f
    | some none => .error (.trap (.uninitializedElement index))
    | none => .error (.trap (.undefinedElement index))

/-- Looks at the memory. -/
def seeMemory {α : Type} (s : Store) (f : Memory → Except Error α) : Except Error α :=
  match s.memory with
  | some m => f m
  | none => .error .allocatorNotSet

/-- Runs an operation on the memory. -/
def onMemory {α : Type} (s : Store) (f : Memory → Except Error α × Memory) :
    Except Error α × Store :=
  match s with
  | ⟨gs, ts, some m⟩ =>
    let r := f m
    (r.1, ⟨gs, ts, some r.2⟩)
  | ⟨gs, ts, none⟩ => (.error .allocatorNotSet, ⟨gs, ts, none⟩)

/-! ### Instantiation -/

/-- The value of a constant. -/
def constant (s : Store) : Const → Except Error Raw
  | .value v => .ok v.toRaw
  | .globalGet i => s.global i
  | c => .error (.unsupported (.referenceConst c))

/-- The value of a segment's offset, an unsigned 32-bit number. -/
def offset (s : Store) (c : Const) : Except Error Nat := (s.constant c).map fun r => r.low.toNat

/-- Brings the memory a module declares into being; a module without one gets no
pages. -/
def resetMemory (s : Store) (m : Module) (o : Options) : Except Error Unit × Store :=
  match m.memories.head? with
  | some t => s.onMemory fun mem => mem.reset t.initial (min (t.max.getD 0xffffffff) o.maxPages)
  | none => s.onMemory fun mem => mem.reset 0 0

/-- Adds globals one after the other; each sees those before it. -/
def addGlobals (s : Store) : List Global → Except Error Unit × Store
  | [] => (.ok (), s)
  | g :: gs =>
    match s.constant g.init with
    | .ok r => addGlobals { s with globals := s.globals.push r } gs
    | .error e => (.error e, s)

/-- Entries written over a table from an offset on. -/
def writeEntries (table : Array (Option Nat)) (offset : Nat) : List (Option Nat) →
    Array (Option Nat)
  | [] => table
  | x :: xs => writeEntries (table.setIfInBounds offset x) (offset + 1) xs

/-- Writes a segment of table entries. -/
def addElement (s : Store) (e : Element) : Except Error Unit × Store :=
  match e.kind with
  | .active table offset =>
    match s.offset offset with
    | .error err => (.error err, s)
    | .ok off =>
      match s.tables[table]? with
      | none => (.error (.fault (.elementTableNotFound table)), s)
      | some entries =>
        if endsInside entries.size off e.items.length then
          (.ok (),
            { s with tables := s.tables.setIfInBounds table (writeEntries entries off e.items) })
        else (.error (.trap (.tableOutOfBounds off e.items.length entries.size)), s)
  | _ => (.ok (), s)

/-- Writes a segment of bytes. -/
def addData (s : Store) (d : Data) : Except Error Unit × Store :=
  match d.kind with
  | .active memory offset =>
    if memory ≠ 0 then (.error (.unsupported (.dataMemory memory)), s)
    else
      match s.offset offset with
      | .error e => (.error e, s)
      | .ok off => s.onMemory fun m => m.store off d.bytes
  | .passive => (.ok (), s)

/-- Does one thing after the other, up to the first that fails. -/
def each {α : Type} (f : Store → α → Except Error Unit × Store) (s : Store) :
    List α → Except Error Unit × Store
  | [] => (.ok (), s)
  | a :: as =>
    match f s a with
    | (.ok (), s') => each f s' as
    | r => r

/-- Builds the state a module declares. -/
def instantiate (s : Store) (m : Module) (o : Options) : Except Error Unit × Store :=
  match s.resetMemory m o with
  | (.ok (), s) =>
    match ({ s with globals := #[] } : Store).addGlobals m.globals with
    | (.ok (), s) =>
      let s := { s with
        tables := (m.tables.map fun (t : TableType) => Array.replicate t.initial none).toArray }
      match s.each addElement m.elements with
      | (.ok (), s) => s.each addData m.data
      | r => r
    | r => r
  | r => r

/-- The diagnostic form. -/
def debug (s : Store) : String :=
  Text.record "Store"
    [("globals", Text.bracketed (s.globals.toList.map Raw.debug)),
      ("tables", Text.bracketed (s.tables.toList.map fun t =>
        Text.bracketed (t.toList.map fun x => Text.optional (x.map toString)))),
      ("memory", Text.optional (s.memory.map Memory.debug))]

end Store

end WasmEngine
