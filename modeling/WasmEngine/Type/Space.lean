import WasmEngine.Type.Reference

/-!
# Declared types

The types a binary declares, in groups. A type may refer to all types before its
group and to the types of its group. Two types are **the same** when they stand
at the same place of groups that are equal once references into the own group
are counted from its start, and those to earlier types are to the first that is
the same; `TypeSpace.canonical` is that first type.

A type may name one earlier type that is above it. `TypeSpace.extend?` takes
another group in, if it is well formed: it refers to types that are there, and
what is above a type is open to it and fits it.
-/

namespace WasmEngine

/-- What a field of a structure or array holds. -/
inductive Storage
  /-- A byte. -/
  | byte
  /-- Two bytes. -/
  | short
  /-- A value. -/
  | value (type : AnyType)
  deriving DecidableEq

/-- A field. -/
structure Field where
  /-- What it holds. -/
  storage : Storage
  /-- Whether it may be written. -/
  isMutable : Bool
  deriving DecidableEq

/-- What a declared type is made of. -/
inductive Composite
  /-- A function. -/
  | func (params results : List AnyType)
  /-- A structure. -/
  | struct (fields : List Field)
  /-- An array. -/
  | array (item : Field)
  deriving DecidableEq

/-- A declared type. -/
structure Declared where
  /-- Whether no type may be below it. -/
  isFinal : Bool
  /-- The type above it. -/
  above : Option Nat
  /-- What it is made of. -/
  body : Composite
  deriving DecidableEq

/-! ### Renaming -/

/-- The type with other indices. -/
def AnyType.rename (f : Nat → Nat) : AnyType → AnyType
  | .ref ⟨n, .declared i⟩ => .ref ⟨n, .declared (f i)⟩
  | .ref ⟨n, .exact i⟩ => .ref ⟨n, .exact (f i)⟩
  | t => t

/-- The field with other indices. -/
def Field.rename (f : Nat → Nat) : Field → Field
  | ⟨.value t, m⟩ => ⟨.value (t.rename f), m⟩
  | s => s

/-- The type with other indices. -/
def Composite.rename (f : Nat → Nat) : Composite → Composite
  | .func ps rs => .func (ps.map (·.rename f)) (rs.map (·.rename f))
  | .struct fs => .struct (fs.map (·.rename f))
  | .array i => .array (i.rename f)

/-- The type with other indices. -/
def Declared.rename (f : Nat → Nat) (d : Declared) : Declared :=
  ⟨d.isFinal, d.above.map f, d.body.rename f⟩

/-- The types it mentions. -/
def Composite.types : Composite → List AnyType
  | .func ps rs => ps ++ rs
  | .struct fs => fs.filterMap fun f => match f.storage with
    | .value t => some t
    | _ => none
  | .array i => match i.storage with
    | .value t => [t]
    | _ => []

/-! ### The space -/

/-- The declared types of a binary. -/
structure TypeSpace where
  /-- The types in order. -/
  types : List Declared := []
  /-- For each type the first that is the same. -/
  firsts : List Nat := []
  /-- The groups that are not the same as an earlier one, each with its start
  and its types as `closed` gives them. -/
  groups : List (Nat × List Declared) := []

namespace TypeSpace

variable (s : TypeSpace)

/-- The first type that is the same. -/
def canonical (i : Nat) : Nat := s.firsts[i]?.getD i

/-- The built-in type right above a declared one. -/
def kind? (i : Nat) : Option BuiltinHeap :=
  s.types[i]?.map fun d => match d.body with
    | .func _ _ => .func
    | .struct _ => .struct
    | .array _ => .array

/-- Whether a type is another one or below it, looking up at most so many levels. -/
def reaches (target : Nat) : Nat → Nat → Bool
  | 0, i => s.canonical i == s.canonical target
  | n + 1, i => s.canonical i == s.canonical target ||
    match s.types[i]?.bind Declared.above with
    | some j => reaches target n j
    | none => false

/-- Whether a built-in type is empty and below a declared one. -/
def isBottom (a : BuiltinHeap) (j : Nat) : Bool :=
  (s.kind? j).any fun k => match k with
    | .func => a == .noFunc
    | _ => a == .noAny

/-- Whether everything of one heap type is of another. Threads share nothing of
a declared type. -/
def heapBelow : HeapType → HeapType → Bool
  | .builtin a, .builtin b | .shared a, .shared b => a.isBelow b
  | .declared i, .builtin b | .exact i, .builtin b => (s.kind? i).any (·.isBelow b)
  | .builtin a, .declared j | .builtin a, .exact j => s.isBottom a j
  | .declared i, .declared j | .exact i, .declared j => s.reaches j s.types.length i
  | .exact i, .exact j => s.canonical i == s.canonical j
  | _, _ => false

/-- The greatest built-in type above a declared one. -/
def declaredTop (i : Nat) : BuiltinHeap := ((s.kind? i).map BuiltinHeap.top).getD .any

/-- The greatest type above a heap type. -/
def top : HeapType → HeapType
  | .builtin h => .builtin h.top
  | .shared h => .shared h.top
  | .declared i | .exact i => .builtin (s.declaredTop i)

/-- Whether every reference of one type is of another. -/
def refBelow (a b : RefType) : Bool := (!a.nullable || b.nullable) && s.heapBelow a.heap b.heap

/-- Whether everything of one type is of another. -/
def isBelow : AnyType → AnyType → Bool
  | .ref a, .ref b => s.refBelow a b
  | a, b => a == b

/-- Whether types are below others one by one. -/
def allBelow : List AnyType → List AnyType → Bool
  | [], [] => true
  | a :: as, b :: bs => s.isBelow a b && allBelow as bs
  | _, _ => false

/-- Whether a field holds no more than another does. -/
def storageBelow : Storage → Storage → Bool
  | .value a, .value b => s.isBelow a b
  | a, b => a == b

/-- Whether a field may stand for another: one that can be written has to hold
the same. -/
def fieldFits (a b : Field) : Bool :=
  a.isMutable == b.isMutable && s.storageBelow a.storage b.storage &&
    (!a.isMutable || s.storageBelow b.storage a.storage)

/-- Whether fields may stand for as many others. -/
def fieldsFit : List Field → List Field → Bool
  | _, [] => true
  | a :: as, b :: bs => s.fieldFits a b && fieldsFit as bs
  | [], _ :: _ => false

/-- Whether a type has the shape that a type below another needs. -/
def fits : Composite → Composite → Bool
  | .func ps rs, .func ps' rs' => s.allBelow ps' ps && s.allBelow rs rs'
  | .struct fs, .struct fs' => s.fieldsFit fs fs'
  | .array i, .array i' => s.fieldFits i i'
  | _, _ => false

/-- Whether something can be declared to point to a heap type. -/
def hasHeap : HeapType → Bool
  | .builtin h => h.top != .cont
  | .declared i => i < s.types.length
  | .shared _ | .exact _ => false

/-- Whether a reference can be cast to point to a heap type: to anything that is
there but continuations. -/
def canCast : HeapType → Bool
  | .builtin h | .shared h => h.top != .cont
  | .declared i | .exact i => i < s.types.length

/-- Whether a type mentions only what is there. -/
def has : AnyType → Bool
  | .ref r => s.hasHeap r.heap
  | _ => true

/-- The number of types above a type, looking up at most so many levels. -/
def depth : Nat → Nat → Nat
  | 0, _ => 0
  | n + 1, i => match s.types[i]?.bind Declared.above with
    | some j => depth n j + 1
    | none => 0

/-- Whether the type at an index is well formed. -/
def wellFormed (i : Nat) (d : Declared) : Bool :=
  d.body.types.all s.has &&
    match d.above with
    | none => true
    | some j => j < i && (s.types[j]?).any (fun e => !e.isFinal && s.fits d.body e.body) &&
      s.depth s.types.length i ≤ 63

/-- The types of a group behind all others, no matter where it starts: an odd
index is that of a type of the group, and an even one that of an earlier
type. -/
def closed (group : List Declared) : List Declared :=
  let n := s.types.length
  group.map (·.rename fun j => if n ≤ j then 2 * (j - n) + 1 else 2 * s.canonical j)

/-- The space with another group. -/
def append (group : List Declared) : TypeSpace :=
  let n := s.types.length
  let types := s.types ++ group
  let firsts (start : Nat) := s.firsts ++ (List.range group.length).map (start + ·)
  let key := s.closed group
  match s.groups.find? (·.2 == key) with
  | some (start, _) => { s with types, firsts := firsts start }
  | none => { types, firsts := firsts n, groups := s.groups ++ [(n, key)] }

/-- The space with another group, if that is well formed. -/
def extend? (group : List Declared) : Option TypeSpace :=
  let s' := s.append group
  if (group.zipIdx s.types.length).all (fun (d, i) => s'.wellFormed i d) then some s' else none

end TypeSpace

end WasmEngine
