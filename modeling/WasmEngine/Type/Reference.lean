import WasmEngine.Type

/-!
# References and vectors

A binary may use more types than the engine computes with: references to what
lies on a heap, and 128-bit vectors. They are told apart here because a binary
is checked as a whole before the engine decides what it can run. `AnyType` is a
type of either sort, and `AnyType.lower` finds the value type that the engine
has for it.

Two sorts of heap types can be written but nothing can be declared with them:
what threads share, and things of exactly a declared type. Only casts may name
them.
-/

namespace WasmEngine

/-- The heap types that need no declaration. Those named `no…` are empty. -/
inductive BuiltinHeap
  /-- Functions. -/
  | func
  /-- No function. -/
  | noFunc
  /-- Things of the host. -/
  | external
  /-- No thing of the host. -/
  | noExternal
  /-- Everything the program makes. -/
  | any
  /-- What can be compared for identity. -/
  | eq
  /-- Integers of 31 bits. -/
  | i31
  /-- Structures. -/
  | struct
  /-- Arrays. -/
  | array
  /-- Nothing the program makes. -/
  | noAny
  /-- Exceptions. -/
  | exn
  /-- No exception. -/
  | noExn
  /-- Continuations. -/
  | cont
  /-- No continuation. -/
  | noCont
  deriving DecidableEq

/-- What a reference points to. -/
inductive HeapType
  /-- Something of a built-in type. -/
  | builtin (h : BuiltinHeap)
  /-- Something of a built-in type that threads share. -/
  | shared (h : BuiltinHeap)
  /-- Something of a declared type or of one below it. -/
  | declared (index : Nat)
  /-- Something of a declared type and of none below it. -/
  | exact (index : Nat)
  deriving DecidableEq

/-- The type of a reference. -/
structure RefType where
  /-- Whether it may be null. -/
  nullable : Bool
  /-- What it points to. -/
  heap : HeapType
  deriving DecidableEq

/-- Any type of a binary. -/
inductive AnyType
  /-- One of the value types. -/
  | num (type : ValType)
  /-- A vector. -/
  | v128
  /-- A reference. -/
  | ref (type : RefType)
  deriving DecidableEq

namespace BuiltinHeap

/-- The name of the nullable reference to it. -/
def refName : BuiltinHeap → String
  | .func => "funcref"
  | .noFunc => "nullfuncref"
  | .external => "externref"
  | .noExternal => "nullexternref"
  | .any => "anyref"
  | .eq => "eqref"
  | .i31 => "i31ref"
  | .struct => "structref"
  | .array => "arrayref"
  | .noAny => "nullref"
  | .exn => "exnref"
  | .noExn => "nullexnref"
  | .cont => "contref"
  | .noCont => "nullcontref"

/-- The name of the heap type. -/
def name : BuiltinHeap → String
  | .func => "func"
  | .noFunc => "nofunc"
  | .external => "extern"
  | .noExternal => "noextern"
  | .any => "any"
  | .eq => "eq"
  | .i31 => "i31"
  | .struct => "struct"
  | .array => "array"
  | .noAny => "none"
  | .exn => "exn"
  | .noExn => "noexn"
  | .cont => "cont"
  | .noCont => "nocont"

/-- The greatest type above it. -/
def top : BuiltinHeap → BuiltinHeap
  | .func | .noFunc => .func
  | .external | .noExternal => .external
  | .exn | .noExn => .exn
  | .cont | .noCont => .cont
  | .any | .eq | .i31 | .struct | .array | .noAny => .any

/-- Whether everything of one type is of another. -/
def isBelow (a b : BuiltinHeap) : Bool :=
  a == b || match a, b with
    | .noFunc, .func | .noExternal, .external | .noExn, .exn | .noCont, .cont => true
    | .noAny, .any | .noAny, .eq | .noAny, .i31 | .noAny, .struct | .noAny, .array => true
    | .i31, .eq | .struct, .eq | .array, .eq => true
    | .i31, .any | .struct, .any | .array, .any | .eq, .any => true
    | _, _ => false

/-- The built-in heap type, shared between threads or not. -/
def heap (h : BuiltinHeap) (shared : Bool) : HeapType := if shared then .shared h else .builtin h

end BuiltinHeap

/-- Whether threads share what it points to. -/
def HeapType.isShared : HeapType → Bool
  | .shared _ => true
  | _ => false

namespace RefType

/-- References to functions, null included. -/
def funcref : RefType := ⟨true, .builtin .func⟩

/-- References to functions. -/
def func : RefType := ⟨false, .builtin .func⟩

/-- Whether it points to functions of any type. -/
def isFunc (r : RefType) : Bool := r.heap == .builtin .func

/-- The text of the type. -/
def debug : RefType → String
  | ⟨true, .builtin h⟩ => h.refName
  | ⟨false, .builtin h⟩ => "(ref " ++ h.name ++ ")"
  | ⟨true, .shared h⟩ => "(shared " ++ h.refName ++ ")"
  | ⟨false, .shared h⟩ => "(ref (shared " ++ h.name ++ "))"
  | ⟨true, .declared i⟩ => "(ref null (module " ++ toString i ++ "))"
  | ⟨false, .declared i⟩ => "(ref (module " ++ toString i ++ "))"
  | ⟨true, .exact i⟩ => "(ref null (exact (module " ++ toString i ++ ")))"
  | ⟨false, .exact i⟩ => "(ref (exact (module " ++ toString i ++ ")))"

end RefType

namespace AnyType

/-- The text of the type. -/
def debug : AnyType → String
  | .num t => t.debug
  | .v128 => "V128"
  | .ref r => Text.applied "Ref" [r.debug]

/-- Whether a local of the type has a value before it is written. -/
def hasDefault : AnyType → Bool
  | .num _ | .v128 => true
  | .ref r => r.nullable

/-- The value type that the engine has for it. -/
def lower? : AnyType → Option ValType
  | .num t => some t
  | _ => none

end AnyType

/-- Value types as types of a binary. -/
def ValType.lift (ts : List ValType) : List AnyType := ts.map .num

end WasmEngine
