import WasmEngine.Error

/-!
# Errors by name

Host code raises errors by naming the cause and giving its fields in order.
`Error.named?` is the error of a name and its fields; it is inverse to
`Error.kind` on the names.
-/

namespace WasmEngine

/-- A field of an error that is given from outside. -/
inductive ErrorField
  /-- A text, or the digits of a number too large for other forms. -/
  | text (s : String)
  /-- A number. -/
  | number (n : Nat)
  /-- A function type. -/
  | type (t : FuncType)

namespace ErrorField

/-- The number a field holds. -/
def nat? : ErrorField → Option Nat
  | .number n => some n
  | .text s => s.toNat?
  | .type _ => none

end ErrorField

/-- The error with no fields of a name. -/
def Error.plain? : String → Option Error
  | "Trap.Unreachable" => some (.trap .unreachable)
  | "Trap.DivisionByZero" => some (.trap .divisionByZero)
  | "Trap.InvalidConversionToInt" => some (.trap .invalidConversion)
  | "Trap.IntegerOverflow" => some (.trap .integerOverflow)
  | "ParseError.EndNotReached" => some (.parse .endNotReached)
  | "NotInitialized" => some .notInitialized
  | "AllocatorNotSet" => some .allocatorNotSet
  | _ => none

/-- The error with one text of a name. -/
def Error.ofText? (kind s : String) : Option Error :=
  match kind with
  | "Trap.Host" => some (.trap (.host s))
  | "ParseError.InvalidType" => some (.parse (.invalidType s))
  | "ParseError.UnsupportedSection" => some (.parse (.unsupportedSection s))
  | "ParseError.DuplicateSection" => some (.parse (.duplicateSection s))
  | "ParseError.UnsupportedOperator" => some (.parse (.unsupportedOperator s))
  | "ParseError.InvalidEncoding" => some (.parse (.invalidEncoding s))
  | "ParseError.TooLarge" => some (.parse (.tooLarge s))
  | "ParseError.Other" => some (.parse (.other s))
  | "UnsupportedFeature" => some (.unsupported (.text s))
  | "InvalidArguments" => some (.arguments (.text s))
  | "InvalidOptions" => some (.options (.text s))
  | "Other" => some (.fault (.text s))
  | _ => none

/-- The error with one number of a name. -/
def Error.ofNat? (kind : String) (n : Nat) : Option Error :=
  match kind with
  | "Trap.CallDepthExceeded" => some (.trap (.callDepthExceeded n))
  | "Trap.UndefinedElement" => some (.trap (.undefinedElement n))
  | "Trap.UninitializedElement" => some (.trap (.uninitializedElement n))
  | _ => none

/-- The error of a name with its fields in order. -/
def Error.named? (kind : String) : List ErrorField → Option Error
  | [] => plain? kind
  | [field] =>
    match field.nat?.bind (ofNat? kind) with
    | some e => some e
    | none =>
      match field with
      | .text s => ofText? kind s
      | _ => none
  | [.text a, .text b] =>
    match kind with
    | "Linker.UnknownImport" => some (.link (.unknownImport a b))
    | "Linker.IncompatibleImportType" => some (.link (.incompatibleType a b))
    | "FunctionNotFound" => some (.functionNotFound a b)
    | "ParseError.ParseError" => b.toNat?.map fun n => .parse (.rejected a n)
    | _ => none
  | [.text a, .number n] =>
    if kind == "ParseError.ParseError" then some (.parse (.rejected a n)) else none
  | [.type a, .type b] =>
    if kind == "Trap.IndirectCallTypeMismatch" then some (.trap (.callTypeMismatch a b)) else none
  | [a, b, c] => do
    let o ← a.nat?
    let l ← b.nat?
    let m ← c.nat?
    match kind with
    | "Trap.MemoryOutOfBounds" => some (.trap (.memoryOutOfBounds o l m))
    | "Trap.TableOutOfBounds" => some (.trap (.tableOutOfBounds o l m))
    | _ => none
  | _ => none

end WasmEngine
