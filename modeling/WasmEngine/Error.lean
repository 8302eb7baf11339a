import WasmEngine.Text.Quoted
import WasmEngine.Type
import WasmEngine.Value.Text

/-!
# Errors

What can go wrong, by cause. A `Trap` is raised by a running program, a
`LinkError` when imports do not fit, a `ParseError` while a binary is read. A
`Fault` is the engine's own complaint about code that no checked module
contains, or about a host function that broke its promise. `Error` joins them
with the refusals of the calling interface.

Each cause has one message; `Error.kind` names the cause, and `Error.debug`
shows it with its fields.
-/

namespace WasmEngine

/-! ### Traps -/

/-- Why a program stopped. -/
inductive Trap
  /-- An `unreachable` instruction was reached. -/
  | unreachable
  /-- An access reaches beyond the end of memory. -/
  | memoryOutOfBounds (offset len max : Nat)
  /-- An access reaches beyond the end of a table. -/
  | tableOutOfBounds (offset len max : Nat)
  /-- A division by zero. -/
  | divisionByZero
  /-- A NaN has no integer value. -/
  | invalidConversion
  /-- The exact result does not fit. -/
  | integerOverflow
  /-- As many calls are active as the ceiling allows. -/
  | callDepthExceeded (maxDepth : Nat)
  /-- A table has no such entry. -/
  | undefinedElement (index : Nat)
  /-- A table entry is null. -/
  | uninitializedElement (index : Nat)
  /-- A table entry is a function of another type. -/
  | callTypeMismatch (expected actual : FuncType)
  /-- Host code gave up. -/
  | host (message : String)
  deriving DecidableEq

namespace Trap

/-- The name of the cause. -/
def kind : Trap → String
  | .unreachable => "Unreachable"
  | .memoryOutOfBounds .. => "MemoryOutOfBounds"
  | .tableOutOfBounds .. => "TableOutOfBounds"
  | .divisionByZero => "DivisionByZero"
  | .invalidConversion => "InvalidConversionToInt"
  | .integerOverflow => "IntegerOverflow"
  | .callDepthExceeded _ => "CallDepthExceeded"
  | .undefinedElement _ => "UndefinedElement"
  | .uninitializedElement _ => "UninitializedElement"
  | .callTypeMismatch .. => "IndirectCallTypeMismatch"
  | .host _ => "Host"

/-- The cause in a few words. -/
def short : Trap → String
  | .unreachable => "unreachable"
  | .memoryOutOfBounds .. => "out of bounds memory access"
  | .tableOutOfBounds .. => "out of bounds table access"
  | .divisionByZero => "integer divide by zero"
  | .invalidConversion => "invalid conversion to integer"
  | .integerOverflow => "integer overflow"
  | .callDepthExceeded _ => "call depth exceeded"
  | .undefinedElement _ => "undefined element"
  | .uninitializedElement _ => "uninitialized element"
  | .callTypeMismatch .. => "indirect call type mismatch"
  | .host _ => "host trap"

/-- The cause with its particulars. -/
def message (t : Trap) : String :=
  match t with
  | .memoryOutOfBounds o l m | .tableOutOfBounds o l m =>
    t.short ++ ": offset=" ++ toString o ++ ", len=" ++ toString l ++ ", max=" ++ toString m
  | .callDepthExceeded n => t.short ++ ": max_depth=" ++ toString n
  | .undefinedElement i | .uninitializedElement i => t.short ++ ": index=" ++ toString i
  | .callTypeMismatch e a => t.short ++ ": expected=" ++ e.debug ++ ", actual=" ++ a.debug
  | .host s => t.short ++ ": " ++ s
  | t => t.short

/-- The diagnostic form. -/
def debug (t : Trap) : String :=
  match t with
  | .memoryOutOfBounds o l m | .tableOutOfBounds o l m =>
    Text.record t.kind [("offset", toString o), ("len", toString l), ("max", toString m)]
  | .callDepthExceeded n => Text.record t.kind [("max_depth", toString n)]
  | .undefinedElement i | .uninitializedElement i => Text.record t.kind [("index", toString i)]
  | .callTypeMismatch e a => Text.record t.kind [("expected", e.debug), ("actual", a.debug)]
  | .host s => Text.record t.kind [("message", Text.quoted s)]
  | t => t.kind

end Trap

/-! ### Linking -/

/-- Why an import cannot be satisfied. -/
inductive LinkError
  /-- Nothing is defined under the name. -/
  | unknownImport (moduleName name : String)
  /-- What is defined under the name has another type. -/
  | incompatibleType (moduleName name : String)
  deriving DecidableEq

namespace LinkError

/-- The name of the cause. -/
def kind : LinkError → String
  | .unknownImport .. => "UnknownImport"
  | .incompatibleType .. => "IncompatibleImportType"

/-- The cause in a few words. -/
def short : LinkError → String
  | .unknownImport .. => "unknown import"
  | .incompatibleType .. => "incompatible import type"

/-- The two names of the import. -/
def names : LinkError → String × String
  | .unknownImport m n | .incompatibleType m n => (m, n)

/-- The cause with the import it is about. -/
def message (e : LinkError) : String := e.short ++ ": " ++ e.names.1 ++ "." ++ e.names.2

/-- The diagnostic form. -/
def debug (e : LinkError) : String :=
  Text.record e.kind [("module", Text.quoted e.names.1), ("name", Text.quoted e.names.2)]

end LinkError

/-! ### Reading binaries -/

/-- Why a binary is not accepted. -/
inductive ParseError
  /-- It is malformed or not valid. -/
  | rejected (message : String) (offset : Nat)
  /-- It uses a type the engine cannot represent. -/
  | invalidType (what : String)
  /-- It has a section the engine does not support. -/
  | unsupportedSection (what : String)
  /-- A section appears twice. -/
  | duplicateSection (what : String)
  /-- It uses an operator the engine does not support. -/
  | unsupportedOperator (what : String)
  /-- It is not a core module. -/
  | invalidEncoding (encoding : String)
  /-- A size does not fit. -/
  | tooLarge (what : String)
  /-- It ends too early. -/
  | endNotReached
  /-- Anything else. -/
  | other (what : String)
  deriving DecidableEq

namespace ParseError

/-- The name of the cause. -/
def kind : ParseError → String
  | .rejected .. => "ParseError"
  | .invalidType _ => "InvalidType"
  | .unsupportedSection _ => "UnsupportedSection"
  | .duplicateSection _ => "DuplicateSection"
  | .unsupportedOperator _ => "UnsupportedOperator"
  | .invalidEncoding _ => "InvalidEncoding"
  | .tooLarge _ => "TooLarge"
  | .endNotReached => "EndNotReached"
  | .other _ => "Other"

/-- The cause with its particulars. -/
def message : ParseError → String
  | .rejected m o => "error parsing module: " ++ m ++ " at offset " ++ toString o
  | .invalidType s => "invalid type: " ++ s
  | .unsupportedSection s => "unsupported section: " ++ s
  | .duplicateSection s => "duplicate section: " ++ s
  | .unsupportedOperator s => "unsupported operator: " ++ s
  | .invalidEncoding s => "invalid encoding: " ++ s
  | .tooLarge s => "too large: " ++ s
  | .endNotReached => "end of module not reached"
  | .other s => "unknown error: " ++ s

/-- The diagnostic form. -/
def debug (e : ParseError) : String :=
  match e with
  | .rejected m o => Text.record e.kind [("message", Text.quoted m), ("offset", toString o)]
  | .invalidType s | .unsupportedSection s | .duplicateSection s | .unsupportedOperator s
  | .tooLarge s | .other s => Text.applied e.kind [Text.quoted s]
  | .invalidEncoding s => Text.applied e.kind [s]
  | .endNotReached => e.kind

end ParseError

/-! ### Faults of code and hosts -/

/-- What the engine found wrong with code, segments or host functions while
using them. -/
inductive Fault
  /-- A complaint in words. -/
  | text (s : String)
  /-- An operand is missing. -/
  | valueUnderflow
  /-- A block end without a block. -/
  | blockUnderflow
  /-- Execution ran off the code. -/
  | pcOutOfBounds (pc : Nat)
  /-- There is no such local. -/
  | localNotFound (index : Nat)
  /-- There is no such global. -/
  | globalNotFound (index : Nat)
  /-- There is no such table. -/
  | tableNotFound (index : Nat)
  /-- A segment is for a table that does not exist. -/
  | elementTableNotFound (index : Nat)
  /-- There is no such type. -/
  | typeNotFound (index : Nat)
  /-- There is no such function. -/
  | funcNotFound (index : Nat)
  /-- A function has no type. -/
  | funcWithoutType (index : Nat)
  /-- An imported function is not linked. -/
  | hostNotLinked (index : Nat)
  /-- A host function returned what its type does not allow. -/
  | hostResults (index : Nat) (results : List Value) (expected : List ValType)
  /-- The labels of a branch table reach beyond the code. -/
  | brTableEnd (stop size : Nat)
  /-- The same, found while compiling. -/
  | brTableAt (index : Nat)
  /-- A branch table is not followed by labels. -/
  | brTableLabel
  /-- A run left a wrong number of values. -/
  | resultCount (expected got : Nat)
  /-- A compiled run left too few slots. -/
  | lostResults (index : Nat)
  /-- An operand is missing at compile time. -/
  | operandUnderflow (index : Nat)
  /-- The parameters of a block are missing. -/
  | blockParams
  /-- The results of a function are missing. -/
  | missingResults
  /-- The values of a branch are missing. -/
  | missingBranchValues
  /-- An instruction that only occurs together with another one. -/
  | unexpected (what : String) (index : Nat)
  /-- A memory starts above its maximum. -/
  | initialPages (initial maximum : Nat)
  /-- A memory may not have that many bytes. -/
  | cannotAllocate (pages : Nat)
  deriving DecidableEq

namespace Fault

/-- The complaint in words. -/
def message : Fault → String
  | .text s => s
  | .valueUnderflow => "value stack underflow"
  | .blockUnderflow => "block stack underflow"
  | .pcOutOfBounds n => "instruction pointer " ++ toString n ++ " out of bounds"
  | .localNotFound i => "local " ++ toString i ++ " not found"
  | .globalNotFound i => "global " ++ toString i ++ " not found"
  | .tableNotFound i => "table " ++ toString i ++ " not found"
  | .elementTableNotFound i => "table " ++ toString i ++ " not found for element segment"
  | .typeNotFound i => "type " ++ toString i ++ " not found"
  | .funcNotFound i => "function " ++ toString i ++ " not found"
  | .funcWithoutType i => "function " ++ toString i ++ " has no type"
  | .hostNotLinked i => "host function " ++ toString i ++ " is not linked"
  | .hostResults i rs ts =>
    "host function " ++ toString i ++ " returned " ++ Text.bracketed (rs.map Value.debug) ++
      ", expected " ++ Text.bracketed (ts.map ValType.debug)
  | .brTableEnd stop size => "br_table out of bounds: " ++ toString stop ++ " > " ++ toString size
  | .brTableAt i => "br_table at " ++ toString i ++ " out of bounds"
  | .brTableLabel => "br_table with invalid label"
  | .resultCount e g => "expected " ++ toString e ++ " results, got " ++ toString g
  | .lostResults i => "function " ++ toString i ++ " lost its results"
  | .operandUnderflow i => "operand stack underflow at instruction " ++ toString i
  | .blockParams => "block parameters missing"
  | .missingResults => "missing results"
  | .missingBranchValues => "missing branch values"
  | .unexpected s i => "unexpected " ++ s ++ " at instruction " ++ toString i
  | .initialPages i m =>
    "initial memory size of " ++ toString i ++ " pages exceeds the maximum of " ++
      toString m ++ " pages"
  | .cannotAllocate n => "cannot allocate " ++ toString n ++ " pages of linear memory"

end Fault

/-! ### Refusals of the calling interface -/

/-- What the engine does not support. -/
inductive Unsupported
  /-- Something described in words. -/
  | text (s : String)
  /-- A function with several results was called for one. -/
  | manyResults (name : String) (count : Nat)
  /-- A segment for a memory other than the first. -/
  | dataMemory (index : Nat)
  /-- A reference where a number is needed. -/
  | referenceConst (c : Const)
  deriving DecidableEq

namespace Unsupported

/-- The refusal in words. -/
def message : Unsupported → String
  | .text s => s
  | .manyResults name n => name ++ " returns " ++ toString n ++ " values, use invoke"
  | .dataMemory i => "data segment for memory " ++ toString i
  | .referenceConst c => "reference constant " ++ c.debug

end Unsupported

/-- What is wrong with the arguments or the expected results of a call. -/
inductive ArgumentError
  /-- Something described in words. -/
  | text (s : String)
  /-- Too few or too many arguments. -/
  | count (expected got : Nat)
  /-- An argument of another type. -/
  | mismatch (index : Nat) (arg : Value) (expected : ValType)
  /-- Too few or too many results. -/
  | resultCount (expected got : Nat)
  /-- A result of another type, counted from one. -/
  | resultType (position : Nat)
  deriving DecidableEq

namespace ArgumentError

/-- The complaint in words. -/
def message : ArgumentError → String
  | .text s => s
  | .count e g => "expected " ++ toString e ++ " arguments, got " ++ toString g
  | .mismatch i v t => "argument " ++ toString i ++ " is " ++ v.debug ++ ", expected " ++ t.debug
  | .resultCount e g => "expected " ++ toString e ++ " values, got " ++ toString g
  | .resultType n => "unexpected value for T" ++ toString n

end ArgumentError

/-- What is wrong with options. -/
inductive OptionsError
  /-- Something described in words. -/
  | text (s : String)
  /-- The call depth ceiling is above what is supported. -/
  | callDepth (given supported : Nat)
  deriving DecidableEq

namespace OptionsError

/-- The complaint in words. -/
def message : OptionsError → String
  | .text s => s
  | .callDepth g s =>
    "max_call_depth of " ++ toString g ++ " is above the supported maximum of " ++ toString s

end OptionsError

/-! ### All errors -/

/-- Everything an operation can fail with. -/
inductive Error
  /-- A program trapped. -/
  | trap (t : Trap)
  /-- Imports do not fit. -/
  | link (e : LinkError)
  /-- A binary is not accepted. -/
  | parse (e : ParseError)
  /-- Something is not supported. -/
  | unsupported (u : Unsupported)
  /-- No function is exported under the name. -/
  | functionNotFound (space name : String)
  /-- Arguments or results do not fit. -/
  | arguments (e : ArgumentError)
  /-- The instance is not ready for calls. -/
  | notInitialized
  /-- There is no memory to work with. -/
  | allocatorNotSet
  /-- Options cannot be honoured. -/
  | options (e : OptionsError)
  /-- A fault of code or host. -/
  | fault (f : Fault)
  deriving DecidableEq

namespace Error

/-- The name of the cause. -/
def kind : Error → String
  | .trap t => "Trap." ++ t.kind
  | .link e => "Linker." ++ e.kind
  | .parse e => "ParseError." ++ e.kind
  | .unsupported _ => "UnsupportedFeature"
  | .functionNotFound .. => "FunctionNotFound"
  | .arguments _ => "InvalidArguments"
  | .notInitialized => "NotInitialized"
  | .allocatorNotSet => "AllocatorNotSet"
  | .options _ => "InvalidOptions"
  | .fault _ => "Other"

/-- The cause with its particulars. -/
def message : Error → String
  | .trap t => "trap: " ++ t.message
  | .link e => "linking error: " ++ e.message
  | .parse e => "error parsing module: " ++ e.message
  | .unsupported u => "unsupported feature: " ++ u.message
  | .functionNotFound s n => "function not found: " ++ s ++ "." ++ n
  | .arguments e => "invalid arguments: " ++ e.message
  | .notInitialized => "backend is not initialized"
  | .allocatorNotSet => "no memory allocator was set"
  | .options e => "invalid options: " ++ e.message
  | .fault f => "unknown error: " ++ f.message

/-- The cause in a few words, for traps and link errors. -/
def short? : Error → Option String
  | .trap t => some t.short
  | .link e => some e.short
  | _ => none

/-- The message of the error underneath, where there is one. -/
def source? : Error → Option String
  | .trap t => some t.message
  | .link e => some e.message
  | .parse e => some e.message
  | _ => none

/-- Whether a program trapped. -/
def isTrap : Error → Bool
  | .trap _ => true
  | _ => false

/-- The message as reports show it: none for a rejected binary, and for the
other refusals of a binary only what comes before the first parenthesis or
brace. -/
def report? (e : Error) : Option String :=
  match e with
  | .parse (.rejected ..) => none
  | .parse _ =>
    let cut := e.message.toList.takeWhile fun c => c != '(' && c != '\x7b'
    some (String.ofList (cut.reverse.dropWhile (· == ' ')).reverse)
  | e => some e.message

/-- The diagnostic form. -/
def debug (e : Error) : String :=
  match e with
  | .trap t => Text.applied "Trap" [t.debug]
  | .link l => Text.applied "Linker" [l.debug]
  | .parse p => Text.applied "ParseError" [p.debug]
  | .unsupported u => Text.applied e.kind [Text.quoted u.message]
  | .functionNotFound s n =>
    Text.record e.kind [("module", Text.quoted s), ("name", Text.quoted n)]
  | .arguments a => Text.applied e.kind [Text.quoted a.message]
  | .options o => Text.applied e.kind [Text.quoted o.message]
  | .fault f => Text.applied e.kind [Text.quoted f.message]
  | .notInitialized | .allocatorNotSet => e.kind

end Error

end WasmEngine
