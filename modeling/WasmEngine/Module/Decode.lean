import WasmEngine.Module.Draft

/-!
# Decoding binaries

A binary is a header and then sections, each with a number that tells its kind
and a length. All but the custom ones come at most once and in a fixed order.
`Module.decode` reads, checks and lowers them one after another, and the first
fault is the answer.

The bodies of functions are handled one by one, so a body that the engine cannot
run is found before a later one that is not valid, and before the section is
found to be too short or too long.
-/

namespace WasmEngine

/-- The kinds of sections that come once at most. -/
inductive SectionKind
  | types
  | imports
  | functions
  | tables
  | memories
  | tags
  | globals
  | exports
  | start
  | elements
  | dataCount
  | code
  | data
  deriving DecidableEq

namespace SectionKind

/-- The kind of a section by its number. -/
def ofId? : Nat → Option SectionKind
  | 1 => some .types
  | 2 => some .imports
  | 3 => some .functions
  | 4 => some .tables
  | 5 => some .memories
  | 6 => some .globals
  | 7 => some .exports
  | 8 => some .start
  | 9 => some .elements
  | 10 => some .code
  | 11 => some .data
  | 12 => some .dataCount
  | 13 => some .tags
  | _ => none

/-- The place of a kind in the order of sections. -/
def rank : SectionKind → Nat
  | .types => 1
  | .imports => 2
  | .functions => 3
  | .tables => 4
  | .memories => 5
  | .tags => 6
  | .globals => 7
  | .exports => 8
  | .start => 9
  | .elements => 10
  | .dataCount => 11
  | .code => 12
  | .data => 13

end SectionKind

namespace Decode

/-- The complaint about what is malformed or not valid at the front of the
bytes, which end at `stop`. -/
def rejected {α : Type} (stop : Nat) (bs : List UInt8) : Except ParseError α :=
  .error (.rejected "malformed or invalid module" (stop - bs.length))

/-- What the bytes made of a draft. -/
def finish (stop : Nat) (bs : List UInt8) : Draft.Step → Except ParseError Draft
  | some r => r
  | none => rejected stop bs

/-- What a reader takes off the bytes, and the others. -/
def take {α : Type} (stop : Nat) (r : Reader α) (bs : List UInt8) :
    Except ParseError (α × List UInt8) :=
  match r bs with
  | some x => .ok x
  | none => rejected stop bs

/-- Takes in the bodies of functions of the given types. -/
def bodies (stop : Nat) : List Nat → List UInt8 → Draft → Except ParseError (Draft × List UInt8)
  | [], bs, d => .ok (d, bs)
  | type :: types, bs, d => do
    let (contents, rest) ← take stop (do Reader.bytes (← .u32)) bs
    let d ← finish stop bs (d.body type contents)
    bodies stop types rest d

/-- Takes in the code of a module: as many bodies as functions, and nothing
else. The bytes may end before the section does. -/
def code (stop missing : Nat) (bs : List UInt8) (d : Draft) : Except ParseError Draft := do
  let (count, rest) ← take stop .u32 bs
  if count ≠ d.defined.length then rejected stop bs
  else
    let (d, rest) ← bodies stop d.defined rest d
    if rest.isEmpty ∧ missing = 0 then return d else rejected stop rest

/-- Takes in a section that is there as a whole; its bytes end at `stop`. -/
def wholeSection (kind : SectionKind) (stop : Nat) (bs : List UInt8) (d : Draft) :
    Except ParseError Draft :=
  finish stop bs <| match kind with
    | .types => d.types bs
    | .imports => d.imports bs
    | .functions => d.functions bs
    | .tables => d.tables bs
    | .memories => d.memories bs
    | .tags => d.tags bs
    | .globals => d.globals bs
    | .exports => d.exports bs
    | .start => d.start bs
    | .elements => d.elements stop bs
    | .dataCount => d.dataCount bs
    | .code => none
    | .data => d.data stop bs

/-- Where decoding is between two sections. -/
structure State where
  /-- The module so far. -/
  draft : Draft := {}
  /-- The place of the last section in the order of sections. -/
  rank : Nat := 0

/-- Takes in the section at the front of the bytes, which end at `stop`; the
bytes behind it are left. -/
def oneSection (stop : Nat) (bs : List UInt8) (s : State) :
    Except ParseError (State × List UInt8) := do
  let ((id, len), rest) ← take stop (do return (← .byte, ← .u32)) bs
  let start := stop - rest.length
  if id = 0 then
    let (contents, rest) ← take stop (.bytes len) rest
    let _ ← take (start + len) .name contents
    return (s, rest)
  else match SectionKind.ofId? id with
    | none => rejected stop bs
    | some kind =>
      if kind.rank ≤ s.rank then rejected stop bs
      else if kind = .code then
        let d ← code (start + min len rest.length) (len - rest.length) (rest.take len) s.draft
        return (⟨d, kind.rank⟩, rest.drop len)
      else
        let (contents, rest) ← take stop (.bytes len) rest
        let d ← wholeSection kind (start + len) contents s.draft
        return (⟨d, kind.rank⟩, rest)

/-- Takes in all sections. Each has a byte at least, so the number of bytes
bounds theirs. -/
def sections (stop : Nat) : Nat → List UInt8 → State → Except ParseError State
  | _, [], s => .ok s
  | 0, b :: bs, _ => rejected stop (b :: bs)
  | n + 1, bs, s => do
    let (s, rest) ← oneSection stop bs s
    sections stop n rest s

/-- The bytes that a binary starts with: its mark and the version. -/
def header : List UInt8 := [0x00, 0x61, 0x73, 0x6d, 0x01, 0x00, 0x00, 0x00]

/-- The module behind the header of a binary. Functions need bodies, and
segments of bytes that were announced have to be there. -/
def contents (stop : Nat) (bs : List UInt8) : Except ParseError Module := do
  let s ← sections stop bs.length bs {}
  if s.draft.mod.funcs.size = s.draft.defined.length ∧
      s.draft.scope.dataCount.all (· == s.draft.mod.data.length) then
    return s.draft.mod
  else rejected stop []

end Decode

/-- The module of a binary. -/
def Module.decode (bs : List UInt8) : Except ParseError Module :=
  if Decode.header.isPrefixOf bs then Decode.contents bs.length (bs.drop Decode.header.length)
  else Decode.rejected bs.length bs

end WasmEngine
