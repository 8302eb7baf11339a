import WasmEngine.Text.Hex

/-!
# JSON texts

A reader for JSON texts in two passes, each a fold: characters to tokens, tokens
to a tree. Strings are kept as their **code units**: a scalar value for each
character that stands for itself and sixteen bits for each `\u` escape, so that
a text with unpaired surrogates is still a tree. Numbers keep their characters.
Whoever needs a string or a number asks the tree for it, and may refuse what
the syntax admits.
-/

namespace WasmEngine.Text

/-- A tree of JSON values. -/
inductive Json
  /-- One of `null`, `true` and `false`. -/
  | word (chars : List Char)
  /-- A number by its characters. -/
  | number (chars : List Char)
  /-- A string by its code units. -/
  | text (units : List Nat)
  /-- An array. -/
  | array (items : List Json)
  /-- An object with its fields in order. -/
  | object (fields : List (List Nat × Json))

namespace Json

/-! ### Tokens -/

/-- The pieces of a text. -/
inductive Token
  /-- An opening bracket or brace. -/
  | opening (isObject : Bool)
  /-- A closing bracket or brace. -/
  | closing (isObject : Bool)
  | comma
  | colon
  /-- A whole value without parts. -/
  | atom (value : Json)

/-- Whether characters form the exponent of a number, or none is there. -/
def isExponent : List Char → Bool
  | [] => true
  | e :: rest =>
    let digits := match rest with
      | '+' :: ds | '-' :: ds => ds
      | ds => ds
    (e == 'e' || e == 'E') && !digits.isEmpty && digits.all Char.isDigit

/-- Whether characters form a number. -/
def isNumber (chars : List Char) : Bool :=
  let unsigned := match chars with
    | '-' :: rest => rest
    | cs => cs
  let whole := unsigned.takeWhile Char.isDigit
  !whole.isEmpty && (whole.length == 1 || whole.head? != some '0') &&
    match unsigned.dropWhile Char.isDigit with
    | '.' :: rest =>
      !(rest.takeWhile Char.isDigit).isEmpty && isExponent (rest.dropWhile Char.isDigit)
    | rest => isExponent rest

/-- The value that a run of letters, digits and signs stands for. -/
def ofRun? (chars : List Char) : Option Json :=
  if ["null", "true", "false"].any fun w => w.toList == chars then some (.word chars)
  else if isNumber chars then some (.number chars)
  else none

/-- Whether a character belongs to a run. -/
def isRunChar (c : Char) : Bool :=
  c.isAlphanum || c == '+' || c == '-' || c == '.'

/-- The code unit of an escape of one letter. -/
def escape? : Char → Option Nat
  | '"' => some 34
  | '\\' => some 92
  | '/' => some 47
  | 'b' => some 8
  | 'f' => some 12
  | 'n' => some 10
  | 'r' => some 13
  | 't' => some 9
  | _ => none

/-- Where a reader of characters is; what it has collected is in reverse. -/
inductive Place
  /-- Between tokens. -/
  | between
  /-- In a run. -/
  | run (chars : List Char)
  /-- In a string. -/
  | string (units : List Nat)
  /-- After a backslash. -/
  | escape (units : List Nat)
  /-- In the digits of an escape, with how many are missing and the value so far. -/
  | digits (units : List Nat) (missing value : Nat)

/-- The tokens so far, in reverse, and the place. -/
structure Lexer where
  tokens : List Token := []
  place : Place := .between

namespace Lexer

/-- Ends a run. -/
def close? (l : Lexer) : Option Lexer :=
  match l.place with
  | .between => some l
  | .run cs => (ofRun? cs.reverse).map fun v => ⟨.atom v :: l.tokens, .between⟩
  | _ => none

/-- Takes a character between tokens. -/
def start? (l : Lexer) (c : Char) : Option Lexer :=
  let push (t : Token) : Option Lexer := some ⟨t :: l.tokens, .between⟩
  if c == ' ' || c == '\n' || c == '\t' || c == '\r' then some ⟨l.tokens, .between⟩
  else if c == '[' then push (.opening false)
  else if c == ']' then push (.closing false)
  else if c == '\x7b' then push (.opening true)
  else if c == '\x7d' then push (.closing true)
  else if c == ',' then push .comma
  else if c == ':' then push .colon
  else if c == '"' then some ⟨l.tokens, .string []⟩
  else if isRunChar c then some ⟨l.tokens, .run [c]⟩
  else none

/-- Takes a character. -/
def feed? (l : Lexer) (c : Char) : Option Lexer :=
  match l.place with
  | .between => l.start? c
  | .run cs => if isRunChar c then some ⟨l.tokens, .run (c :: cs)⟩ else do (← l.close?).start? c
  | .string us =>
    if c == '"' then some ⟨.atom (.text us.reverse) :: l.tokens, .between⟩
    else if c == '\\' then some ⟨l.tokens, .escape us⟩
    else if c < ' ' then none
    else some ⟨l.tokens, .string (c.toNat :: us)⟩
  | .escape us =>
    if c == 'u' then some ⟨l.tokens, .digits us 4 0⟩
    else (escape? c).map fun u => ⟨l.tokens, .string (u :: us)⟩
  | .digits us missing v =>
    (hexDigit? c).map fun d =>
      let value := 16 * v + d
      if missing ≤ 1 then ⟨l.tokens, .string (value :: us)⟩
      else ⟨l.tokens, .digits us (missing - 1) value⟩

end Lexer

/-- The tokens of a text. -/
def tokens? (s : String) : Option (List Token) := do
  let l ← s.toList.foldlM Lexer.feed? {}
  let l ← l.close?
  return l.tokens.reverse

/-! ### Trees -/

/-- A container that is still open; its parts are in reverse. -/
inductive Open
  | array (items : List Json)
  | object (fields : List (List Nat × Json))
  /-- An object and the key whose value comes next. -/
  | field (fields : List (List Nat × Json)) (key : List Nat)

/-- What the next token may be. -/
inductive Expect
  /-- A value. -/
  | value
  /-- A value or the end of an array. -/
  | valueOrEnd
  /-- A key. -/
  | key
  /-- A key or the end of an object. -/
  | keyOrEnd
  /-- The colon after a key. -/
  | colon
  /-- A comma or the end of the innermost container. -/
  | commaOrEnd
  /-- Nothing more. -/
  | done (value : Json)

/-- What may come next, and the containers that are open, innermost first. -/
structure Builder where
  expect : Expect := .value
  stack : List Open := []

namespace Builder

/-- Takes a whole value. -/
def put? (stack : List Open) (v : Json) : Option Builder :=
  match stack with
  | [] => some ⟨.done v, []⟩
  | .array items :: rest => some ⟨.commaOrEnd, .array (v :: items) :: rest⟩
  | .field fields key :: rest => some ⟨.commaOrEnd, .object ((key, v) :: fields) :: rest⟩
  | .object _ :: _ => none

/-- Closes the innermost container. -/
def end? (stack : List Open) (isObject : Bool) : Option Builder :=
  match stack, isObject with
  | .array items :: rest, false => put? rest (.array items.reverse)
  | .object fields :: rest, true => put? rest (.object fields.reverse)
  | _, _ => none

/-- Takes a token where a value may stand. -/
def value? (stack : List Open) : Token → Option Builder
  | .opening false => some ⟨.valueOrEnd, .array [] :: stack⟩
  | .opening true => some ⟨.keyOrEnd, .object [] :: stack⟩
  | .atom v => put? stack v
  | _ => none

/-- Takes a token where a key may stand. -/
def key? (stack : List Open) : Token → Option Builder
  | .atom (.text units) =>
    match stack with
    | .object fields :: rest => some ⟨.colon, .field fields units :: rest⟩
    | _ => none
  | _ => none

/-- Takes a token. -/
def feed? (b : Builder) (t : Token) : Option Builder :=
  match b.expect, t with
  | .value, t => value? b.stack t
  | .valueOrEnd, .closing false => end? b.stack false
  | .valueOrEnd, t => value? b.stack t
  | .key, t => key? b.stack t
  | .keyOrEnd, .closing true => end? b.stack true
  | .keyOrEnd, t => key? b.stack t
  | .colon, .colon => some ⟨.value, b.stack⟩
  | .commaOrEnd, .closing isObject => end? b.stack isObject
  | .commaOrEnd, .comma =>
    match b.stack with
    | .array _ :: _ => some ⟨.value, b.stack⟩
    | .object _ :: _ => some ⟨.key, b.stack⟩
    | _ => none
  | _, _ => none

end Builder

/-- The tree of a text. -/
def ofText? (s : String) : Option Json := do
  match (← (← tokens? s).foldlM Builder.feed? {}).expect with
  | .done v => some v
  | _ => none

/-! ### Strings and numbers -/

/-- The text that code units stand for, unless a surrogate stands alone. -/
def ofUnits? : List Nat → Option (List Char)
  | [] => some []
  | u :: rest =>
    if 0xd800 ≤ u ∧ u < 0xdc00 then
      match rest with
      | v :: rest =>
        if 0xdc00 ≤ v ∧ v < 0xe000 then
          (ofUnits? rest).map (Char.ofNat (0x10000 + (u - 0xd800) * 0x400 + (v - 0xdc00)) :: ·)
        else none
      | [] => none
    else if 0xdc00 ≤ u ∧ u < 0xe000 then none
    else (ofUnits? rest).map (Char.ofNat u :: ·)

/-- The natural number below `bound` that a value is, if it is written without
sign, point and exponent. -/
def natBelow? (bound : Nat) : Json → Option Nat
  | .number cs =>
    let n := cs.foldl (fun n c => 10 * n + (c.toNat - '0'.toNat)) 0
    if cs.all Char.isDigit ∧ n < bound then some n else none
  | _ => none

end Json

end WasmEngine.Text
