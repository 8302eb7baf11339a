/-!
# Hexadecimal text

Bit patterns are written with lower case digits at a fixed width, byte strings
with two digits a byte. Readers take digits of either case, any number of them,
and refuse everything else.
-/

namespace WasmEngine.Text

/-- The digit of a number below sixteen. -/
def hexDigit (n : Nat) : Char := Nat.digitChar n

/-- The value of a digit. -/
def hexDigit? (c : Char) : Option Nat :=
  if '0' ≤ c ∧ c ≤ '9' then some (c.toNat - '0'.toNat)
  else if 'a' ≤ c ∧ c ≤ 'f' then some (c.toNat - 'a'.toNat + 10)
  else if 'A' ≤ c ∧ c ≤ 'F' then some (c.toNat - 'A'.toNat + 10)
  else none

/-- The last `width` digits of `n`, padded with zeros. -/
def hexDigits : (width : Nat) → (n : Nat) → List Char
  | 0, _ => []
  | w + 1, n => hexDigits w (n / 16) ++ [hexDigit (n % 16)]

/-- The last `width` digits of `n` as a text. -/
def hex (width n : Nat) : String := String.ofList (hexDigits width n)

/-- The digits of `n` without leading zeros. -/
def hexShort (n : Nat) : String := String.ofList (Nat.toDigits 16 n)

/-- The number that a list of digits stands for. -/
def hexValue? (cs : List Char) : Option Nat :=
  if cs.isEmpty then none
  else cs.foldlM (fun n c => (hexDigit? c).map (16 * n + ·)) 0

/-- The number a text of digits stands for. -/
def readHex? (s : String) : Option Nat := hexValue? s.toList

/-- Byte strings, two digits a byte. -/
def hexBytes (bs : List UInt8) : String :=
  String.ofList (bs.flatMap fun b => hexDigits 2 b.toNat)

/-- The bytes of a list of digit pairs. -/
def byteDigits? : List Char → Option (List UInt8)
  | [] => some []
  | a :: b :: rest => do
    let hi ← hexDigit? a
    let lo ← hexDigit? b
    let bytes ← byteDigits? rest
    return UInt8.ofNat (16 * hi + lo) :: bytes
  | [_] => none

/-- The byte string that a text of digit pairs stands for. -/
def readBytes? (s : String) : Option (List UInt8) := byteDigits? s.toList

end WasmEngine.Text
