import WasmEngine.Text.Hex
import WasmEngine.Text.Printable

/-!
# Quoted texts

A text in diagnostic form: between double quotes, with quotes and backslashes
behind a backslash, the usual short forms for tabs, line ends and the zero
character, and the code point in hexadecimal for every other character that does
not show on its own.
-/

namespace WasmEngine.Text

/-- A character inside of a quoted text. -/
def quotedChar (c : Char) : List Char :=
  match c with
  | '"' => ['\\', '"']
  | '\\' => ['\\', '\\']
  | '\n' => ['\\', 'n']
  | '\r' => ['\\', 'r']
  | '\t' => ['\\', 't']
  | '\x00' => ['\\', '0']
  | c =>
    let shows := if c.toNat < 0x80 then 0x20 ≤ c.toNat && c.toNat < 0x7f else isPrintable c
    if shows then [c] else '\\' :: 'u' :: '\x7b' :: (hexShort c.toNat).toList ++ ['\x7d']

/-- A text between quotes. -/
def quoted (s : String) : String :=
  String.ofList ('"' :: s.toList.flatMap quotedChar ++ ['"'])

end WasmEngine.Text
