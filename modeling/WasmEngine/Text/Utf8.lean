/-!
# UTF-8

Reads bytes as a text. A character is written in one to four bytes: the first
says how many follow and carries the high bits, every further byte is `0x80` to
`0xbf` and carries six bits. Only the **shortest** form of a character is
accepted, and surrogates are no characters.
-/

namespace WasmEngine.Text

/-- The six bits of a byte that continues a character. -/
def continuation? (b : UInt8) : Option Nat :=
  if 0x80 ≤ b.toNat ∧ b.toNat < 0xc0 then some (b.toNat - 0x80) else none

/-- The character of a code point, which must be at least as large as its number
of bytes asks for. -/
def character? (least n : Nat) : Option Char :=
  if least ≤ n ∧ n.isValidChar then some (Char.ofNat n) else none

/-- The characters that bytes stand for. -/
def characters? : List UInt8 → Option (List Char)
  | [] => some []
  | a :: rest =>
    if a.toNat < 0x80 then return Char.ofNat a.toNat :: (← characters? rest)
    else if a.toNat < 0xc0 then none
    else match rest with
      | [] => none
      | b :: rest =>
        if a.toNat < 0xe0 then do
          let c ← character? 0x80 ((a.toNat - 0xc0) * 64 + (← continuation? b))
          return c :: (← characters? rest)
        else match rest with
          | [] => none
          | c :: rest =>
            if a.toNat < 0xf0 then do
              let c ← character? 0x800
                (((a.toNat - 0xe0) * 64 + (← continuation? b)) * 64 + (← continuation? c))
              return c :: (← characters? rest)
            else match rest with
              | [] => none
              | d :: rest =>
                if a.toNat < 0xf8 then do
                  let c ← character? 0x10000
                    ((((a.toNat - 0xf0) * 64 + (← continuation? b)) * 64 + (← continuation? c)) * 64
                      + (← continuation? d))
                  return c :: (← characters? rest)
                else none

/-- The text that bytes stand for. -/
def ofUtf8? (bytes : List UInt8) : Option String := (characters? bytes).map String.ofList

end WasmEngine.Text
