/-!
# Shortest decimals

A binary float stands for a whole interval of reals: everything that rounds to
it. Of the decimals in that interval `shortest` gives one with the **fewest
digits**, and of those the one **nearest** to the float; two equally near ones
are decided upwards. The search walks the decimal grids from coarse to fine and
looks on each grid only at the two neighbours of the float, in exact integer
arithmetic.

`positional` writes a decimal without an exponent.
-/

namespace WasmEngine

/-- The positive number `digits * 10 ^ exponent`. -/
structure Decimal where
  /-- The significant digits, read as a number. -/
  digits : Nat
  /-- The power of ten they are scaled by. -/
  exponent : Int

namespace Decimal

/-- The reals that round to one float, scaled: the float is
`4 * m * 2 ^ (q - 2)`, and the interval reaches from `4 * m - below` to
`4 * m + 2` in the same unit. The ends belong to it when `closed`. -/
structure Interval where
  /-- The significand of the float. -/
  m : Nat
  /-- The binary exponent of the last bit of `m`. -/
  q : Int
  /-- The distance to the lower end: two quarters of a unit, or one just above a
  power of two. -/
  below : Nat
  /-- Whether the ends themselves round to the float. -/
  closed : Bool

namespace Interval

/-- The decimal on the grid `10 ^ k` that lies in the interval and is nearest to
the float, if the grid has a point there. -/
def onGrid? (i : Interval) (k : Int) : Option Decimal :=
  let scale := Nat.pow 10 (-k).toNat <<< (i.q - 2).toNat
  let unit := Nat.pow 10 k.toNat <<< (2 - i.q).toNat
  let value := 4 * i.m * scale
  let low := (4 * i.m - i.below) * scale
  let high := (4 * i.m + 2) * scale
  let d := value / unit
  let down := if i.closed then low ≤ d * unit else low < d * unit
  let up := if i.closed then (d + 1) * unit ≤ high else (d + 1) * unit < high
  if down ∧ (¬ up ∨ 2 * (value - d * unit) < unit) then some ⟨d, k⟩
  else if up then some ⟨d + 1, k⟩
  else none

/-- The first of `n` grids, from `10 ^ k` downwards, that has a point in the
interval. -/
def search (i : Interval) : (n : Nat) → (k : Int) → Decimal
  | 0, k => ⟨0, k⟩
  | n + 1, k => (i.onGrid? k).getD (search i n (k - 1))

/-- A power of ten that is above the float: one more than an upper estimate of
its decimal exponent. -/
def top (i : Interval) : Int := (i.q + Nat.log2 i.m + 1) * 30103 / 100000 + 2

/-- The shortest decimal in the interval. Seventeen digits always suffice for
the formats in use, and the search starts at most three grids above the first
digit. -/
def shortest (i : Interval) : Decimal := i.search 24 i.top

end Interval

/-- A run of the digit zero. -/
def zeros (n : Nat) : List Char := List.replicate n '0'

/-- A decimal written out in full, with a point only where a fraction follows. -/
def positional (d : Decimal) : String :=
  let cs := Nat.toDigits 10 d.digits
  if 0 ≤ d.exponent then String.ofList (cs ++ zeros d.exponent.toNat)
  else
    let places := (-d.exponent).toNat
    if places < cs.length then
      String.ofList (cs.take (cs.length - places) ++ '.' :: cs.drop (cs.length - places))
    else String.ofList ('0' :: '.' :: zeros (places - cs.length) ++ cs)

end Decimal

end WasmEngine
