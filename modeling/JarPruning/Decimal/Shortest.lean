/-!
The shortest decimal that reads back as a given binary number: the coarsest power of ten of which
a multiple lies among the reals that round to the number, and of its multiples there the nearest.
-/
namespace JarPruning.Decimal

/-- The number `mantissa * 2 ^ exponent`, and whether the next smaller number is only half as far
away as the next greater. -/
structure Binary where
  mantissa : Nat
  exponent : Int
  closeBelow : Bool
  deriving DecidableEq, Repr

/-- The magnitude of a finite double with these bits. -/
def Binary.ofBits (bits : UInt64) : Binary :=
  let fraction := (bits &&& 0xFFFFFFFFFFFFF).toNat
  let field := (bits >>> 52 &&& 0x7FF).toNat
  if field = 0 then ⟨fraction, -1074, false⟩
  else ⟨0x10000000000000 + fraction, Int.ofNat field - 1075, fraction = 0 && 1 < field⟩

/-- The number `digits * 10 ^ exponent`. -/
structure Scaled where
  digits : Nat
  exponent : Int
  deriving DecidableEq, Repr

/-- Quarters of the mantissa's unit, as multiples of a power of ten: `num / den` each. -/
structure Grid where
  num : Nat
  den : Nat

def Grid.at (binary decimal : Int) : Grid where
  num := Nat.pow 2 (binary - 2).toNat * Nat.pow 10 (-decimal).toNat
  den := Nat.pow 2 (2 - binary).toNat * Nat.pow 10 decimal.toNat

namespace Binary

def value (b : Binary) : Nat := 4 * b.mantissa

def lower (b : Binary) : Nat := b.value - if b.closeBelow then 1 else 2

def upper (b : Binary) : Nat := b.value + 2

/-- Whether a multiple of the grid's power of ten rounds to the number; the ends of the range do
if the mantissa is even. -/
def holds (b : Binary) (g : Grid) (multiple : Nat) : Bool :=
  let m := multiple * g.den
  if b.mantissa % 2 = 0 then b.lower * g.num ≤ m && m ≤ b.upper * g.num
  else b.lower * g.num < m && m < b.upper * g.num

/-- The nearest multiple that rounds to the number, if one does; of two as near, the even one. -/
def nearest? (b : Binary) (g : Grid) : Option Nat :=
  let exact := b.value * g.num
  let below := exact / g.den
  let downwards := exact - below * g.den
  let upwards := (below + 1) * g.den - exact
  match b.holds g below, b.holds g (below + 1) with
  | false, false => none
  | true, false => some below
  | false, true => some (below + 1)
  | true, true =>
    if downwards < upwards || (downwards = upwards && below % 2 = 0) then some below
    else some (below + 1)

/-- Tries one power of ten after the other, downwards. -/
def search (b : Binary) : (budget : Nat) → (exponent : Int) → Option Scaled
  | 0, _ => none
  | budget + 1, exponent =>
    match b.nearest? (.at b.exponent exponent) with
    | some digits => some ⟨digits, exponent⟩
    | none => search b budget (exponent - 1)

/-- None for zero only: all other doubles lie between `10 ^ 309` and `10 ^ (-324)`. -/
def shortest? (b : Binary) : Option Scaled :=
  if b.mantissa = 0 then none else b.search 640 309

end Binary

end JarPruning.Decimal
