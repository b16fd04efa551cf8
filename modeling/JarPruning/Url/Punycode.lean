/-!
Text beyond ASCII in letters and digits. The characters of ASCII come first; each of the others is
told by a number, how far it is in value and place from the one before it.
-/
namespace JarPruning.Url.Punycode

def isAscii (c : Char) : Bool := c.toNat < 0x80

def digitValue? (c : Char) : Option Nat :=
  if 'a' ≤ c && c ≤ 'z' then some (c.toNat - 97)
  else if 'A' ≤ c && c ≤ 'Z' then some (c.toNat - 65)
  else if '0' ≤ c && c ≤ '9' then some (c.toNat - 48 + 26)
  else none

def digit (n : Nat) : Char := Char.ofNat (if n < 26 then 97 + n else 48 + n - 26)

/-- The least digit at a place that does not end a number; places count in steps of 36. -/
def threshold (bias place : Nat) : Nat := max 1 (min 26 (place - bias))

/-- The bias for numbers about as great as a distance. -/
def biasFor (place distance : Nat) : Nat :=
  if distance ≤ 455 then place + 36 * distance / (distance + 38)
  else biasFor (place + 36) (distance / 35)
termination_by distance
decreasing_by exact Nat.div_lt_self (by omega) (by omega)

/-- The bias behind a number that placed the last of `count` characters. -/
def adapt (distance count : Nat) (first : Bool) : Nat :=
  let distance := if first then distance / 700 else distance / 2
  biasFor 0 (distance + distance / count)

/-! Reading. -/

/-- A number, its lowest digit first, and the text behind it. -/
def readNumber (bias : Nat) : (place weight : Nat) → List Char → Option (Nat × List Char)
  | _, _, [] => none
  | place, weight, c :: rest => do
    let d ← digitValue? c
    let t := threshold bias place
    if d < t then return (d * weight, rest)
    else
      let (more, rest) ← readNumber bias (place + 36) (weight * (36 - t)) rest
      return (d * weight + more, rest)

/-- Puts the characters that numbers tell among those placed before. The last one had the value
`n`, and the next one is behind it from place `k` on. -/
def place : (budget bias n k : Nat) → (placed numbers : List Char) → Option (List Char)
  | _, _, _, _, placed, [] => some placed
  | 0, _, _, _, _, _ => none
  | budget + 1, bias, n, k, placed, numbers => do
    let (distance, rest) ← readNumber bias 36 1 numbers
    let count := placed.length + 1
    let value := n + (k + distance) / count
    let target := (k + distance) % count
    if value.isValidChar then
      let placed := placed.take target ++ Char.ofNat value :: placed.drop target
      place budget (adapt distance count (k = 0)) value (target + 1) placed rest
    else none

/-- The last hyphen parts the characters of ASCII from the numbers. -/
def decode? (cs : List Char) : Option (List Char) :=
  let numbers := (cs.reverse.takeWhile (· ≠ '-')).reverse
  let basic := cs.take (cs.length - numbers.length - 1)
  let numbers := if basic.isEmpty then cs else numbers
  if basic.all isAscii then place cs.length 72 0x80 0 basic numbers else none

/-! Writing. -/

theorem threshold_pos (bias place : Nat) : 0 < threshold bias place := by
  simp only [threshold]; omega

def numberText (bias place n : Nat) : List Char :=
  let t := threshold bias place
  if n < t then [digit n]
  else digit (t + (n - t) % (36 - t)) :: numberText bias (place + 36) ((n - t) / (36 - t))
termination_by n
decreasing_by
  have := threshold_pos bias place
  exact Nat.lt_of_le_of_lt (Nat.div_le_self _ _) (by omega)

/-- What is written so far, and the distance from the last character told. -/
structure Writing where
  text : List Char := []
  distance : Nat := 0
  bias : Nat := 72
  count : Nat
  deriving Repr

namespace Writing

/-- Passes a character: one of the value `n` is told, and one below it is a place to count. -/
def pass (basic n : Nat) (w : Writing) (c : Char) : Writing :=
  if c.toNat < n then { w with distance := w.distance + 1 }
  else if c.toNat = n then
    { text := w.text ++ numberText w.bias 36 w.distance
      distance := 0
      bias := adapt w.distance (w.count + 1) (w.count = basic)
      count := w.count + 1 }
  else w

/-- Tells the characters of all the values, in their order, from the value `n` on. -/
def tell (cs : List Char) (basic : Nat) : (n : Nat) → (values : List Nat) → Writing → Writing
  | _, [], w => w
  | n, value :: values, w =>
    let w := { w with distance := w.distance + (value - n) * (w.count + 1) }
    let w := cs.foldl (pass basic value) w
    tell cs basic (value + 1) values { w with distance := w.distance + 1 }

end Writing

def encode (cs : List Char) : List Char :=
  let basic := cs.filter isAscii
  let values := ((cs.filter (!isAscii ·)).map (·.toNat)).mergeSort.eraseReps
  let numbers := (Writing.tell cs basic.length 0x80 values { count := basic.length }).text
  (if basic.isEmpty then [] else basic ++ ['-']) ++ numbers

end JarPruning.Url.Punycode
