import JarPruning.Unicode.CodeSet

/-! What single characters stand for, in tables of code points. -/
namespace JarPruning

/-- Characters and what they stand for. -/
abbrev CodeMap := List (Char × List Char)

namespace CodeMap

/-- Codes with plus signs between them. -/
def codes (word : String) : List Char := (word.splitOn "+").map fun w => Char.ofNat (Hex.value w)

/-- A line tells the first of successive characters, and for each of them what it stands for. -/
def row (line : String) : CodeMap :=
  match CodeSet.words line with
  | [] => []
  | first :: words =>
    words.zipIdx.map fun (word, k) => (Char.ofNat (Hex.value first + k), codes word)

def ofText (text : String) : CodeMap := (text.splitOn "\n").flatMap row

end CodeMap

/-- Characters at equal steps that stand for characters as far apart. -/
structure CodeShift where
  first : Nat
  last : Nat
  step : Nat
  /-- What the first of them stands for. -/
  target : Nat
  deriving DecidableEq, Repr

namespace CodeShift

/-- Reads shifts as four numerals each. -/
def ofNumbers : List Nat → List CodeShift
  | first :: last :: step :: target :: rest => ⟨first, last, step, target⟩ :: ofNumbers rest
  | _ => []

def ofText (text : String) : List CodeShift := ofNumbers ((CodeSet.words text).map Hex.value)

def image? (s : CodeShift) (c : Char) : Option Char :=
  let n := c.toNat
  if s.first ≤ n && n ≤ s.last && (n - s.first) % s.step = 0 then
    some (Char.ofNat (n - s.first + s.target))
  else none

end CodeShift

end JarPruning
