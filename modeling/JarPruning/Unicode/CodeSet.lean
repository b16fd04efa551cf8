import JarPruning.Text.Hex

/-! Sets of characters, as ranges of their code points. -/
namespace JarPruning

/-- Closed ranges of code points. -/
structure CodeSet where
  ranges : List (Nat × Nat)
  deriving DecidableEq, Repr

namespace CodeSet

/-- The words of a text between blanks and line breaks. -/
def words (text : String) : List String :=
  ((text.splitOn "\n").flatMap (·.splitOn " ")).filter (!·.isEmpty)

/-- A range as its ends, or as one number if it is a single code point. -/
def range (word : String) : Nat × Nat :=
  match word.splitOn "-" with
  | first :: last :: _ => (Hex.value first, Hex.value last)
  | _ => (Hex.value word, Hex.value word)

/-- Reads ranges in hexadecimal numerals. -/
def ofText (text : String) : CodeSet := ⟨(words text).map range⟩

def contains (s : CodeSet) (c : Char) : Bool :=
  s.ranges.any fun (first, last) => first ≤ c.toNat && c.toNat ≤ last

end CodeSet

end JarPruning
