import JarPruning.Unicode.Composition
import JarPruning.Unicode.Direction
import JarPruning.Unicode.Joining
import JarPruning.Url.Folding
import JarPruning.Url.Punycode
import JarPruning.Url.Repertoire

/-!
Names of domains, labels between dots. Names that look alike are one name, and a name is told in
ASCII: a label with other characters is written in digits behind a mark.
-/
namespace JarPruning.Url.Domain

/-- Whether a character of ASCII is no part of a name. -/
def isForbidden (c : Char) : Bool :=
  c.toNat ≤ 0x20 || c.toNat = 0x7F ||
    ['%', '#', '/', ':', '<', '>', '?', '@', '[', '\\', ']', '^', '|'].contains c

/-- The one of the names that look alike which stands for all of them. -/
def canonical (name : List Char) : List Char :=
  Composition.composed ((name.flatMap Decomposition.decompose).flatMap Folding.fold)

/-! Joiners. -/

def nonJoiner : Char := '\u200c'

def joiner : Char := '\u200d'

/-- Whether each joiner is behind a sign that joins, or parts two letters that would be joined;
`before` is what stands in front, the last of it first. -/
def joinsWell : (before label : List Char) → Bool
  | _, [] => true
  | before, c :: rest =>
    let behindVirama := before.head?.any (combiningClass · = viramaClass)
    let parts := (Joining.nextLetter? before).any Joining.reachesNext &&
      (Joining.nextLetter? rest).any Joining.reachesPrevious
    ((c ≠ joiner && c ≠ nonJoiner) || behindVirama || (c = nonJoiner && parts)) &&
      joinsWell (c :: before) rest

/-! Directions. -/

def isDigit (d : Direction) : Bool := d = .europeanDigit || d = .arabicDigit

/-- Whether the characters of a label keep their order wherever the label stands. The label has the
direction of its first character, and ends in that direction or in a digit. -/
def keepsOrder (label : List Char) : Bool :=
  let directions := label.map Direction.ofChar
  let inner := (directions.reverse.dropWhile (· = .nonspacing)).reverse
  match directions with
  | [] => true
  | .leftToRight :: _ =>
    directions.all (fun d => d ≠ .rightToLeft && d ≠ .arabicDigit) &&
      inner.getLast?.all fun d => d = .leftToRight || d = .europeanDigit
  | .rightToLeft :: _ =>
    directions.all (· ≠ .leftToRight) &&
      !(directions.contains .europeanDigit && directions.contains .arabicDigit) &&
      inner.getLast?.all fun d => d = .rightToLeft || isDigit d
  | _ :: _ => false

/-- Whether a label has characters that are not written from left to right. -/
def turns (label : List Char) : Bool :=
  label.any fun c => Direction.ofChar c = .rightToLeft || Direction.ofChar c = .arabicDigit

/-! Labels. -/

/-- More characters than this are not put into digits, and more digits not into characters. -/
def maxLength : Nat := 1000

def maxDigits : Nat := 2000

/-- Whether the characters of a label may stand together; no mark comes first. -/
def isLabel (label : List Char) : Bool :=
  label.length ≤ maxLength && !label.head?.any Mark.isMark && joinsWell [] label

/-- The mark in front of a label in digits. -/
def digitMark : List Char := ['x', 'n', '-', '-']

/-- The label that digits tell, which must be one that is not told better without them. -/
def told? (digits : List Char) : Option (List Char) := do
  if maxDigits < digits.length || digits.getLast? = some '-' then none
  let label ← Punycode.decode? digits
  let stands := !label.all Punycode.isAscii && !digitMark.isPrefixOf label &&
    !label.any Repertoire.refused.contains && canonical label = label && isLabel label
  if stands then some label else none

/-- A label in its own characters and in ASCII. -/
structure Label where
  own : List Char
  text : List Char
  deriving DecidableEq, Repr

def Label.read? (label : List Char) : Option Label :=
  if digitMark.isPrefixOf label then
    (told? (label.drop digitMark.length)).map fun own => { own, text := label }
  else if label.all Punycode.isAscii then some { own := label, text := label }
  else if isLabel label then some { own := label, text := digitMark ++ Punycode.encode label }
  else none

/-- A name in ASCII. Where one label turns the direction, all must keep their order. -/
def text? (name : List Char) : Option (List Char) := do
  if name.any Repertoire.refused.contains then none
  let name := canonical name
  if name.any isForbidden then none
  let labels ← ((String.ofList name).splitOn ".").mapM fun label => Label.read? label.toList
  if labels.any (turns ·.own) && !labels.all (keepsOrder ·.own) then none
  return ['.'].intercalate (labels.map (·.text))

end JarPruning.Url.Domain
