import JarPruning.Url.Ipv4

/-! Hosts given by eight words: two colons in a row stand for as many zeros as are missing. -/
namespace JarPruning.Url.Ipv6

def word? (part : String) : Option Nat :=
  if 4 < part.length then none else Ipv4.spelled? 16 part.toList

/-- A number up to 255 without needless zeros. -/
def octet? (part : String) : Option Nat :=
  match part.toList with
  | [] | '0' :: _ :: _ => none
  | digits => (Ipv4.spelled? 10 digits).filter (· ≤ 255)

/-- Two words written as four numbers. -/
def dotted? (part : String) : Option (List Nat) := do
  match ← (part.splitOn ".").mapM octet? with
  | [a, b, c, d] => return [256 * a + b, 256 * c + d]
  | _ => none

/-- What was read: the words, and how many of them stand before the missing zeros. Where those are
left out, one zero is among the words. -/
structure Words where
  words : List Nat := []
  gap : Option Nat := none
  deriving DecidableEq, Repr

namespace Words

def push (w : Words) (more : List Nat) : Words := { w with words := w.words ++ more }

def leaveOut (w : Words) : Words := { words := w.words ++ [0], gap := some (w.words.length + 1) }

/-- Reads the parts between colons. -/
def read? (w : Words) : List String → Option Words
  | [] => some w
  | part :: rest =>
    if w.words.length = 8 then none
    else if part.isEmpty then
      if w.gap.isSome then none
      else if rest = [""] then some w.leaveOut
      else w.leaveOut.read? rest
    else if part.contains '.' then
      if 6 < w.words.length || !rest.isEmpty then none else (dotted? part).map w.push
    else do
      let word ← word? part
      if rest = [""] then none else (w.push [word]).read? rest

def complete? (w : Words) : Option (List Nat) :=
  match w.gap with
  | some gap =>
    let missing := List.replicate (8 - w.words.length) 0
    some (w.words.take gap ++ missing ++ w.words.drop gap)
  | none => if w.words.length = 8 then some w.words else none

end Words

def read? (text : String) : Option (List Nat) := do
  if text.length < 2 then none
  let words ← match text.splitOn ":" with
    | ["", "", ""] => some (Words.leaveOut {})
    | "" :: "" :: parts => (Words.leaveOut {}).read? parts
    | "" :: _ => none
    | parts => Words.read? {} parts
  words.complete?

end JarPruning.Url.Ipv6
