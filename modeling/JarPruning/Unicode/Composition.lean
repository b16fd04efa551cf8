import JarPruning.Unicode.CombiningClass
import JarPruning.Unicode.Decomposition

/-! Texts with each character in as few parts as there are characters for. -/
namespace JarPruning.Composition

/-- Puts a character before the marks that come behind it, and behind those of lower classes. -/
def insert (c : Char) : List Char → List Char
  | [] => [c]
  | d :: rest =>
    if 0 < combiningClass d && combiningClass d < combiningClass c then d :: insert c rest
    else c :: d :: rest

/-- All characters in parts, the marks behind each in the order of their classes. -/
def decomposed (cs : List Char) : List Char :=
  (cs.flatMap Decomposition.decompose).foldr insert []

/-- The character that two stand for. -/
def pair? (a b : Char) : Option Char :=
  (Decomposition.Hangul.join? a b).orElse fun _ =>
    let parts := Decomposition.decompose a ++ [b]
    (Decomposition.composites.find? (·.2 = parts)).map (·.1)

/-- Joins to a character what comes behind it; `marks` came before that and were not joined, the
last of them first. A mark behind one of its class or a higher one is not joined. -/
def composeFrom (start : Char) (marks : List Char) : List Char → List Char
  | [] => start :: marks.reverse
  | c :: rest =>
    let k := combiningClass c
    let reaches := marks.head?.all (combiningClass · < k)
    match if reaches then pair? start c else none with
    | some joined => composeFrom joined marks rest
    | none =>
      if k = 0 then start :: marks.reverse ++ composeFrom c [] rest
      else composeFrom start (c :: marks) rest

def compose : List Char → List Char
  | [] => []
  | c :: rest => if combiningClass c = 0 then composeFrom c [] rest else c :: compose rest

/-- The composed form of a text. -/
def composed (cs : List Char) : List Char := compose (decomposed cs)

end JarPruning.Composition
